import Mathlib.Data.List.Forall2
import Console.Machine

/-!
# Evaluations that yield values

What a compound evaluation does on a machine, from what its parts do. Heaps grow where no object is
changed and new ones come behind the old ones.
-/

namespace Console

/-- The containers of one heap are there in the other one too, with more behind them. -/
structure Heap.Grows (h h' : Heap) : Prop where
  lists : h.lists.toList <+: h'.lists.toList
  tuples : h.tuples.toList <+: h'.tuples.toList
  dicts : h.dicts.toList <+: h'.dicts.toList

namespace Heap

variable {h h' h'' : Heap}

theorem getElem?_of_prefix {α : Type} {as bs : Array α} (grows : as.toList <+: bs.toList) {i : Nat}
    {a : α} (found : as[i]? = some a) : bs[i]? = some a := by
  rw [← Array.getElem?_toList] at found ⊢
  obtain ⟨inside, rfl⟩ := List.getElem?_eq_some_iff.1 found
  exact List.prefix_iff_getElem?.1 grows i inside

namespace Grows

theorem refl (h : Heap) : h.Grows h :=
  ⟨List.prefix_rfl, List.prefix_rfl, List.prefix_rfl⟩

theorem trans (first : h.Grows h') (second : h'.Grows h'') : h.Grows h'' :=
  ⟨first.lists.trans second.lists, first.tuples.trans second.tuples, first.dicts.trans second.dicts⟩

theorem containers_le (grows : h.Grows h') : h.containers ≤ h'.containers := by
  have lists := grows.lists.length_le
  have tuples := grows.tuples.length_le
  have dicts := grows.dicts.length_le
  simp only [Array.length_toList] at lists tuples dicts
  unfold containers
  omega

end Grows

end Heap

namespace Eval

variable {α β : Type} {m m' : Machine}

theorem run_bind {x : Eval α} {a : α} (run : x m = .ok a m') (f : α → Eval β) :
    (x >>= f) m = f a m' := by
  simp only [bind, EStateM.bind, run]

/-- What comes first in an evaluation that succeeds succeeds. -/
theorem of_bind {x : Eval α} {f : α → Eval β} {b : β} {m'' : Machine}
    (run : (x >>= f) m = .ok b m'') : ∃ a m', x m = .ok a m' ∧ f a m' = .ok b m'' := by
  simp only [bind, EStateM.bind] at run
  split at run
  · next a m' first => exact ⟨a, m', first, run⟩
  · cases run

theorem run_ask (question : Heap → α) (f : α → Eval β) (m : Machine) :
    (ask question >>= f) m = f (question m.heap) m := rfl

theorem run_attempt {x : Eval α} {a : α} (run : x m = .ok a m') : attempt x m = .ok (.ok a) m' := by
  simp only [attempt, run]

/-- Parts that change nothing, each with the result that belongs to its model. -/
theorem run_mapM {γ : Type} {f : α → Eval β} {g : γ → β} {cs : List γ} {as : List α}
    (each : List.Forall₂ (fun c a => f a m = .ok (g c) m) cs as) :
    as.mapM f m = .ok (cs.map g) m := by
  induction each with
  | nil => rfl
  | cons first _ others =>
    rw [List.mapM_cons, run_bind first, run_bind others]
    rfl

end Eval

end Console
