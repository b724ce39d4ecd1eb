import Mathlib.Data.Finset.Card
import Mathlib.Data.List.Nodup
import Mathlib.Logic.Relation
import Console.Proofs.Heap.Keys

/-!
# Values without cycles

A value reaches what is in it, at any depth. Where nothing that it reaches is in itself, no path down
from it meets a container twice, so none is longer than the containers are many; and what carries over
from the parts of values to the values holds of all of them.
-/

/-! ## Descent

Whoever goes on from step to step comes to an end after a bounded number of steps, or can come to some
place again and again. If there are steps from finitely many places only, it is one or the other, and
the number of these places is a bound.
-/

namespace Console.Descent

open Relation

variable {α β : Type} {R : α → α → Prop} {a b : α} {n m : Nat}

/-- Whoever goes on from here takes fewer steps than that. -/
def Within (R : α → α → Prop) : Nat → α → Prop
  | 0, _ => False
  | n + 1, a => ∀ b, R a b → Within R n b

/-- From here one can come to a place, and back to it again. -/
def Recurs (R : α → α → Prop) (a : α) : Prop := ∃ b, ReflTransGen R a b ∧ TransGen R b b

/-- Where every step is one of another kind too, so is coming back again and again. -/
theorem Recurs.map {S : β → β → Prop} {f : α → β} (steps : ∀ a b, R a b → S (f a) (f b))
    (recurs : Recurs R a) : Recurs S (f a) := by
  obtain ⟨b, reaches, again⟩ := recurs
  exact ⟨f b, reaches.lift f steps, again.lift f steps⟩

theorem Recurs.before (recurs : Recurs R b) (step : R a b) : Recurs R a := by
  obtain ⟨c, reaches, again⟩ := recurs
  exact ⟨c, .head step reaches, again⟩

namespace Within

theorem mono (within : Within R n a) (le : n ≤ m) : Within R m a := by
  induction n generalizing a m with
  | zero => exact within.elim
  | succ n ih =>
    obtain ⟨m, rfl⟩ : ∃ k, m = k + 1 := ⟨m - 1, by omega⟩
    exact fun b step => ih (within b step) (Nat.le_of_succ_le_succ le)

theorem reached (within : Within R n a) (reaches : ReflTransGen R a b) : Within R n b := by
  induction reaches with
  | refl => exact within
  | tail _ step ih =>
    cases n with
    | zero => exact ih.elim
    | succ n => exact (ih _ step).mono (Nat.le_succ n)

theorem not_recurs (within : Within R n a) : ¬Recurs R a := by
  rintro ⟨b, reaches, again⟩
  replace within := within.reached reaches
  -- Once around, fewer steps are left.
  induction n with
  | zero => exact within
  | succ n ih =>
    obtain ⟨c, step, back⟩ := TransGen.head'_iff.1 again
    exact ih ((within c step).reached back)

end Within

/-- The places with steps from them are told apart by sites, which are among the given ones. -/
structure Sited (R : α → α → Prop) (site : α → β) (sites : Finset β) : Prop where
  mem {a b : α} (step : R a b) : site a ∈ sites
  injective {a b a' b' : α} (step : R a b) (step' : R a' b') (same : site a = site a') : a = a'

/-- Where there are fewer steps. -/
theorem Sited.sub {S : α → α → Prop} {site : α → β} {sites : Finset β} (sited : Sited R site sites)
    (fewer : ∀ {a b}, S a b → R a b) : Sited S site sites where
  mem step := sited.mem (fewer step)
  injective step step' := sited.injective (fewer step) (fewer step')

/-- Different places on the way to a place. -/
structure PathTo (R : α → α → Prop) (path : List α) (a : α) : Prop where
  distinct : path.Nodup
  leads : ∀ b ∈ path, TransGen R b a

variable {site : α → β} {sites : Finset β} {path : List α}

theorem PathTo.length_le (sited : Sited R site sites) (way : PathTo R path a) :
    path.length ≤ sites.card := by
  have step {b : α} (mem : b ∈ path) : ∃ c, R b c := by
    obtain ⟨c, step, -⟩ := TransGen.head'_iff.1 (way.leads b mem)
    exact ⟨c, step⟩
  have apart : (path.map site).Nodup := by
    refine way.distinct.map_on fun b mem b' mem' same => ?_
    obtain ⟨c, here⟩ := step mem
    obtain ⟨c', here'⟩ := step mem'
    exact sited.injective here here' same
  have inside : (⟨path.map site, apart⟩ : Finset β) ⊆ sites := by
    intro s visited
    obtain ⟨b, mem, rfl⟩ := List.mem_map.1 (Multiset.mem_coe.1 visited)
    obtain ⟨c, here⟩ := step mem
    exact sited.mem here
  calc path.length = (path.map site).length := (List.length_map site).symm
    _ ≤ sites.card := Finset.card_le_card inside

theorem PathTo.extend (way : PathTo R path a) (onward : ¬Recurs R a) (step : R a b) :
    PathTo R (a :: path) b where
  distinct := List.nodup_cons.2 ⟨fun again => onward ⟨a, .refl, way.leads a again⟩, way.distinct⟩
  leads := List.forall_mem_cons.2 ⟨.single step, fun c mem => (way.leads c mem).tail step⟩

/-- As many steps are left as there are sites off the path. -/
theorem PathTo.within (sited : Sited R site sites) (way : PathTo R path a) (onward : ¬Recurs R a)
    (enough : sites.card ≤ path.length + n) : Within R (n + 1) a := by
  induction n generalizing path a with
  | zero =>
    intro b step
    have longer := (way.extend onward step).length_le sited
    rw [List.length_cons] at longer
    omega
  | succ n ih =>
    intro b step
    refine ih (way.extend onward step) (fun again => onward (again.before step)) ?_
    rw [List.length_cons]
    omega

theorem within_of_not_recurs (sited : Sited R site sites) (onward : ¬Recurs R a) :
    Within R (sites.card + 1) a := by
  have start : PathTo R [] a := ⟨.nil, List.forall_mem_nil _⟩
  exact start.within sited onward (Nat.le_add_left ..)

end Console.Descent

namespace Console.Heap

open Relation

variable {h : Heap} {P : Value → Prop} {a b v w : Value}

/-- What stands in a container: its items, or its keys and values. -/
def parts (h : Heap) : Value → List Value
  | .list r => (h.list r).toList
  | .tuple r => (h.tuple r).toList
  | .dict r => (h.dict r).toList.flatMap fun e => [e.1, e.2]
  | _ => []

theorem key_mem_parts {r : Ref .dict} {e : Value × Value} (mem : e ∈ (h.dict r).toList) :
    e.1 ∈ h.parts (.dict r) := List.mem_flatMap.2 ⟨e, mem, by simp⟩

theorem value_mem_parts {r : Ref .dict} {e : Value × Value} (mem : e ∈ (h.dict r).toList) :
    e.2 ∈ h.parts (.dict r) := List.mem_flatMap.2 ⟨e, mem, by simp⟩

theorem parts_of_single (single : v.isContainer = false) : h.parts v = [] := by
  cases v <;> first | rfl | cases single

/-- The value is the other one, or has it in it at some depth. -/
def Reaches (h : Heap) : Value → Value → Prop := ReflTransGen fun v w => w ∈ h.parts v

/-- The property holds of the value and of all that is in it. -/
def Throughout (h : Heap) (P : Value → Prop) (v : Value) : Prop := ∀ w, h.Reaches v w → P w

/-- Neither the value nor anything in it is in itself. -/
def Acyclic (h : Heap) : Value → Prop :=
  h.Throughout fun w => ∀ part ∈ h.parts w, ¬ h.Reaches part w

namespace Throughout

theorem here (all : h.Throughout P v) : P v := all v .refl

theorem part (all : h.Throughout P v) (mem : w ∈ h.parts v) : h.Throughout P w :=
  fun _ reaches => all _ (.head mem reaches)

theorem of_parts (here : P v) (parts : ∀ w ∈ h.parts v, h.Throughout P w) : h.Throughout P v := by
  intro w reaches
  rcases ReflTransGen.cases_head reaches with rfl | ⟨part, mem, reaches⟩
  · exact here
  · exact parts part mem w reaches

theorem mono {Q : Value → Prop} (all : h.Throughout P v) (weaker : ∀ w, P w → Q w) :
    h.Throughout Q v := fun w reaches => weaker w (all w reaches)

end Throughout

/-- What is put together from values without cycles has none. -/
theorem Acyclic.of_parts (parts : ∀ w ∈ h.parts v, h.Acyclic w) : h.Acyclic v := by
  refine Throughout.of_parts (fun part mem reaches => ?_) parts
  -- From the part back to the value and on to the part is a cycle at the part.
  rcases ReflTransGen.cases_head reaches with rfl | ⟨next, first, rest⟩
  · exact (parts part mem).here part mem .refl
  · exact (parts part mem).here next first (rest.tail mem)

/-- The value is nested less deep than that. -/
abbrev Shallow (h : Heap) : Nat → Value → Prop := Descent.Within fun v w => w ∈ h.parts v

/-- Where a container stands among all containers of the heap. -/
def place (h : Heap) : Value → Nat
  | .list r => r.index
  | .tuple r => h.lists.size + r.index
  | .dict r => h.lists.size + h.tuples.size + r.index
  | _ => 0

theorem lt_size_of_getD {α : Type} {all : Array (Array α)} {i : Nat} {a : α}
    (mem : a ∈ all[i]?.getD #[]) : i < all.size := by
  by_contra outside
  rw [Array.getElem?_eq_none (Nat.not_lt.1 outside)] at mem
  exact Array.not_mem_empty a mem

/-- A container that is not empty is one of the heap's. -/
theorem cases_of_part (mem : w ∈ h.parts v) :
    (∃ r, v = .list r ∧ r.index < h.lists.size) ∨ (∃ r, v = .tuple r ∧ r.index < h.tuples.size) ∨
      ∃ r, v = .dict r ∧ r.index < h.dicts.size := by
  cases v with
  | list r => exact .inl ⟨r, rfl, lt_size_of_getD (Array.mem_toList_iff.1 mem)⟩
  | tuple r => exact .inr (.inl ⟨r, rfl, lt_size_of_getD (Array.mem_toList_iff.1 mem)⟩)
  | dict r =>
    obtain ⟨e, inside, -⟩ := List.mem_flatMap.1 mem
    exact .inr (.inr ⟨r, rfl, lt_size_of_getD (Array.mem_toList_iff.1 inside)⟩)
  | _ => cases mem

theorem place_lt (mem : w ∈ h.parts v) : h.place v < h.containers := by
  unfold containers
  rcases cases_of_part mem with ⟨r, rfl, inside⟩ | ⟨r, rfl, inside⟩ | ⟨r, rfl, inside⟩ <;>
    simp only [place] <;> omega

theorem eq_of_place_eq {v' w' : Value} (mem : w ∈ h.parts v) (mem' : w' ∈ h.parts v')
    (same : h.place v = h.place v') : v = v' := by
  rcases cases_of_part mem with ⟨r, rfl, inside⟩ | ⟨r, rfl, inside⟩ | ⟨r, rfl, inside⟩ <;>
    rcases cases_of_part mem' with ⟨s, rfl, inside'⟩ | ⟨s, rfl, inside'⟩ | ⟨s, rfl, inside'⟩ <;>
    simp only [place] at same
  -- Containers of one kind are the same, and those of two kinds have their places apart.
  case inl.inl | inr.inl.inr.inl | inr.inr.inr.inr =>
    have index : r.index = s.index := by omega
    cases r
    cases s
    simp_all
  all_goals omega

theorem sited_parts (h : Heap) :
    Descent.Sited (fun v w => w ∈ h.parts v) h.place (Finset.range h.containers) where
  mem step := Finset.mem_range.2 (place_lt step)
  injective := eq_of_place_eq

theorem Acyclic.not_recurs (acyclic : h.Acyclic v) :
    ¬Descent.Recurs (fun v w => w ∈ h.parts v) v := by
  rintro ⟨w, reaches, again⟩
  obtain ⟨part, mem, back⟩ := TransGen.head'_iff.1 again
  exact acyclic w reaches part mem back

theorem Acyclic.shallow (acyclic : h.Acyclic v) : h.Shallow (h.containers + 1) v := by
  have within := Descent.within_of_not_recurs h.sited_parts acyclic.not_recurs
  rwa [Finset.card_range] at within

/-- What carries over from all that is in a value to the value holds of values without cycles. -/
theorem Acyclic.induction {motive : ∀ v, h.Acyclic v → Prop}
    (step : ∀ v (acyclic : h.Acyclic v), (∀ w mem, motive w (acyclic.part mem)) → motive v acyclic)
    (acyclic : h.Acyclic v) : motive v acyclic := by
  have upwards (n : Nat) : ∀ v, h.Shallow n v → ∀ acyclic, motive v acyclic := by
    induction n with
    | zero => exact fun _ shallow => shallow.elim
    | succ n ih =>
      exact fun v shallow acyclic => step v acyclic fun w mem => ih w (shallow w mem) (acyclic.part mem)
  exact upwards _ v acyclic.shallow acyclic

end Console.Heap
