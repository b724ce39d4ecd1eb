import Console.Proofs.Heap.Acyclic
import Console.Proofs.Printing
import Mathlib.Data.Finset.Card
import Mathlib.Data.Finset.SDiff

/-!
# Ellipses

A value is written to its end on every heap. Whoever goes down from a value enters a list or a dict
that is not being written yet, of which there are fewer each time, or a tuple, which is younger than
the tuples in it. An ellipsis stands for a list or a dict where it is inside itself, and only there:
one that is met twice side by side is written twice.
-/

namespace Console

open Eval

namespace Heap

variable {h : Heap} {path : List Value} {around : List Container} {c : Container} {v w : Value}
  {text text' : String}

/-- The text around the texts of what is in a value. -/
def framed (h : Heap) (inside : Value → String) : Value → String
  | .list r => "[" ++ ", ".intercalate ((h.list r).toList.map inside) ++ "]"
  | .tuple r => parenthesised ((h.tuple r).toList.map inside)
  | .dict r =>
    "\x7b" ++ ", ".intercalate ((h.dict r).toList.map fun e => inside e.1 ++ ": " ++ inside e.2) ++
      "\x7d"
  | v => plainRepr h v

theorem framed_congr {inside inside' : Value → String}
    (same : ∀ w ∈ h.parts v, inside w = inside' w) : h.framed inside v = h.framed inside' v := by
  cases v with
  | list r =>
    have items : (h.list r).toList.map inside = (h.list r).toList.map inside' :=
      List.map_congr_left same
    rw [framed, framed, items]
  | tuple r => exact congrArg parenthesised (List.map_congr_left same)
  | dict r =>
    have entries : ∀ e ∈ (h.dict r).toList,
        inside e.1 ++ ": " ++ inside e.2 = inside' e.1 ++ ": " ++ inside' e.2 := by
      intro e mem
      rw [same _ (key_mem_parts mem), same _ (value_mem_parts mem)]
    rw [framed, framed, List.map_congr_left entries]
  | _ => rfl

/-- The plain writer, which looks out for no cycles and stops only at its depth. -/
def plainText (h : Heap) : (depth : Nat) → Value → String
  | 0, _ => ""
  | depth + 1, v => h.framed (plainText h depth) v

/-- What a list or a dict inside itself is written as. -/
def ellipsis? : Value → Option String
  | .list _ => some "[...]"
  | .dict _ => some "\x7b...\x7d"
  | _ => none

/-- The text of a value that stands inside the values on the path: a list or a dict on the path is
an ellipsis, and everything else is the texts of what is in it. -/
inductive Shown (h : Heap) : List Value → Value → String → Prop
  | again {path : List Value} {v : Value} {mark : String} (marked : ellipsis? v = some mark)
    (within : v ∈ path) : Shown h path v mark
  | whole {path : List Value} {v : Value} {inside : Value → String}
    (first : ellipsis? v = none ∨ v ∉ path)
    (each : ∀ w ∈ h.parts v, Shown h (v :: path) w (inside w)) :
    Shown h path v (h.framed inside v)

theorem Shown.unique (shown : h.Shown path v text) (shown' : h.Shown path v text') :
    text = text' := by
  induction shown generalizing text' with
  | again marked within =>
    cases shown' with
    | again marked' => exact Option.some.inj (marked.symm.trans marked')
    | whole first => simp [marked, within] at first
  | whole first each ih =>
    cases shown' with
    | again marked within => simp [marked, within] at first
    | whole _ each' => exact framed_congr fun w mem => ih w mem (each' w mem)

/-- Without cycles nothing is marked. -/
theorem Shown.eq_plainText (shown : h.Shown path v text) (acyclic : h.Acyclic v)
    (leads : ∀ u ∈ path, ∃ part ∈ h.parts u, h.Reaches part v) {depth : Nat}
    (shallow : h.Shallow depth v) : h.plainText depth v = text := by
  induction shown generalizing depth with
  | again _ within =>
    obtain ⟨part, mem, reaches⟩ := leads _ within
    exact absurd reaches (acyclic.here part mem)
  | @whole path v inside _ _ ih =>
    cases depth with
    | zero => exact shallow.elim
    | succ depth =>
      refine framed_congr fun w mem => ih w mem (acyclic.part mem) ?_ (shallow w mem)
      refine List.forall_mem_cons.2 ⟨⟨w, mem, .refl⟩, fun u inPath => ?_⟩
      obtain ⟨part, inside, reaches⟩ := leads u inPath
      exact ⟨part, inside, reaches.tail mem⟩

/-- The containers of the heap that can be noted. -/
def notable (h : Heap) : Finset Container :=
  ((List.range h.lists.size).map (Container.list ⟨·⟩) ++
    (List.range h.dicts.size).map (Container.dict ⟨·⟩)).toFinset

theorem card_notable_le (h : Heap) : h.notable.card ≤ h.lists.size + h.dicts.size :=
  (List.toFinset_card_le _).trans (by simp)

theorem mem_notable (mem : w ∈ h.parts c.value) : c ∈ h.notable := by
  rw [notable, List.mem_toFinset, List.mem_append, List.mem_map, List.mem_map]
  cases c with
  | list r => exact .inl ⟨r.index, List.mem_range.2 (lt_size_of_getD (Array.mem_toList_iff.1 mem)), rfl⟩
  | dict r =>
    obtain ⟨e, inside, -⟩ := List.mem_flatMap.1 mem
    exact .inr ⟨r.index, List.mem_range.2 (lt_size_of_getD (Array.mem_toList_iff.1 inside)), rfl⟩

/-- A bound on how many containers stand in one another from a value down to the first ellipses: so
many may still be noted, with so many tuples between two of them. -/
def reach (h : Heap) (around : List Container) (v : Value) : Nat :=
  (h.notable \ around.toFinset).card * (h.tuples.size + 1) + min v.nesting h.tuples.size

theorem reach_lt_unfoldedDepth : h.reach around v < h.unfoldedDepth := by
  have some_noted : (h.notable \ around.toFinset).card ≤ h.lists.size + h.dicts.size :=
    (Finset.card_le_card Finset.sdiff_subset).trans h.card_notable_le
  calc h.reach around v
      ≤ (h.lists.size + h.dicts.size) * (h.tuples.size + 1) + h.tuples.size :=
        Nat.add_le_add (Nat.mul_le_mul_right _ some_noted) (Nat.min_le_right ..)
    _ < h.unfoldedDepth := by rw [unfoldedDepth, Nat.succ_mul]; omega

/-- Below a container that is noted for the first time fewer are left. -/
theorem reach_lt_of_noted (mem : w ∈ h.parts c.value) (fresh : c ∉ around) :
    h.reach (c :: around) w < h.reach around c.value := by
  have fewer : (h.notable \ (c :: around).toFinset).card + 1 ≤
      (h.notable \ around.toFinset).card := by
    rw [List.toFinset_cons, Finset.sdiff_insert]
    exact Finset.card_erase_lt_of_mem
      (Finset.mem_sdiff.2 ⟨mem_notable mem, fun noted => fresh (List.mem_toFinset.1 noted)⟩)
  calc h.reach (c :: around) w
      < ((h.notable \ (c :: around).toFinset).card + 1) * (h.tuples.size + 1) := by
        rw [reach, Nat.succ_mul]; omega
    _ ≤ (h.notable \ around.toFinset).card * (h.tuples.size + 1) := Nat.mul_le_mul_right _ fewer
    _ ≤ h.reach around c.value := Nat.le_add_right ..

theorem reach_lt_of_tuple {r : Ref .tuple} (layered : h.Layered) (mem : w ∈ h.parts (.tuple r)) :
    h.reach around w < h.reach around (.tuple r) := by
  have older := layered.nesting_le (Array.mem_toList_iff.1 mem)
  have inHeap : r.index < h.tuples.size := lt_size_of_getD (Array.mem_toList_iff.1 mem)
  show _ + min w.nesting _ < _ + min (r.index + 1) _
  omega

/-- No class binds the name. -/
def NoMethod (h : Heap) (name : String) : Prop := ∀ c ∈ h.classes.toList, c.attrs.get? name = none

theorem NoMethod.classAttr? {name : String} (lacking : h.NoMethod name) (r : Ref .cls) :
    h.classAttr? r name = none := by
  have unbound (r : Ref .cls) : (h.cls r).attrs.get? name = none := by
    rw [cls]
    cases found : h.classes[r.index]? with
    | none => rfl
    | some c => exact lacking c (Array.mem_toList_iff.2 (Array.mem_of_getElem? found))
  have inBases (steps : Nat) (r : Ref .cls) : h.findInClass? name steps r = none := by
    induction steps generalizing r with
    | zero => rfl
    | succ steps ih =>
      simp only [findInClass?, unbound]
      exact List.findSome?_eq_none_iff.2 fun base _ => ih base
  exact inBases _ r

end Heap

namespace Eval

variable {caller : Caller} {m : Machine} {path : List Value} {around : List Container} {v : Value}
  {depth : Nat}

theorem Container.value_injective : Function.Injective Container.value := by
  rintro (r | r) (s | s) same <;> cases same <;> rfl

/-- The containers noted while what is in the value is written. -/
def noting (around : List Container) : Value → List Container
  | .list r => .list r :: around
  | .dict r => .dict r :: around
  | _ => around

theorem reprWithin_noted {c : Container} (noted : c ∈ around) :
    ∃ mark, Heap.ellipsis? c.value = some mark ∧
      reprWithin caller (depth + 1) around c.value m = .ok mark m := by
  have contained := List.contains_iff_mem.2 noted
  cases c with
  | list r =>
    refine ⟨_, rfl, ?_⟩
    simp only [reprWithin, Container.value, contained]
    rfl
  | dict r =>
    refine ⟨_, rfl, ?_⟩
    simp only [reprWithin, Container.value, contained]
    rfl

/-- A value that is not noted is written as the texts of what is in it. -/
theorem reprWithin_framed {inside : Value → String} (plain : m.heap.NoMethod "__repr__")
    (fresh : ∀ c : Container, c.value = v → around.contains c = false)
    (each : ∀ w ∈ m.heap.parts v,
      reprWithin caller depth (noting around v) w m = .ok (inside w) m) :
    reprWithin caller (depth + 1) around v m = .ok (m.heap.framed inside v) m := by
  cases v with
  | list r =>
    rw [reprWithin]
    rw [fresh (.list r) rfl, if_neg Bool.false_ne_true, run_ask]
    exact run_bind (run_mapM (List.forall₂_same.2 each)) _
  | tuple r => exact run_bind (run_mapM (List.forall₂_same.2 each)) _
  | dict r =>
    have entries := run_mapM (List.forall₂_same.2 fun e mem =>
      run_entry (each e.1 (Heap.key_mem_parts mem)) (each e.2 (Heap.value_mem_parts mem)))
    rw [reprWithin]
    rw [fresh (.dict r) rfl, if_neg Bool.false_ne_true, run_ask]
    exact run_bind entries _
  | «instance» r =>
    rw [reprWithin]
    rw [run_ask, plain.classAttr?]
    rfl
  | _ => rfl

/-- What is in a value that is not noted is written with less below it, and the noted ones are its
ancestors. -/
theorem noting_spec {w : Value} (layered : m.heap.Layered)
    (fresh : ∀ c : Container, c.value = v → c ∉ around)
    (noted : ∀ c : Container, c ∈ around ↔ c.value ∈ path) (mem : w ∈ m.heap.parts v) :
    m.heap.reach (noting around v) w < m.heap.reach around v ∧
      ∀ c : Container, c ∈ noting around v ↔ c.value ∈ v :: path := by
  have ancestors (c' : Container) (c : Container) :
      c ∈ c' :: around ↔ c.value ∈ c'.value :: path := by
    rw [List.mem_cons, List.mem_cons, noted c, Container.value_injective.eq_iff]
  cases v with
  | list r => exact ⟨Heap.reach_lt_of_noted mem (fresh (.list r) rfl), ancestors (.list r)⟩
  | dict r => exact ⟨Heap.reach_lt_of_noted mem (fresh (.dict r) rfl), ancestors (.dict r)⟩
  | tuple r =>
    refine ⟨Heap.reach_lt_of_tuple layered mem, fun c => ?_⟩
    show c ∈ around ↔ _
    rw [noted c, List.mem_cons]
    cases c <;> simp [Container.value]
  | _ => cases mem

/-- A value is written at a depth beyond its reach, with an ellipsis where it is one of its own
ancestors. -/
theorem exists_shown (layered : m.heap.Layered) (plain : m.heap.NoMethod "__repr__")
    (deep : m.heap.reach around v < depth) (noted : ∀ c : Container, c ∈ around ↔ c.value ∈ path) :
    ∃ text, reprWithin caller depth around v m = .ok text m ∧ m.heap.Shown path v text := by
  induction depth generalizing around path v with
  | zero => exact absurd deep (Nat.not_lt_zero _)
  | succ depth ih =>
    by_cases again : ∃ c ∈ around, c.value = v
    · obtain ⟨c, mem, rfl⟩ := again
      obtain ⟨mark, marked, run⟩ := reprWithin_noted mem
      exact ⟨mark, run, .again marked ((noted c).1 mem)⟩
    have fresh : ∀ c : Container, c.value = v → c ∉ around :=
      fun c same mem => again ⟨c, mem, same⟩
    have each : ∀ w ∈ m.heap.parts v, ∃ text,
        reprWithin caller depth (noting around v) w m = .ok text m ∧
          m.heap.Shown (v :: path) w text := by
      intro w mem
      obtain ⟨less, noted'⟩ := noting_spec layered fresh noted mem
      exact ih (Nat.lt_of_lt_of_le less (Nat.le_of_lt_succ deep)) noted'
    -- The text of a part depends on the path alone, so it is a function of the part.
    choose! inside runs shown using each
    refine ⟨_, reprWithin_framed plain (fun c same => ?_) runs, .whole ?_ shown⟩
    · simpa using fresh c same
    · cases v with
      | list r => exact .inr fun within => fresh (.list r) rfl ((noted (.list r)).2 within)
      | dict r => exact .inr fun within => fresh (.dict r) rfl ((noted (.dict r)).2 within)
      | _ => exact .inl rfl

/-- On every heap whose classes have no method for it a value is written to the end, with an ellipsis
for a list or a dict exactly where that is inside itself. Whatever is being written around it stays
noted. Without cycles the text is the plain one, however often a container is met. -/
theorem repr_marks_exactly_the_cycles (caller : Caller) (m : Machine) (v : Value)
    (layered : m.heap.Layered) (plain : m.heap.NoMethod "__repr__") :
    ∃ text, repr caller v m = .ok text m ∧
      (∀ text', m.heap.Shown [] v text' ↔ text' = text) ∧
      (∀ around depth, m.heap.unfoldedDepth ≤ depth → ∃ inner,
        (Writing.value caller depth v).run.run around m = .ok (.ok inner, around) m ∧
          m.heap.Shown (around.map Container.value) v inner) ∧
      (m.heap.Acyclic v → ∀ depth, m.heap.containers < depth → m.heap.plainText depth v = text) := by
  have writes (around : List Container) {depth : Nat} (deep : m.heap.unfoldedDepth ≤ depth) :
      ∃ text, reprWithin caller depth around v m = .ok text m ∧
        m.heap.Shown (around.map Container.value) v text :=
    exists_shown layered plain (Nat.lt_of_lt_of_le Heap.reach_lt_unfoldedDepth deep)
      fun _ => (List.mem_map_of_injective Container.value_injective).symm
  obtain ⟨text, run, shown⟩ := writes [] (Nat.le_add_left _ caller.depth)
  refine ⟨text, ?_, ?_, ?_, ?_⟩
  · rw [repr_eq, run_ask]
    exact run
  · exact fun text' => ⟨fun shown' => shown'.unique shown, fun same => same ▸ shown⟩
  · intro around depth deep
    obtain ⟨inner, run, shown⟩ := writes around deep
    refine ⟨inner, ?_, shown⟩
    rw [Writing.keeps_value, run_bind (run_attempt run)]
    rfl
  · intro acyclic depth deep
    exact shown.eq_plainText acyclic (List.forall_mem_nil _) (acyclic.shallow.mono deep)

theorem list_within_itself_is_marked :
    let caller : Caller := ⟨fun _ _ => pure .none, 0⟩
    let m : Machine := { Machine.fresh with heap := { Heap.empty with
      lists := #[#[.list ⟨1⟩, .tuple ⟨0⟩, .list ⟨0⟩, .dict ⟨0⟩], #[.none]]
      tuples := #[#[.list ⟨1⟩]]
      dicts := #[#[(.none, .list ⟨0⟩), (.bool true, .dict ⟨0⟩)]] } }
    let text := "[[None], ([None],), [...], \x7bNone: [...], True: \x7b...\x7d\x7d]"
    m.heap.Layered ∧ m.heap.NoMethod "__repr__" ∧ repr caller (.list ⟨0⟩) m = .ok text m ∧
      ∀ text', m.heap.Shown [] (.list ⟨0⟩) text' ↔ text' = text := by
  intro caller m text
  have layered : m.heap.Layered := by
    rintro ⟨_ | i⟩ s mem
    · cases Array.mem_singleton.1 mem
    · cases Array.not_mem_empty _ mem
  have plain : m.heap.NoMethod "__repr__" := List.forall_mem_nil _
  obtain ⟨text', run, shown, -⟩ := repr_marks_exactly_the_cycles caller m (.list ⟨0⟩) layered plain
  have evaluated : repr caller (.list ⟨0⟩) m = .ok text m := rfl
  cases run.symm.trans evaluated
  exact ⟨layered, plain, evaluated, shown⟩

end Eval

end Console
