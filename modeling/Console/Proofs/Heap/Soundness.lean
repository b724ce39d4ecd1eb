import Console.Proofs.Heap.Maps

/-!
# Sound heaps

In a sound heap no reference dangles, what a tuple, a class or a scope is built on was there before
it, and the keys of every dict differ. New objects and changes of old ones keep a heap sound.
-/

namespace Console

namespace Heap

variable {h h' : Heap} {kind : Kind}

/-- The objects of its own kind that an object is built on come before the one in the given place. -/
def BuiltBefore : (kind : Kind) → Nat → kind.Content → Prop
  | .tuple, place, items => ∀ s, .tuple s ∈ items → s.index < place
  | .cls, place, c => ∀ base ∈ c.bases, base.index < place
  | .scope, place, s => ∀ parent ∈ s.parent, parent.index < place
  | .list, _, _ | .dict, _, _ | .func, _, _ | .inst, _, _ | .exc, _, _ => True

/-- If the object is a dict, its keys differ. -/
def Mapped (h : Heap) : (kind : Kind) → kind.Content → Prop
  | .dict, entries => h.IsMap entries.toList
  | .list, _ | .tuple, _ | .func, _ | .cls, _ | .inst, _ | .exc, _ | .scope, _ => True

structure Proper (h : Heap) (r : Ref kind) (content : kind.Content) : Prop where
  held : h.Holds content
  before : BuiltBefore kind r.index content
  mapped : h.Mapped kind content

def Sound (h : Heap) : Prop :=
  ∀ (kind : Kind) (r : Ref kind) (content : kind.Content),
    (h.objects kind)[r.index]? = some content → h.Proper r content

theorem Mapped.aged {content : kind.Content} (mapped : h.Mapped kind content) (layered : h.Layered)
    (ages : h.Ages h') : h'.Mapped kind content := by
  cases kind with
  | dict => exact DistinctKeys.aged mapped layered ages
  | list | tuple | func | cls | inst | exc | scope => trivial

theorem Proper.aged {r : Ref kind} {content : kind.Content} (proper : h.Proper r content)
    (layered : h.Layered) (ages : h.Ages h') : h'.Proper r content :=
  ⟨proper.held.aged ages, proper.before, proper.mapped.aged layered ages⟩

/-- What a heap holds is built on what is in it. -/
theorem Holds.before {content : kind.Content} (held : h.Holds content) :
    BuiltBefore kind (h.size kind) content := by
  cases kind with
  | tuple => exact fun s mem => held (.tuple s) mem
  | cls => exact held.1
  | scope => exact held.2
  | list | dict | func | inst | exc => trivial

section

variable {b : Bindings}

theorem Holds.get? (held : h.Holds b) (name : String) : h.Holds (b.get? name) := by
  induction b with
  | nil => exact nofun
  | cons e rest ih =>
    obtain ⟨first, others⟩ := List.forall_mem_cons.1 held
    rw [Bindings.get?]
    split
    · intro v found
      cases found
      exact first.2
    · exact ih others

theorem Holds.set (held : h.Holds b) (name : String) {v : Value} (value : h.Holds v) :
    h.Holds (b.set name v) := by
  induction b with
  | nil => exact List.forall_mem_singleton.2 ⟨trivial, value⟩
  | cons e rest ih =>
    obtain ⟨first, others⟩ := List.forall_mem_cons.1 held
    rw [Bindings.set]
    split
    · exact List.forall_mem_cons.2 ⟨⟨trivial, value⟩, others⟩
    · exact List.forall_mem_cons.2 ⟨first, ih others⟩

theorem Holds.erase (held : h.Holds b) (name : String) : h.Holds (b.erase name) := by
  induction b with
  | nil => exact held
  | cons e rest ih =>
    obtain ⟨first, others⟩ := List.forall_mem_cons.1 held
    rw [Bindings.erase]
    split
    · exact others
    · exact List.forall_mem_cons.2 ⟨first, ih others⟩

end

namespace Sound

theorem empty : empty.Sound := by
  intro kind r content found
  cases kind <;> cases found

variable (sound : h.Sound)
include sound

theorem layered : h.Layered := by
  intro r s mem
  unfold Heap.tuple at mem
  cases found : h.tuples[r.index]? with
  | none =>
    rw [found] at mem
    cases Array.not_mem_empty _ mem
  | some items =>
    rw [found] at mem
    exact (sound .tuple r items found).before s mem

theorem holds_getD (r : Ref kind) {missing : kind.Content} (held : h.Holds missing) :
    h.Holds ((h.objects kind)[r.index]?.getD missing) := by
  cases found : (h.objects kind)[r.index]? with
  | none => exact held
  | some content => exact (sound kind r content found).held

theorem holds_list (r : Ref .list) : h.Holds (h.list r) :=
  sound.holds_getD r fun _ mem => absurd mem (Array.not_mem_empty _)

theorem holds_tuple (r : Ref .tuple) : h.Holds (h.tuple r) :=
  sound.holds_getD r fun _ mem => absurd mem (Array.not_mem_empty _)

theorem holds_dict (r : Ref .dict) : h.Holds (h.dict r) :=
  sound.holds_getD r fun _ mem => absurd mem (Array.not_mem_empty _)

theorem holds_function (r : Ref .func) : h.Holds (h.function r) :=
  sound.holds_getD r ⟨List.forall_mem_nil _, nofun⟩

theorem holds_cls (r : Ref .cls) : h.Holds (h.cls r) :=
  sound.holds_getD r ⟨List.forall_mem_nil _, List.forall_mem_nil _⟩

theorem holds_scope (r : Ref .scope) : h.Holds (h.scope r) :=
  sound.holds_getD r ⟨List.forall_mem_nil _, nofun⟩

theorem holds_inst {r : Ref .inst} (held : h.Holds r) : h.Holds (h.inst r) := by
  have found : h.instances[r.index]? = some h.instances[r.index] := Array.getElem?_eq_getElem held
  unfold Heap.inst
  rw [found]
  exact (sound .inst r _ found).held

theorem isMap (r : Ref .dict) : h.IsMap (h.dict r).toList := by
  unfold Heap.dict
  cases found : h.dicts[r.index]? with
  | none => exact .nil
  | some entries => exact (sound .dict r entries found).mapped

theorem holdsMap (r : Ref .dict) : h.HoldsMap (h.dict r) := ⟨sound.holds_dict r, sound.isMap r⟩

/-- The binding found in a class or a base of it. -/
theorem holds_findInClass? (name : String) (steps : Nat) (r : Ref .cls) :
    h.Holds (h.findInClass? name steps r) := by
  induction steps generalizing r with
  | zero => exact nofun
  | succ steps ih =>
    have own := (sound.holds_cls r).2.get? name
    rw [findInClass?]
    cases bound : (h.cls r).attrs.get? name with
    | some v =>
      rw [bound] at own
      exact own
    | none =>
      intro v found
      obtain ⟨base, -, there⟩ := List.exists_of_findSome?_eq_some found
      exact ih base v there

theorem holds_classAttr? (r : Ref .cls) (name : String) : h.Holds (h.classAttr? r name) :=
  sound.holds_findInClass? name _ r

/-- The binding found in a scope or above it. -/
theorem holds_findInScope? (name : String) (steps : Nat) (r : Ref .scope) :
    h.Holds (h.findInScope? name steps r) := by
  induction steps generalizing r with
  | zero => exact nofun
  | succ steps ih =>
    have own := (sound.holds_scope r).1.get? name
    rw [findInScope?]
    cases bound : (h.scope r).vars.get? name with
    | some v =>
      rw [bound] at own
      exact own
    | none =>
      intro v found
      obtain ⟨parent, -, there⟩ := Option.bind_eq_some_iff.1 found
      exact ih parent v there

end Sound

/-- The heap with one more object. -/
def add (h : Heap) (content : kind.Content) : Heap :=
  h.withObjects kind ((h.objects kind).push content)

/-- The heap with one object changed. -/
def change (h : Heap) (r : Ref kind) (f : kind.Content → kind.Content) : Heap :=
  h.withObjects kind ((h.objects kind).modify r.index f)

theorem ages_add (content : kind.Content) : h.Ages (h.add content) := by
  refine Ages.withObjects ?_ fun _ i inside => ?_
  · rw [Array.size_push]
    exact Nat.le_succ _
  · rw [Array.getElem?_push_lt inside]
    exact (Array.getElem?_eq_getElem inside).symm

theorem holds_new (content : kind.Content) : (h.add content).Holds (⟨h.size kind⟩ : Ref kind) := by
  change h.size kind < ((h.add content).objects kind).size
  rw [add, objects_withObjects, Array.size_push]
  exact Nat.lt_succ_self _

theorem ages_change (mutable : kind ≠ .tuple) (r : Ref kind) (f : kind.Content → kind.Content) :
    h.Ages (h.change r f) := by
  refine Ages.withObjects ?_ fun tuple => absurd tuple mutable
  rw [Array.size_modify]
  exact Nat.le_refl _

namespace Sound

variable (sound : h.Sound)
include sound

theorem withObjects {all : Array kind.Content} (ages : h.Ages (h.withObjects kind all))
    (each : ∀ (r : Ref kind) content, all[r.index]? = some content →
      (h.withObjects kind all).Proper r content) : (h.withObjects kind all).Sound := by
  intro other r content found
  by_cases same : other = kind
  · subst same
    rw [objects_withObjects] at found
    exact each r content found
  · rw [objects_withObjects_of_ne same] at found
    exact (sound other r content found).aged sound.layered ages

theorem add {content : kind.Content} (held : h.Holds content) (mapped : h.Mapped kind content) :
    (h.add content).Sound := by
  have ages := h.ages_add content
  refine sound.withObjects ages fun r c found => Proper.aged ?_ sound.layered ages
  rw [Array.getElem?_push] at found
  split at found
  · next last =>
    cases found
    exact ⟨held, last ▸ held.before, mapped⟩
  · exact sound kind r c found

theorem change (mutable : kind ≠ .tuple) (r : Ref kind) {f : kind.Content → kind.Content}
    (proper : ∀ content, (h.objects kind)[r.index]? = some content → h.Proper r content →
      h.Proper r (f content)) : (h.change r f).Sound := by
  have ages := h.ages_change mutable r f
  refine sound.withObjects ages fun s c found => Proper.aged ?_ sound.layered ages
  rw [Array.getElem?_modify] at found
  split at found
  · next here =>
    obtain ⟨old, there, rfl⟩ := Option.map_eq_some_iff.1 found
    obtain ⟨index⟩ := r
    obtain rfl : index = s.index := here
    exact proper old there (sound kind s old there)
  · exact sound kind s c found

end Sound

end Heap

/-- A machine with a sound heap, which holds what names stand for. -/
structure Machine.Sound (m : Machine) : Prop where
  heap : m.heap.Sound
  globals : m.heap.Holds m.globals
  builtins : m.heap.Holds m.builtins

namespace Machine.Sound

theorem fresh : fresh.Sound := by
  refine ⟨.empty, List.forall_mem_nil _, fun entry mem => ?_⟩
  rcases List.mem_append.1 mem with function | exception
  · obtain ⟨b, -, rfl⟩ := List.mem_map.1 function
    exact ⟨trivial, trivial⟩
  · obtain ⟨kind, -, rfl⟩ := List.mem_map.1 exception
    exact ⟨trivial, trivial⟩

/-- Features, output and depth say nothing about the heap. -/
theorem prepared {m : Machine} (sound : m.Sound) (features : Features) (output : String)
    (depth : Nat) : { m with features, output, depth }.Sound :=
  ⟨sound.heap, sound.globals, sound.builtins⟩

end Machine.Sound

end Console
