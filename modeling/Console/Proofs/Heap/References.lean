import Console.Call
import Mathlib.Tactic.Common

/-!
# References and the objects behind them

A heap ages: objects come behind the others of their kind, none goes away, and no tuple changes. Data
with references is held by a heap if all of them are to objects of it, and then by all that the heap
ages to.
-/

namespace Console

/-- What an object of a kind consists of. -/
abbrev Kind.Content : Kind → Type
  | .list | .tuple => Array Value
  | .dict => Array (Value × Value)
  | .func => FunctionObject
  | .cls => ClassObject
  | .inst => InstanceObject
  | .exc => ExceptionObject
  | .scope => Scope

namespace Heap

variable {h h' h'' : Heap} {kind : Kind}

def objects (h : Heap) : (kind : Kind) → Array kind.Content
  | .list => h.lists
  | .tuple => h.tuples
  | .dict => h.dicts
  | .func => h.functions
  | .cls => h.classes
  | .inst => h.instances
  | .exc => h.exceptions
  | .scope => h.scopes

/-- The heap with other objects of one kind. -/
def withObjects (h : Heap) : (kind : Kind) → Array kind.Content → Heap
  | .list, lists => { h with lists }
  | .tuple, tuples => { h with tuples }
  | .dict, dicts => { h with dicts }
  | .func, functions => { h with functions }
  | .cls, classes => { h with classes }
  | .inst, instances => { h with instances }
  | .exc, exceptions => { h with exceptions }
  | .scope, scopes => { h with scopes }

def size (h : Heap) (kind : Kind) : Nat := (h.objects kind).size

@[simp] theorem objects_withObjects (h : Heap) (kind : Kind) (all : Array kind.Content) :
    (h.withObjects kind all).objects kind = all := by
  cases kind <;> rfl

theorem objects_withObjects_of_ne {other : Kind} (different : other ≠ kind)
    (all : Array kind.Content) : (h.withObjects kind all).objects other = h.objects other := by
  cases kind <;> cases other <;> first | rfl | exact absurd rfl different

/-- No object has gone away, and no tuple has changed. -/
structure Ages (h h' : Heap) : Prop where
  sizes : ∀ kind, h.size kind ≤ h'.size kind
  tuples : ∀ r : Ref .tuple, r.index < h.tuples.size → h'.tuple r = h.tuple r

namespace Ages

theorem refl (h : Heap) : h.Ages h := ⟨fun _ => Nat.le_refl _, fun _ _ => rfl⟩

theorem trans (first : h.Ages h') (second : h'.Ages h'') : h.Ages h'' where
  sizes kind := Nat.le_trans (first.sizes kind) (second.sizes kind)
  tuples r inside :=
    (second.tuples r (Nat.lt_of_lt_of_le inside (first.sizes .tuple))).trans (first.tuples r inside)

/-- Objects of one kind are added or changed; a tuple is not changed. -/
theorem withObjects {all : Array kind.Content} (more : h.size kind ≤ all.size)
    (tuples : kind = .tuple → ∀ i < h.size kind, all[i]? = (h.objects kind)[i]?) :
    h.Ages (h.withObjects kind all) where
  sizes other := by
    by_cases same : other = kind
    · subst same
      simpa [size] using more
    · simp [size, objects_withObjects_of_ne same]
  tuples r inside := by
    cases kind with
    | tuple => exact congrArg (·.getD #[]) (tuples rfl r.index inside)
    | list | dict | func | cls | inst | exc | scope => rfl

end Ages

end Heap

/-- Data that may have references in it. -/
class Refers (α : Type) where
  HeldIn : Heap → α → Prop
  aged : ∀ {h h' : Heap} {a : α}, h.Ages h' → HeldIn h a → HeldIn h' a

namespace Heap

/-- All references are to objects of the heap. -/
def Holds {α : Type} [Refers α] (h : Heap) (a : α) : Prop := Refers.HeldIn h a

theorem Holds.aged {α : Type} [Refers α] {a : α} {h h' : Heap} (held : h.Holds a)
    (ages : h.Ages h') : h'.Holds a := Refers.aged ages held

end Heap

namespace Refers

variable {α β ε : Type} [Refers α] [Refers β]

/-- Data without references. -/
abbrev nothing (α : Type) : Refers α := ⟨fun _ _ => True, fun _ held => held⟩

instance : Refers Unit := nothing _
instance : Refers Bool := nothing _
instance : Refers Nat := nothing _
instance : Refers Int64 := nothing _
instance : Refers Char := nothing _
instance : Refers String := nothing _
instance : Refers Ordering := nothing _
instance : Refers ExceptionObject := nothing _

instance (kind : Kind) : Refers (Ref kind) where
  HeldIn h r := r.index < h.size kind
  aged ages held := Nat.lt_of_lt_of_le held (ages.sizes kind)

instance : Refers (α × β) where
  HeldIn h p := h.Holds p.1 ∧ h.Holds p.2
  aged ages held := ⟨held.1.aged ages, held.2.aged ages⟩

instance : Refers (List α) where
  HeldIn h as := ∀ a ∈ as, h.Holds a
  aged ages held a mem := (held a mem).aged ages

instance : Refers (Array α) where
  HeldIn h as := ∀ a ∈ as, h.Holds a
  aged ages held a mem := (held a mem).aged ages

instance : Refers (Option α) where
  HeldIn h o := ∀ a ∈ o, h.Holds a
  aged ages held a mem := (held a mem).aged ages

/-- A failure has no references. -/
instance : Refers (Except ε α) where
  HeldIn h r := ∀ a, r = .ok a → h.Holds a
  aged ages held a found := (held a found).aged ages

instance : Refers Value where
  HeldIn h
    | .list r | .listMethod r _ => h.Holds r
    | .tuple r => h.Holds r
    | .dict r | .dictMethod r _ => h.Holds r
    | .function r => h.Holds r
    | .cls r => h.Holds r
    | .instance r => h.Holds r
    | .boundMethod r f => h.Holds r ∧ h.Holds f
    | .exception r => h.Holds r
    | .none | .bool _ | .int _ | .float _ | .str _ | .builtin _ | .strMethod _ _
    | .exceptionType _ => True
  aged {h h' v} ages held := by
    cases v with
    | boundMethod r f => exact ⟨held.1.aged ages, held.2.aged ages⟩
    | none | bool _ | int _ | float _ | str _ | builtin _ | strMethod _ _ | exceptionType _ =>
      trivial
    | list r | listMethod r _ | tuple r | dict r | dictMethod r _ | function r | cls r
    | «instance» r | exception r => exact Heap.Holds.aged (a := r) held ages

instance : Refers FunctionObject where
  HeldIn h f := h.Holds f.defaults ∧ h.Holds f.closure
  aged ages held := ⟨held.1.aged ages, held.2.aged ages⟩

instance : Refers ClassObject where
  HeldIn h c := h.Holds c.bases ∧ h.Holds c.attrs
  aged ages held := ⟨held.1.aged ages, held.2.aged ages⟩

instance : Refers InstanceObject where
  HeldIn h i := h.Holds i.cls ∧ h.Holds i.attrs
  aged ages held := ⟨held.1.aged ages, held.2.aged ages⟩

instance : Refers Scope where
  HeldIn h s := h.Holds s.vars ∧ h.Holds s.parent
  aged ages held := ⟨held.1.aged ages, held.2.aged ages⟩

instance : (kind : Kind) → Refers kind.Content
  | .list | .tuple => inferInstanceAs (Refers (Array Value))
  | .dict => inferInstanceAs (Refers (Array (Value × Value)))
  | .func => inferInstanceAs (Refers FunctionObject)
  | .cls => inferInstanceAs (Refers ClassObject)
  | .inst => inferInstanceAs (Refers InstanceObject)
  | .exc => inferInstanceAs (Refers ExceptionObject)
  | .scope => inferInstanceAs (Refers Scope)

instance : Refers Arguments where
  HeldIn h args := h.Holds args.positional ∧ h.Holds args.keywords
  aged ages held := ⟨held.1.aged ages, held.2.aged ages⟩

instance : Refers Call.Slot where
  HeldIn h slot := h.Holds slot.value
  aged ages held := held.aged ages

instance : Refers Flow where
  HeldIn h
    | .return v => h.Holds v
    | _ => True
  aged {h h' flow} ages held := by
    cases flow with
    | «return» v => exact Heap.Holds.aged (a := v) held ages
    | normal | «break» | «continue» => trivial

instance : Refers Frame where
  HeldIn h
    | .module _ => True
    | .function scope _ => h.Holds scope
    | .classBody scope around => h.Holds scope ∧ h.Holds around
  aged {h h' frame} ages held := by
    cases frame with
    | module echo => trivial
    | function scope globals => exact Heap.Holds.aged (a := scope) held ages
    | classBody scope around => exact ⟨held.1.aged ages, held.2.aged ages⟩

instance (n : Nat) : Refers (Fin n) := nothing _

end Refers

namespace Heap

variable {α β ε : Type} [Refers α] [Refers β] {h : Heap} {a : α} {b : β} {as : List α}

@[simp] theorem holds_nil : h.Holds ([] : List α) := List.forall_mem_nil _

@[simp] theorem holds_cons : h.Holds (a :: as) ↔ h.Holds a ∧ h.Holds as := List.forall_mem_cons

@[simp] theorem holds_none : h.Holds (none : Option α) := nofun

@[simp] theorem holds_some : h.Holds (some a) ↔ h.Holds a :=
  ⟨fun held => held a rfl, fun held _ same => Option.some.inj same ▸ held⟩

@[simp] theorem holds_pair : h.Holds (a, b) ↔ h.Holds a ∧ h.Holds b := Iff.rfl

@[simp] theorem holds_ok : h.Holds (.ok a : Except ε α) ↔ h.Holds a :=
  ⟨fun held => held a rfl, fun held _ same => Except.ok.inj same ▸ held⟩

@[simp] theorem holds_error (e : ε) : h.Holds (.error e : Except ε α) := nofun

omit [Refers α] in
theorem Holds.exceptMap {f : α → β} (held : ∀ a, h.Holds (f a)) (r : Except ε α) :
    h.Holds (f <$> r) := by
  cases r with
  | error e => exact holds_error e
  | ok a => exact holds_ok.2 (held a)

theorem Holds.exceptBind {r : Except ε α} {f : α → Except ε β} (held : h.Holds r)
    (next : ∀ a, h.Holds a → h.Holds (f a)) : h.Holds (r >>= f) := by
  cases r with
  | error e => exact holds_error e
  | ok a => exact next a (holds_ok.1 held)

end Heap

namespace Heap.Holds

variable {α : Type} [Refers α] {h : Heap} {a : α} {as bs : Array α}

theorem append (held : h.Holds as) (held' : h.Holds bs) : h.Holds (as ++ bs) := fun b mem =>
  (Array.mem_append.1 mem).elim (held b) (held' b)

theorem push (held : h.Holds as) (new : h.Holds a) : h.Holds (as.push a) := fun b mem =>
  (Array.mem_push.1 mem).elim (held b) fun last => last ▸ new

theorem setIfInBounds (held : h.Holds as) (i : Nat) (new : h.Holds a) :
    h.Holds (as.setIfInBounds i a) := fun b mem =>
  (Array.mem_or_eq_of_mem_setIfInBounds mem).elim (held b) fun here => here ▸ new

theorem insertIdxIfInBounds (held : h.Holds as) (i : Nat) (new : h.Holds a) :
    h.Holds (as.insertIdxIfInBounds i a) := by
  unfold Array.insertIdxIfInBounds
  split
  · exact fun b mem => (Array.mem_insertIdx.1 mem).elim (fun here => here ▸ new) (held b)
  · exact held

theorem eraseIdxIfInBounds (held : h.Holds as) (i : Nat) : h.Holds (as.eraseIdxIfInBounds i) := by
  intro b mem
  rw [← Array.mem_toList_iff, Array.toList_eraseIdxIfInBounds] at mem
  exact held b (Array.mem_toList_iff.1 (List.mem_of_mem_eraseIdx mem))

theorem reverse (held : h.Holds as) : h.Holds as.reverse := fun b mem =>
  held b (Array.mem_reverse.1 mem)

theorem toList (held : h.Holds as) : h.Holds as.toList := fun b mem =>
  held b (Array.mem_toList_iff.1 mem)

theorem toArray {as : List α} (held : h.Holds as) : h.Holds as.toArray := fun b mem =>
  held b (List.mem_toArray.1 mem)

theorem getD {o : Option α} (held : h.Holds o) (missing : h.Holds a) : h.Holds (o.getD a) := by
  cases o with
  | none => exact missing
  | some b => exact held b rfl

end Heap.Holds

end Console
