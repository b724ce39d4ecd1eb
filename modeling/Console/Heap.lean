import Console.Tree
import Console.Value

/-!
# The heap

Objects by kind, in the order of their creation. A reference never dangles as long as it came from
the heap it is used with; elsewhere it finds an empty object.
-/

namespace Console

/-- Names with their values, each name once. -/
abbrev Bindings := List (String × Value)

namespace Bindings

def get? : Bindings → String → Option Value
  | [], _ => none
  | (n, w) :: rest, name => if n = name then some w else get? rest name

/-- Binds a name, in the place it had if it was bound. -/
def set : Bindings → String → Value → Bindings
  | [], name, v => [(name, v)]
  | (n, w) :: rest, name, v => if n = name then (name, v) :: rest else (n, w) :: set rest name v

def erase : Bindings → String → Bindings
  | [], _ => []
  | (n, w) :: rest, name => if n = name then rest else (n, w) :: erase rest name

def names (b : Bindings) : List String := b.map (·.1)

theorem get?_set (b : Bindings) (name other : String) (v : Value) :
    (b.set name v).get? other = if other = name then some v else b.get? other := by
  induction b with
  | nil => simp [set, get?, eq_comm]
  | cons e rest ih => grind [set, get?]

theorem isSome_get? (b : Bindings) (name : String) : (b.get? name).isSome ↔ name ∈ b.names := by
  induction b with
  | nil => simp [get?, names]
  | cons e rest ih => grind [get?, names]

theorem get?_of_mem {b : Bindings} (once : b.names.Nodup) {e : String × Value} (mem : e ∈ b) :
    b.get? e.1 = some e.2 := by
  induction b with
  | nil => cases mem
  | cons first rest ih =>
    obtain ⟨fresh, once⟩ := List.nodup_cons.1 once
    rcases List.mem_cons.1 mem with rfl | mem
    · exact if_pos rfl
    · have other : first.1 ≠ e.1 := fun same => fresh (List.mem_map.2 ⟨e, mem, same.symm⟩)
      exact (if_neg other).trans (ih once mem)

end Bindings

/-- A variable scope; scopes of functions hang below the scope they were defined in. -/
structure Scope where
  vars : Bindings
  parent : Option (Ref .scope)
  deriving Inhabited

structure FunctionObject where
  name : String
  parameters : List Parameter
  body : List Statement
  /-- The default of each parameter, evaluated when the function was defined. -/
  defaults : List (Option Value)
  /-- The scope around the definition, none at top level. -/
  closure : Option (Ref .scope)
  paired : defaults.length = parameters.length

instance : Inhabited FunctionObject := ⟨⟨"", [], [], [], none, rfl⟩⟩

structure ClassObject where
  name : String
  bases : List (Ref .cls)
  attrs : Bindings
  deriving Inhabited

structure InstanceObject where
  cls : Ref .cls
  attrs : Bindings
  deriving Inhabited

structure ExceptionObject where
  kind : ExceptionKind
  message : String

instance : Inhabited ExceptionObject := ⟨⟨.exception, ""⟩⟩

structure Heap where
  lists : Array (Array Value)
  tuples : Array (Array Value)
  /-- Entries in the order in which their keys came. -/
  dicts : Array (Array (Value × Value))
  functions : Array FunctionObject
  classes : Array ClassObject
  instances : Array InstanceObject
  exceptions : Array ExceptionObject
  scopes : Array Scope

namespace Heap

def empty : Heap := ⟨#[], #[], #[], #[], #[], #[], #[], #[]⟩

def list (h : Heap) (r : Ref .list) : Array Value := h.lists[r.index]?.getD #[]

def tuple (h : Heap) (r : Ref .tuple) : Array Value := h.tuples[r.index]?.getD #[]

def dict (h : Heap) (r : Ref .dict) : Array (Value × Value) := h.dicts[r.index]?.getD #[]

def function (h : Heap) (r : Ref .func) : FunctionObject := h.functions[r.index]?.getD default

def cls (h : Heap) (r : Ref .cls) : ClassObject := h.classes[r.index]?.getD default

def inst (h : Heap) (r : Ref .inst) : InstanceObject := h.instances[r.index]?.getD default

def exception (h : Heap) (r : Ref .exc) : ExceptionObject := h.exceptions[r.index]?.getD default

def scope (h : Heap) (r : Ref .scope) : Scope := h.scopes[r.index]?.getD default

/-- The number of lists, tuples and dicts: no path through containers that never meets one twice is
longer. -/
def containers (h : Heap) : Nat := h.lists.size + h.tuples.size + h.dicts.size

/-- No path down from a value is longer that meets no list and no dict twice, and no tuple twice between
two of those. -/
def unfoldedDepth (h : Heap) : Nat := (h.lists.size + h.dicts.size + 1) * (h.tuples.size + 1)

/-! ## Looking names up

A class comes after its bases and a scope after the one it hangs below, so a search that starts at
an object takes no more steps than its index. -/

/-- The first binding of a name in a class or, depth first, in its bases. -/
def findInClass? (h : Heap) (name : String) : (steps : Nat) → Ref .cls → Option Value
  | 0, _ => none
  | steps + 1, r =>
    let c := h.cls r
    match c.attrs.get? name with
    | some v => some v
    | none => c.bases.findSome? (findInClass? h name steps)

def classAttr? (h : Heap) (r : Ref .cls) (name : String) : Option Value :=
  h.findInClass? name (r.index + 1) r

/-- Whether a class is the target or has it among its bases, at any depth. -/
def reachesClass (h : Heap) (target : Ref .cls) : (steps : Nat) → Ref .cls → Bool
  | 0, _ => false
  | steps + 1, r => r = target || (h.cls r).bases.any (reachesClass h target steps)

def derivesFrom (h : Heap) (r target : Ref .cls) : Bool := h.reachesClass target (r.index + 1) r

/-- The names bound in a class and in its bases. -/
def collectNames (h : Heap) : (steps : Nat) → Ref .cls → List String
  | 0, _ => []
  | steps + 1, r =>
    let c := h.cls r
    c.attrs.names ++ c.bases.flatMap (collectNames h steps)

def classNames (h : Heap) (r : Ref .cls) : List String := h.collectNames (r.index + 1) r

/-- The binding of a name in a scope or the nearest one above it. -/
def findInScope? (h : Heap) (name : String) : (steps : Nat) → Ref .scope → Option Value
  | 0, _ => none
  | steps + 1, r =>
    let s := h.scope r
    match s.vars.get? name with
    | some v => some v
    | none => s.parent.bind (findInScope? h name steps)

def boundIn? (h : Heap) (r : Ref .scope) (name : String) : Option Value :=
  h.findInScope? name (r.index + 1) r

end Heap

end Console
