/-!
# Features

Language features that a program switches on with a future import. A set of features holds one bit
for each.
-/

namespace Console

inductive Feature
  | division
  | absoluteImport
  | printFunction
  | unicodeLiterals
  | withStatement
  | generators
  | nestedScopes
  deriving DecidableEq, Repr

namespace Feature

def all : List Feature :=
  [division, absoluteImport, printFunction, unicodeLiterals, withStatement, generators, nestedScopes]

def name : Feature → String
  | division => "division"
  | absoluteImport => "absolute_import"
  | printFunction => "print_function"
  | unicodeLiterals => "unicode_literals"
  | withStatement => "with_statement"
  | generators => "generators"
  | nestedScopes => "nested_scopes"

def ofName? (word : String) : Option Feature := all.find? fun f => f.name = word

def index : Feature → Nat
  | division => 0
  | absoluteImport => 1
  | printFunction => 2
  | unicodeLiterals => 3
  | withStatement => 4
  | generators => 5
  | nestedScopes => 6

end Feature

/-- A set of features. -/
structure Features where
  bits : BitVec 7
  deriving DecidableEq, Repr

namespace Features

def none : Features := ⟨0⟩

def has (s : Features) (f : Feature) : Bool := s.bits.getLsbD f.index

def only (f : Feature) : Features := ⟨BitVec.twoPow 7 f.index⟩

def union (s t : Features) : Features := ⟨s.bits ||| t.bits⟩

/-- The features of a set, in the order of `Feature.all`. -/
def toList (s : Features) : List Feature := Feature.all.filter s.has

def ofList (fs : List Feature) : Features := fs.foldl (fun s f => s.union (only f)) none

@[simp] theorem has_union (s t : Features) (f : Feature) :
    (s.union t).has f = (s.has f || t.has f) := by
  simp [has, union]

@[simp] theorem has_none (f : Feature) : none.has f = false := by cases f <;> rfl

@[simp] theorem has_only (f g : Feature) : (only f).has g = decide (f = g) := by
  cases f <;> cases g <;> rfl

end Features

end Console
