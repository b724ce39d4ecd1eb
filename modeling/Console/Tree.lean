/-!
# Programs as trees

Expressions, simple statements and statements. A statement carries the line it starts on.
-/

namespace Console

inductive UnaryOp
  | neg
  | pos
  | not
  deriving DecidableEq, Repr

inductive BinaryOp
  | add
  | sub
  | mul
  | div
  | floorDiv
  | mod
  | pow
  deriving DecidableEq, Repr

def BinaryOp.symbol : BinaryOp → String
  | .add => "+"
  | .sub => "-"
  | .mul => "*"
  | .div => "/"
  | .floorDiv => "//"
  | .mod => "%"
  | .pow => "**"

/-- The connectives that may leave their right side unevaluated. -/
inductive Connective
  | and
  | or
  deriving DecidableEq, Repr

inductive Comparison
  | eq
  | ne
  | lt
  | le
  | gt
  | ge
  | isIn
  | notIn
  | is
  | isNot
  deriving DecidableEq, Repr

inductive Expr
  | name (id : String)
  | int (value : Int64)
  | float (value : Float)
  | str (value : String)
  | bool (value : Bool)
  | none
  | list (items : List Expr)
  | tuple (items : List Expr)
  | dict (entries : List (Expr × Expr))
  | unary (op : UnaryOp) (operand : Expr)
  | binary (op : BinaryOp) (left right : Expr)
  | connect (op : Connective) (left right : Expr)
  /-- A chain: each operand is compared with the next. -/
  | compare (left : Expr) (links : List (Comparison × Expr))
  | choose (test body orelse : Expr)
  | call (callee : Expr) (args : List Expr) (keywords : List (String × Expr))
  | attribute (object : Expr) (name : String)
  | subscript (object index : Expr)
  deriving Inhabited, Repr

namespace Expr

mutual

/-- Whether an expression may stand left of an equals sign. -/
def isAssignable : Expr → Bool
  | .name _ | .attribute _ _ | .subscript _ _ => true
  | .tuple items | .list items => allAssignable items
  | _ => false

def allAssignable : List Expr → Bool
  | [] => true
  | e :: es => e.isAssignable && allAssignable es

end

/-- A name, an attribute or a subscript. -/
def isPlace : Expr → Bool
  | .name _ | .attribute _ _ | .subscript _ _ => true
  | _ => false

end Expr

structure Parameter where
  name : String
  default : Option Expr
  deriving Inhabited, Repr

/-- Statements that hold no statements. -/
inductive Simple
  | expr (value : Expr)
  /-- Every target gets the one value, from left to right. -/
  | assign (targets : List Expr) (value : Expr)
  | augment (target : Expr) (op : BinaryOp) (value : Expr)
  | pass
  | break
  | continue
  | return (value : Option Expr)
  | raise (value : Option Expr)
  | assert (test : Expr) (message : Option Expr)
  | global (names : List String)
  | delete (targets : List Expr)
  | importModules (names : List String)
  | importNames (module : String) (names : List String)
  deriving Inhabited, Repr

inductive Statement
  | simple (line : Nat) (action : Simple)
  | ifElse (line : Nat) (test : Expr) (body orelse : List Statement)
  | whileLoop (line : Nat) (test : Expr) (body orelse : List Statement)
  | forLoop (line : Nat) (target iterable : Expr) (body orelse : List Statement)
  | function (line : Nat) (name : String) (parameters : List Parameter) (body : List Statement)
  | classBody (line : Nat) (name : String) (bases : List Expr) (body : List Statement)
  deriving Inhabited, Repr

def Statement.line : Statement → Nat
  | .simple line _ | .ifElse line _ _ _ | .whileLoop line _ _ _ | .forLoop line _ _ _ _
  | .function line _ _ _ | .classBody line _ _ _ => line

end Console
