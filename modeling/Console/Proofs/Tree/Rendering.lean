import Console.Proofs.Tree.Expressions

/-!
# Programs written as tokens

The tokens that write a program. An operand stands in parentheses if it binds less tightly than its
place asks for, and a tuple always does. A block is the indented lines below its header. Of the
positions of the tokens only one says something: the first token of a statement stands on the
statement's line.
-/

namespace Console

open Token Parse

/-- The stream begins with tokens of these kinds, and goes on with the rest. -/
def Spells : List TokenKind → List Token → List Token → Prop
  | [], ts, rest => ts = rest
  | k :: ks, ts, rest => ∃ t later, ts = t :: later ∧ t.kind = k ∧ Spells ks later rest

namespace Kinds

def word (text : String) : List TokenKind := [.name text]

def op (symbol : String) : List TokenKind := [.op symbol]

def literal (kind : TokenKind) : List TokenKind := [kind]

/-- Parts with an operator between each two of them. -/
def joined (symbol : String) : List (List TokenKind) → List TokenKind
  | [] => []
  | [part] => part
  | part :: parts => part ++ op symbol ++ joined symbol parts

end Kinds

open Kinds

def BinaryOp.level : BinaryOp → Level
  | .add | .sub => .sum
  | .mul | .div | .floorDiv | .mod => .product
  | .pow => .power

def Connective.level : Connective → Level
  | .and => .conjunction
  | .or => .disjunction

def Connective.text : Connective → String
  | .and => "and"
  | .or => "or"

def Comparison.kinds : Comparison → List TokenKind
  | .eq => op "=="
  | .ne => op "!="
  | .lt => op "<"
  | .le => op "<="
  | .gt => op ">"
  | .ge => op ">="
  | .isIn => word "in"
  | .notIn => word "not" ++ word "in"
  | .is => word "is"
  | .isNot => word "is" ++ word "not"

namespace Expr

/-- How tightly an expression binds that stands in no parentheses of its own. -/
def level : Expr → Level
  | .choose _ _ _ => .conditional
  | .connect op _ _ => op.level
  | .unary .not _ => .negation
  | .compare _ _ => .comparison
  | .binary op _ _ => op.level
  | .unary _ _ => .sign
  | .call _ _ _ | .attribute _ _ | .subscript _ _ => .trailer
  | _ => .atom

/-- The kinds of an expression where a level is asked for: in parentheses if it binds less
tightly. -/
def enclosed (asked : Level) (e : Expr) (kinds : List TokenKind) : List TokenKind :=
  if e.level.rank ≤ asked.rank then kinds else op "(" ++ kinds ++ op ")"

mutual

/-- The kinds of an expression. The operand of an operator that groups to the left may stand on its
left as it is, and has to bind more tightly on its right. -/
def bare : Expr → List TokenKind
  | .name id => word id
  | .int value => literal (.int value)
  | .float value => literal (.float value)
  | .str value => literal (.str value)
  | .bool value => word (if value then "True" else "False")
  | .none => word "None"
  | .list items => op "[" ++ joined "," (parts items) ++ op "]"
  | .tuple items =>
    op "(" ++ joined "," (parts items) ++ (if items.length = 1 then op "," else []) ++ op ")"
  | .dict entries => op "\x7b" ++ joined "," (entryParts entries) ++ op "\x7d"
  | .unary .neg e => op "-" ++ enclosed .sign e e.bare
  | .unary .pos e => op "+" ++ enclosed .sign e e.bare
  | .unary .not e => word "not" ++ enclosed .negation e e.bare
  | .binary .pow base exponent =>
    enclosed .trailer base base.bare ++ op "**" ++ enclosed .sign exponent exponent.bare
  | .binary o left right =>
    enclosed o.level left left.bare ++ op o.symbol ++ enclosed o.level.tighter right right.bare
  | .connect o left right =>
    enclosed o.level left left.bare ++ word o.text ++ enclosed o.level.tighter right right.bare
  | .compare left links => enclosed .sum left left.bare ++ linkKinds links
  | .choose test body orelse =>
    enclosed .disjunction body body.bare ++ word "if" ++ enclosed .disjunction test test.bare ++
      word "else" ++ enclosed .conditional orelse orelse.bare
  | .call callee args keywords =>
    enclosed .trailer callee callee.bare ++ op "(" ++
      joined "," (parts args ++ keywordParts keywords) ++ op ")"
  | .attribute object id => enclosed .trailer object object.bare ++ op "." ++ word id
  | .subscript object index =>
    enclosed .trailer object object.bare ++ op "[" ++ enclosed .conditional index index.bare ++
      op "]"

def parts : List Expr → List (List TokenKind)
  | [] => []
  | e :: es => enclosed .conditional e e.bare :: parts es

def entryParts : List (Expr × Expr) → List (List TokenKind)
  | [] => []
  | (key, value) :: entries =>
    (enclosed .conditional key key.bare ++ op ":" ++ enclosed .conditional value value.bare) ::
      entryParts entries

def keywordParts : List (String × Expr) → List (List TokenKind)
  | [] => []
  | (id, value) :: keywords =>
    (word id ++ op "=" ++ enclosed .conditional value value.bare) :: keywordParts keywords

def linkKinds : List (Comparison × Expr) → List TokenKind
  | [] => []
  | (comparison, e) :: links => comparison.kinds ++ enclosed .sum e e.bare ++ linkKinds links

end

/-- The kinds of an expression at a place that asks for a level. -/
def kinds (asked : Level) (e : Expr) : List TokenKind := enclosed asked e e.bare

mutual

/-- No name is a reserved word, comparisons have two sides, and the keywords of a call differ. -/
def wellFormed : Expr → Bool
  | .name id => !isKeyword id
  | .int _ | .float _ | .str _ | .bool _ | .none => true
  | .list items | .tuple items => allWellFormed items
  | .dict entries => entriesWellFormed entries
  | .unary _ e => e.wellFormed
  | .binary _ left right | .connect _ left right => left.wellFormed && right.wellFormed
  | .compare left links => left.wellFormed && !links.isEmpty && linksWellFormed links
  | .choose test body orelse => test.wellFormed && body.wellFormed && orelse.wellFormed
  | .call callee args keywords =>
    callee.wellFormed && allWellFormed args && keywordsWellFormed keywords &&
      decide (keywords.map Prod.fst).Nodup
  | .attribute object id => object.wellFormed && !isKeyword id
  | .subscript object index => object.wellFormed && index.wellFormed

def allWellFormed : List Expr → Bool
  | [] => true
  | e :: es => e.wellFormed && allWellFormed es

def entriesWellFormed : List (Expr × Expr) → Bool
  | [] => true
  | (key, value) :: entries => key.wellFormed && value.wellFormed && entriesWellFormed entries

def keywordsWellFormed : List (String × Expr) → Bool
  | [] => true
  | (id, value) :: keywords => !isKeyword id && value.wellFormed && keywordsWellFormed keywords

def linksWellFormed : List (Comparison × Expr) → Bool
  | [] => true
  | (_, e) :: links => e.wellFormed && linksWellFormed links

end

theorem allWellFormed_eq (es : List Expr) : allWellFormed es = es.all wellFormed := by
  induction es with
  | nil => rfl
  | cons e es ih => rw [allWellFormed, ih, List.all_cons]

theorem entriesWellFormed_eq (entries : List (Expr × Expr)) :
    entriesWellFormed entries = entries.all fun e => e.1.wellFormed && e.2.wellFormed := by
  induction entries with
  | nil => rfl
  | cons e entries ih => rw [entriesWellFormed, ih, List.all_cons]

theorem keywordsWellFormed_eq (keywords : List (String × Expr)) :
    keywordsWellFormed keywords = keywords.all fun k => !isKeyword k.1 && k.2.wellFormed := by
  induction keywords with
  | nil => rfl
  | cons k keywords ih => rw [keywordsWellFormed, ih, List.all_cons]

end Expr

/-- The words of a name with points in it. -/
def dottedWords (name : String) : List String := (Text.pieces '.' name.toList).map String.ofList

def dottedKinds (name : String) : List TokenKind := joined "." ((dottedWords name).map word)

def optionKinds (before : List TokenKind) : Option Expr → List TokenKind
  | none => []
  | some e => before ++ e.kinds .conditional

namespace Simple

def kinds : Simple → List TokenKind
  | .expr value => value.kinds .conditional
  | .assign targets value =>
    targets.flatMap (fun target => target.kinds .conditional ++ op "=") ++ value.kinds .conditional
  | .augment target o value =>
    target.kinds .conditional ++ op (o.symbol ++ "=") ++ value.kinds .conditional
  | .pass => word "pass"
  | .break => word "break"
  | .continue => word "continue"
  | .return value => word "return" ++ optionKinds [] value
  | .raise value => word "raise" ++ optionKinds [] value
  | .assert test message => word "assert" ++ test.kinds .conditional ++ optionKinds (op ",") message
  | .global names => word "global" ++ joined "," (names.map word)
  | .delete targets => word "del" ++ joined "," (targets.map (Expr.kinds .sum))
  | .importModules names => word "import" ++ joined "," (names.map dottedKinds)
  | .importNames module names =>
    word "from" ++ dottedKinds module ++ word "import" ++
      if names = ["*"] then op "*" else joined "," (names.map word)

def dottedWellFormed (name : String) : Bool := (dottedWords name).all fun w => !isKeyword w

/-- What is assigned to, changed or deleted can be, lists have members, names are not reserved, and
jumps have a target. -/
def wellFormed (inLoop inFunction : Bool) : Simple → Bool
  | .expr value => value.wellFormed
  | .assign targets value =>
    !targets.isEmpty && targets.all (fun t => t.wellFormed && t.isAssignable) && value.wellFormed
  | .augment target _ value => target.wellFormed && target.isPlace && value.wellFormed
  | .pass => true
  | .break | .continue => inLoop
  | .return value => inFunction && value.all Expr.wellFormed
  | .raise value => value.all Expr.wellFormed
  | .assert test message => test.wellFormed && message.all Expr.wellFormed
  | .global names => !names.isEmpty && names.all fun name => !isKeyword name
  | .delete targets => !targets.isEmpty && targets.all fun t => t.wellFormed && t.isPlace
  | .importModules names => !names.isEmpty && names.all dottedWellFormed
  | .importNames module names =>
    dottedWellFormed module && !names.isEmpty && names.all fun name => !isKeyword name

end Simple

/-- A token to be written; `line` is the line that it stands on, if that matters. -/
structure Mark where
  kind : TokenKind
  line : Option Nat

/-- The token that a mark asks for. -/
def Mark.Fits (m : Mark) (t : Token) : Prop := t.kind = m.kind ∧ ∀ n ∈ m.line, t.pos.line = n

/-- A token that a mark asks for, at the start of its line. -/
def Mark.token (m : Mark) : Token := ⟨m.kind, ⟨0, m.line.getD 0, 0⟩⟩

/-- The stream begins with a token for each of the marks, and goes on with the rest. -/
def Written : List Mark → List Token → List Token → Prop
  | [], ts, rest => ts = rest
  | m :: ms, ts, rest => ∃ t later, ts = t :: later ∧ m.Fits t ∧ Written ms later rest

namespace Mark

/-- Tokens that stand anywhere. -/
def plain (kinds : List TokenKind) : List Mark := kinds.map fun kind => ⟨kind, none⟩

/-- Tokens of which the first stands on a line. -/
def starting (line : Nat) : List TokenKind → List Mark
  | [] => []
  | kind :: kinds => ⟨kind, some line⟩ :: plain kinds

/-- Another word in place of the first one. -/
def beginning (text : String) : List Mark → List Mark
  | [] => []
  | m :: ms => ⟨.name text, m.line⟩ :: ms

/-- The lines of a block below its header. -/
def block (lines : List Mark) : List Mark :=
  plain (literal .newline ++ literal .indent) ++ lines ++ plain (literal .dedent)

end Mark

open Mark

namespace Parameter

def kinds (p : Parameter) : List TokenKind := word p.name ++ optionKinds (op "=") p.default

/-- Names that differ and are not reserved; behind a default there are only defaults. -/
def wellFormed (parameters : List Parameter) : Bool :=
  parameters.all (fun p => !isKeyword p.name && p.default.all Expr.wellFormed) &&
    decide (parameters.map Parameter.name).Nodup &&
    decide (parameters.Pairwise fun p q => p.default.isSome → q.default.isSome)

end Parameter

namespace Statement

/-- Whether there is a conditional and nothing else. -/
def isConditional : List Statement → Bool
  | [.ifElse _ _ _ _] => true
  | _ => false

def otherwise (orelse : List Statement) (lines : List Mark) : List Mark :=
  if orelse.isEmpty then [] else plain (word "else" ++ op ":") ++ block lines

def baseKinds (bases : List Expr) : List TokenKind :=
  if bases.isEmpty then []
  else op "(" ++ joined "," (bases.map (Expr.kinds .conditional)) ++ op ")"

section

variable (further : List Statement → Bool)

mutual

/-- The marks of a statement. A conditional that stands alone in the other branch of another one may
also be a further branch of that; `further` chooses which are. -/
def marks : Statement → List Mark
  | .simple line action => starting line (action.kinds ++ literal .newline)
  | .ifElse line test body orelse =>
    starting line (word "if" ++ test.kinds .conditional ++ op ":") ++ block (linesMarks body) ++
      if isConditional orelse && further orelse then beginning "elif" (linesMarks orelse)
      else otherwise orelse (linesMarks orelse)
  | .whileLoop line test body orelse =>
    starting line (word "while" ++ test.kinds .conditional ++ op ":") ++ block (linesMarks body) ++
      otherwise orelse (linesMarks orelse)
  | .forLoop line target iterable body orelse =>
    starting line (word "for" ++ target.kinds .sum ++ word "in" ++ iterable.kinds .conditional ++
      op ":") ++ block (linesMarks body) ++ otherwise orelse (linesMarks orelse)
  | .function line id parameters body =>
    starting line (word "def" ++ word id ++ op "(" ++ joined "," (parameters.map Parameter.kinds) ++
      op ")" ++ op ":") ++ block (linesMarks body)
  | .classBody line id bases body =>
    starting line (word "class" ++ word id ++ baseKinds bases ++ op ":") ++ block (linesMarks body)

def linesMarks : List Statement → List Mark
  | [] => []
  | s :: rest => s.marks ++ linesMarks rest

end

end

mutual

/-- Bodies have statements, and jumps stand in what they leave. -/
def wellFormed (inLoop inFunction : Bool) : Statement → Bool
  | .simple _ action => action.wellFormed inLoop inFunction
  | .ifElse _ test body orelse =>
    test.wellFormed && !body.isEmpty && allWellFormed inLoop inFunction body &&
      allWellFormed inLoop inFunction orelse
  | .whileLoop _ test body orelse =>
    test.wellFormed && !body.isEmpty && allWellFormed true inFunction body &&
      allWellFormed inLoop inFunction orelse
  | .forLoop _ target iterable body orelse =>
    target.wellFormed && target.isAssignable && iterable.wellFormed && !body.isEmpty &&
      allWellFormed true inFunction body && allWellFormed inLoop inFunction orelse
  | .function _ id parameters body =>
    !isKeyword id && Parameter.wellFormed parameters && !body.isEmpty &&
      allWellFormed false true body
  | .classBody _ id bases body =>
    !isKeyword id && bases.all Expr.wellFormed && !body.isEmpty && allWellFormed false false body

def allWellFormed (inLoop inFunction : Bool) : List Statement → Bool
  | [] => true
  | s :: rest => s.wellFormed inLoop inFunction && allWellFormed inLoop inFunction rest

end

/-- The marks of a whole script. -/
def scriptMarks (further : List Statement → Bool) (body : List Statement) : List Mark :=
  linesMarks further body ++ plain (literal .endMarker)

end Statement

end Console
