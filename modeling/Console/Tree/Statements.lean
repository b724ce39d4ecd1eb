import Console.Tree.Expressions

/-!
# Statements

Simple statements share a line, divided by semicolons. A block is the rest of its header's line or
the indented lines below it. `program` reads a whole stream of tokens.
-/

namespace Console.Parse

open Token

/-- The operator that an augmented assignment applies. -/
def augmentedOp? : TokenKind → Option BinaryOp
  | .op "+=" => some .add
  | .op "-=" => some .sub
  | .op "*=" => some .mul
  | .op "/=" => some .div
  | .op "//=" => some .floorDiv
  | .op "%=" => some .mod
  | .op "**=" => some .pow
  | _ => none

def atStatementEnd : Parser Bool := return (← atNewline) || (← atOp ";")

/-- Names joined by points. -/
def dottedName (ctx : Context) : (fuel : Nat) → Parser String
  | 0 => fail .invalidSyntax
  | fuel + 1 => do
    let first ← identifier ctx
    if ← eatOp "." then return first ++ "." ++ (← dottedName ctx fuel)
    else return first

/-- What `item` reads, once or more often with commas between. -/
def commaSeparated {α : Type} (item : Parser α) : (fuel : Nat) → Parser (List α)
  | 0 => fail .invalidSyntax
  | fuel + 1 => do
    let first ← item
    if ← eatOp "," then return first :: (← commaSeparated item fuel)
    else return [first]

/-- Imported names; inside brackets a last comma may stand without one. -/
def importedNames (ctx : Context) (bracketed : Bool) : (fuel : Nat) → Parser (List String)
  | 0 => fail .invalidSyntax
  | fuel + 1 => do
    let first ← identifier ctx
    if ← eatOp "," then
      if bracketed && (← atOp ")") then return [first]
      else return first :: (← importedNames ctx bracketed fuel)
    else return [first]

/-- Places to delete; a last comma may stand without one. -/
def deletedPlaces (ctx : Context) : (fuel : Nat) → Parser (List Expr)
  | 0 => fail .invalidSyntax
  | fuel + 1 => do
    let first ← expression ctx fuel .sum
    if ← eatOp "," then
      if ← atStatementEnd then return [first]
      else return first :: (← deletedPlaces ctx fuel)
    else return [first]

/-- What stands between equals signs behind the first one; the last of it is the value. -/
def assigned (ctx : Context) : (fuel : Nat) → Parser (List Expr × Expr)
  | 0 => fail .invalidSyntax
  | fuel + 1 => do
    let value ← sequence ctx fuel .conditional
    if ← eatOp "=" then
      let (targets, last) ← assigned ctx fuel
      return (value :: targets, last)
    else return ([], value)

/-- An expression alone, an assignment or an augmented assignment. -/
def expressionStatement (ctx : Context) (fuel : Nat) : Parser Simple := do
  let first ← sequence ctx fuel .conditional
  match augmentedOp? (← current).kind with
  | some op =>
    unless first.isPlace do fail .cannotAugment
    advance
    return .augment first op (← sequence ctx fuel .conditional)
  | none =>
    if ← eatOp "=" then
      let (targets, value) ← assigned ctx fuel
      unless (first :: targets).all Expr.isAssignable do fail .cannotAssign
      return .assign (first :: targets) value
    else return .expr first

/-- What a statement returns or raises, if it says so. -/
def optionalValue (value : Parser Expr) : Parser (Option Expr) := do
  if ← atStatementEnd then return none else return some (← value)

def deleteStatement (ctx : Context) (fuel : Nat) : Parser Simple := do
  let targets ← deletedPlaces ctx fuel
  unless targets.all Expr.isPlace do fail .cannotDelete
  return .delete targets

def importStatement (ctx : Context) (fuel : Nat) : Parser Simple := do
  let module ← dottedName ctx fuel
  expectWord ctx "import"
  if ← eatOp "*" then return .importNames module ["*"]
  else
    let bracketed ← eatOp "("
    let names ← importedNames ctx bracketed fuel
    if bracketed then expectOp ctx ")"
    return .importNames module names

def assertStatement (ctx : Context) (fuel : Nat) : Parser Simple := do
  let test ← expression ctx fuel .conditional
  if ← eatOp "," then return .assert test (some (← expression ctx fuel .conditional))
  else return .assert test none

/-- A jump is read where a loop surrounds it. -/
def jump (ctx : Context) (word : String) (action : Simple) : Parser Simple := do
  unless ctx.inLoop do fail (.outsideLoop word)
  advance
  return action

/-- A statement that holds no statements. -/
def simpleStatement (ctx : Context) (fuel : Nat) : Parser Simple := do
  match (← current).kind with
  | .name "pass" => advance; return .pass
  | .name "break" => jump ctx "break" .break
  | .name "continue" => jump ctx "continue" .continue
  | .name "return" =>
    unless ctx.inFunction do fail .returnOutsideFunction
    advance
    return .return (← optionalValue (sequence ctx fuel .conditional))
  | .name "raise" =>
    advance
    return .raise (← optionalValue (expression ctx fuel .conditional))
  | .name "assert" => advance; assertStatement ctx fuel
  | .name "global" => advance; return .global (← commaSeparated (identifier ctx) fuel)
  | .name "del" => advance; deleteStatement ctx fuel
  | .name "import" => advance; return .importModules (← commaSeparated (dottedName ctx fuel) fuel)
  | .name "from" => advance; importStatement ctx fuel
  | _ => expressionStatement ctx fuel

/-- Simple statements up to the end of their line. -/
def simpleLine (ctx : Context) : (fuel : Nat) → Parser (List Statement)
  | 0 => fail .invalidSyntax
  | fuel + 1 => do
    let line := (← current).pos.line
    let first := Statement.simple line (← simpleStatement ctx fuel)
    if ← eatOp ";" then
      if ← atNewline then
        expectNewline ctx
        return [first]
      else return first :: (← simpleLine ctx fuel)
    else
      expectNewline ctx
      return [first]

/-- The parameters of a function up to the closing bracket; those read so far come in reverse. -/
def parameters (ctx : Context) : (fuel : Nat) → List Parameter → Parser (List Parameter)
  | 0, _ => fail .invalidSyntax
  | fuel + 1, seen => do
    if ← atOp ")" then return seen.reverse
    let name ← identifier ctx
    if seen.any (·.name == name) then fail .duplicateParameter
    let default ← if ← eatOp "=" then some <$> expression ctx fuel .conditional
      else
        if seen.any (·.default.isSome) then fail .defaultOrder
        pure none
    if ← eatOp "," then parameters ctx fuel (⟨name, default⟩ :: seen)
    else return (⟨name, default⟩ :: seen).reverse

/-- The base classes of a class up to the closing bracket. -/
def baseClasses (ctx : Context) : (fuel : Nat) → Parser (List Expr)
  | 0 => fail .invalidSyntax
  | fuel + 1 => do
    if ← atOp ")" then return []
    let base ← expression ctx fuel .conditional
    if ← eatOp "," then return base :: (← baseClasses ctx fuel)
    else return [base]

/-- The name, parameters and unused result of a function, up to the colon. -/
def functionHeader (ctx : Context) (fuel : Nat) : Parser (String × List Parameter) := do
  let name ← identifier ctx
  expectOp ctx "("
  let parameters ← parameters ctx fuel []
  expectOp ctx ")"
  if ← eatOp "->" then discard <| expression ctx fuel .conditional
  expectOp ctx ":"
  return (name, parameters)

/-- The name and bases of a class, up to the colon. -/
def classHeader (ctx : Context) (fuel : Nat) : Parser (String × List Expr) := do
  let name ← identifier ctx
  let bases ← if ← eatOp "(" then do
      let bases ← baseClasses ctx fuel
      expectOp ctx ")"
      pure bases
    else pure []
  expectOp ctx ":"
  return (name, bases)

/-- The target and the sequence of a loop, up to the colon. -/
def forHeader (ctx : Context) (fuel : Nat) : Parser (Expr × Expr) := do
  let target ← sequence ctx fuel .sum
  unless target.isAssignable do fail .cannotAssign
  expectWord ctx "in"
  let iterable ← sequence ctx fuel .conditional
  expectOp ctx ":"
  return (target, iterable)

def testHeader (ctx : Context) (fuel : Nat) : Parser Expr := do
  let test ← expression ctx fuel .conditional
  expectOp ctx ":"
  return test

mutual

/-- One compound statement, or the simple statements of one line. -/
def statement (ctx : Context) : (fuel : Nat) → Parser (List Statement)
  | 0 => fail .invalidSyntax
  | fuel + 1 => do
    let line := (← current).pos.line
    match (← current).kind with
    | .name "if" => return [← ifStatement ctx fuel]
    | .name "while" =>
      advance
      let test ← testHeader ctx fuel
      let body ← block { ctx with inLoop := true } fuel
      return [.whileLoop line test body (← elseBlock ctx fuel)]
    | .name "for" =>
      advance
      let (target, iterable) ← forHeader ctx fuel
      let body ← block { ctx with inLoop := true } fuel
      return [.forLoop line target iterable body (← elseBlock ctx fuel)]
    | .name "def" =>
      advance
      let (name, parameters) ← functionHeader ctx fuel
      let body ← block { ctx with inLoop := false, inFunction := true } fuel
      return [.function line name parameters body]
    | .name "class" =>
      advance
      let (name, bases) ← classHeader ctx fuel
      let body ← block { ctx with inLoop := false, inFunction := false } fuel
      return [.classBody line name bases body]
    | .indent | .dedent | .endMarker => unexpected ctx
    | _ => simpleLine ctx fuel

/-- From its first word; an alternative with a test is a statement inside the other branch. -/
def ifStatement (ctx : Context) : (fuel : Nat) → Parser Statement
  | 0 => fail .invalidSyntax
  | fuel + 1 => do
    let line := (← current).pos.line
    advance
    let test ← testHeader ctx fuel
    let body ← block ctx fuel
    if ← atWord "elif" then return .ifElse line test body [← ifStatement ctx fuel]
    else return .ifElse line test body (← elseBlock ctx fuel)

def elseBlock (ctx : Context) : (fuel : Nat) → Parser (List Statement)
  | 0 => fail .invalidSyntax
  | fuel + 1 => do
    if ← eatWord "else" then
      expectOp ctx ":"
      block ctx fuel
    else return []

/-- The body behind a colon. -/
def block (ctx : Context) : (fuel : Nat) → Parser (List Statement)
  | 0 => fail .invalidSyntax
  | fuel + 1 => do
    if ← atNewline then
      advance
      match (← current).kind with
      | .indent => advance; blockRest ctx fuel
      | .endMarker => fail (if ctx.terminated then .expectedBlock else .incomplete .block)
      | _ => fail .expectedBlock
    else simpleLine ctx fuel

/-- Statements up to the end of their block. -/
def blockRest (ctx : Context) : (fuel : Nat) → Parser (List Statement)
  | 0 => fail .invalidSyntax
  | fuel + 1 => do
    match (← current).kind with
    | .dedent => advance; return []
    | .endMarker => unexpected ctx
    | _ =>
      let first ← statement ctx fuel
      return first ++ (← blockRest ctx fuel)

end

def skipNewlines : (fuel : Nat) → Parser Unit
  | 0 => return ()
  | fuel + 1 => do
    if ← atNewline then
      advance
      skipNewlines fuel

/-- Statements up to the end of the source. -/
def statements (ctx : Context) : (fuel : Nat) → Parser (List Statement)
  | 0 => fail .invalidSyntax
  | fuel + 1 => do
    if isEnd (← current) then return []
    else
      let first ← statement ctx fuel
      return first ++ (← statements ctx fuel)

/-- One statement at most, or nothing. -/
def oneStatement (ctx : Context) (fuel : Nat) : Parser (List Statement) := do
  let body ← if isEnd (← current) then pure [] else statement ctx fuel
  unless isEnd (← current) do fail .multipleStatements
  return body

/-- More readings than a stream of this length can nest. -/
def enoughFuel (tokens : List Token) : Nat := 16 * (tokens.length + 2)

/-- The statements that a stream of tokens writes; `terminated` says that its source ended with a
blank line. -/
def program (tokens : List Token) (mode : Mode) (terminated : Bool) :
    Except SyntaxError (List Statement) :=
  let ctx : Context := ⟨terminated || mode = .script, false, false⟩
  let fuel := enoughFuel tokens
  let whole : Parser (List Statement) := do
    skipNewlines fuel
    match mode with
    | .single => oneStatement ctx fuel
    | .script => statements ctx fuel
  whole.run' tokens

end Console.Parse
