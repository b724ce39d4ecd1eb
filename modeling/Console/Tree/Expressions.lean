import Console.Tree.Reader

/-!
# Expressions

The levels of binding, loosest first, and the expression read at each. An operator of a level takes
operands of tighter levels; sum, product and the connectives group to the left, the power operator
to the right. `fuel` bounds the nesting of readings and is never short of the tokens left.
-/

namespace Console.Parse

open Token

/-- How tightly an expression binds. -/
inductive Level
  | conditional
  | disjunction
  | conjunction
  | negation
  | comparison
  | sum
  | product
  | sign
  | power
  | trailer
  | atom
  deriving DecidableEq, Repr

/-- The next tighter level. -/
def Level.tighter : Level → Level
  | .conditional => .disjunction
  | .disjunction => .conjunction
  | .conjunction => .negation
  | .negation => .comparison
  | .comparison => .sum
  | .sum => .product
  | .product => .sign
  | .sign => .power
  | .power => .trailer
  | .trailer => .atom
  | .atom => .atom

/-- What a token between two operands of a left-grouping level makes of them. -/
def Level.joiner? : Level → TokenKind → Option (Expr → Expr → Expr)
  | .disjunction, .name "or" => some (.connect .or)
  | .conjunction, .name "and" => some (.connect .and)
  | .sum, .op "+" => some (.binary .add)
  | .sum, .op "-" => some (.binary .sub)
  | .product, .op "*" => some (.binary .mul)
  | .product, .op "/" => some (.binary .div)
  | .product, .op "//" => some (.binary .floorDiv)
  | .product, .op "%" => some (.binary .mod)
  | _, _ => none

/-- The comparison that one or two tokens write, and how many they are. -/
def comparisonAt? (tokens : List Token) : Option (Comparison × Nat) :=
  match (front tokens).kind with
  | .op "==" => some (.eq, 1)
  | .op "!=" => some (.ne, 1)
  | .op "<" => some (.lt, 1)
  | .op "<=" => some (.le, 1)
  | .op ">" => some (.gt, 1)
  | .op ">=" => some (.ge, 1)
  | .name "in" => some (.isIn, 1)
  | .name "not" => if isWord (front tokens.tail) "in" then some (.notIn, 2) else none
  | .name "is" => if isWord (front tokens.tail) "not" then some (.isNot, 2) else some (.is, 1)
  | _ => none

/-- Words and marks that an expression can start with. -/
def startsExpression (t : Token) : Bool :=
  match t.kind with
  | .name word => !isKeyword word || ["not", "True", "False", "None", "lambda"].contains word
  | .int _ | .float _ | .str _ => true
  | .op symbol => ["(", "[", "\x7b", "-", "+", "~"].contains symbol
  | _ => false

/-- The name of a keyword argument, if one comes next. -/
def keywordAt? (tokens : List Token) : Option String :=
  match (front tokens).kind with
  | .name word => if !isKeyword word && isOp (front tokens.tail) "=" then some word else none
  | _ => none

/-- The value that a word stands for on its own. -/
def wordAtom? (word : String) : Option Expr :=
  match word with
  | "True" => some (.bool true)
  | "False" => some (.bool false)
  | "None" => some .none
  | _ => if isKeyword word then none else some (.name word)

mutual

/-- An expression that binds at least as tightly as a level. -/
def expression (ctx : Context) : (fuel : Nat) → Level → Parser Expr
  | 0, _ => fail .invalidSyntax
  | fuel + 1, .conditional => do
    if ← atWord "lambda" then fail .lambdaExpression
    let body ← expression ctx fuel .disjunction
    if ← eatWord "if" then
      let test ← expression ctx fuel .disjunction
      expectWord ctx "else"
      let orelse ← expression ctx fuel .conditional
      return .choose test body orelse
    else return body
  | fuel + 1, .negation => do
    if ← eatWord "not" then return .unary .not (← expression ctx fuel .negation)
    else expression ctx fuel .comparison
  | fuel + 1, .comparison => do
    let left ← expression ctx fuel .sum
    match ← comparisonLinks ctx fuel with
    | [] => return left
    | links => return .compare left links
  | fuel + 1, .sign => do
    if ← eatOp "-" then return .unary .neg (← expression ctx fuel .sign)
    else if ← eatOp "+" then return .unary .pos (← expression ctx fuel .sign)
    else expression ctx fuel .power
  | fuel + 1, .power => do
    let base ← expression ctx fuel .trailer
    if ← eatOp "**" then return .binary .pow base (← expression ctx fuel .sign)
    else return base
  | fuel + 1, .trailer => do
    let value ← expression ctx fuel .atom
    trailers ctx fuel value
  | fuel + 1, .atom => atom ctx fuel
  | fuel + 1, level => do
    let left ← expression ctx fuel level.tighter
    operands ctx fuel level left

/-- Further operands of a left-grouping level. -/
def operands (ctx : Context) : (fuel : Nat) → Level → Expr → Parser Expr
  | 0, _, _ => fail .invalidSyntax
  | fuel + 1, level, left => do
    match level.joiner? (← current).kind with
    | none => return left
    | some join =>
      advance
      let right ← expression ctx fuel level.tighter
      operands ctx fuel level (join left right)

/-- Comparison operators with their right sides. -/
def comparisonLinks (ctx : Context) : (fuel : Nat) → Parser (List (Comparison × Expr))
  | 0 => fail .invalidSyntax
  | fuel + 1 => do
    match comparisonAt? (← get) with
    | none => return []
    | some (op, width) =>
      modify (·.drop width)
      let right ← expression ctx fuel .sum
      return (op, right) :: (← comparisonLinks ctx fuel)

/-- Calls, subscripts and attributes behind a value. -/
def trailers (ctx : Context) : (fuel : Nat) → Expr → Parser Expr
  | 0, _ => fail .invalidSyntax
  | fuel + 1, value => do
    if ← eatOp "(" then
      let (args, keywords) ← arguments ctx fuel [] []
      expectOp ctx ")"
      trailers ctx fuel (.call value args keywords)
    else if ← eatOp "[" then
      let index ← sequence ctx fuel .conditional
      if ← atOp ":" then fail .slice
      expectOp ctx "]"
      trailers ctx fuel (.subscript value index)
    else if ← eatOp "." then
      let name ← identifier ctx
      trailers ctx fuel (.attribute value name)
    else return value

/-- The arguments of a call up to the closing bracket; those read so far come in reverse. -/
def arguments (ctx : Context) : (fuel : Nat) → List Expr → List (String × Expr) →
    Parser (List Expr × List (String × Expr))
  | 0, _, _ => fail .invalidSyntax
  | fuel + 1, args, keywords => do
    if ← atOp ")" then return (args.reverse, keywords.reverse)
    let next ← match keywordAt? (← get) with
      | some name => do
        advance
        advance
        if keywords.any (·.1 == name) then fail .repeatedKeyword
        let value ← expression ctx fuel .conditional
        pure (args, (name, value) :: keywords)
      | none => do
        unless keywords.isEmpty do fail .positionalAfterKeyword
        let value ← expression ctx fuel .conditional
        pure (value :: args, keywords)
    if ← eatOp "," then arguments ctx fuel next.1 next.2
    else return (next.1.reverse, next.2.reverse)

/-- One expression, or a tuple if a comma follows it. -/
def sequence (ctx : Context) : (fuel : Nat) → Level → Parser Expr
  | 0, _ => fail .invalidSyntax
  | fuel + 1, level => do
    let first ← expression ctx fuel level
    if ← atOp "," then return .tuple (first :: (← sequenceRest ctx fuel level))
    else return first

/-- Further items of a tuple; a last comma may stand without one. -/
def sequenceRest (ctx : Context) : (fuel : Nat) → Level → Parser (List Expr)
  | 0, _ => fail .invalidSyntax
  | fuel + 1, level => do
    if ← eatOp "," then
      if startsExpression (← current) then
        let item ← expression ctx fuel level
        return item :: (← sequenceRest ctx fuel level)
      else return []
    else return []

/-- The items of a list up to its closing bracket. -/
def listItems (ctx : Context) : (fuel : Nat) → Parser (List Expr)
  | 0 => fail .invalidSyntax
  | fuel + 1 => do
    if ← atOp "]" then return []
    let item ← expression ctx fuel .conditional
    if ← eatOp "," then return item :: (← listItems ctx fuel)
    else return [item]

/-- The entries of a dictionary up to its closing bracket. -/
def dictEntries (ctx : Context) : (fuel : Nat) → Parser (List (Expr × Expr))
  | 0 => fail .invalidSyntax
  | fuel + 1 => do
    if ← atOp "\x7d" then return []
    let key ← expression ctx fuel .conditional
    expectOp ctx ":"
    let value ← expression ctx fuel .conditional
    if ← eatOp "," then return (key, value) :: (← dictEntries ctx fuel)
    else return [(key, value)]

/-- A literal, a name or a bracketed expression. -/
def atom (ctx : Context) : (fuel : Nat) → Parser Expr
  | 0 => fail .invalidSyntax
  | fuel + 1 => do
    match (← current).kind with
    | .int n => advance; return .int n
    | .float x => advance; return .float x
    | .str s => advance; return .str s
    | .name word =>
      match wordAtom? word with
      | some e => advance; return e
      | none => unexpected ctx
    | .op "(" =>
      advance
      if ← eatOp ")" then return .tuple []
      let inner ← sequence ctx fuel .conditional
      expectOp ctx ")"
      return inner
    | .op "[" =>
      advance
      let items ← listItems ctx fuel
      expectOp ctx "]"
      return .list items
    | .op "\x7b" =>
      advance
      let entries ← dictEntries ctx fuel
      expectOp ctx "\x7d"
      return .dict entries
    | _ => unexpected ctx

end

end Console.Parse
