import Console.Exception

/-!
# Run-time faults

Why an operation fails: each cause with its class of exception and its wording. Types are named as
`Value.typeName` names them.
-/

namespace Console

/-- How many arguments a callee takes. -/
inductive Arity
  | exactly (n : Nat)
  | atLeast (n : Nat)
  | atMost (n : Nat)
  deriving DecidableEq, Repr

/-- The sequences that an index is taken of. -/
inductive Indexed
  | list
  | tuple
  | string
  | assignment
  | pop
  deriving DecidableEq, Repr

def Indexed.name : Indexed → String
  | .list => "list"
  | .tuple => "tuple"
  | .string => "string"
  | .assignment => "list assignment"
  | .pop => "pop"

inductive Fault
  -- names and modules
  | unbound (name : String)
  | noModule (name : String)
  | assertion (message : String)
  -- raising
  | nothingToReraise
  | notAnException (type : String)
  | tooDeep
  -- assignment
  | tooManyValues (expected : Nat)
  | tooFewValues (expected got : Nat)
  | cannotAssign
  | cannotAugment
  | cannotDelete
  | noItemAssignment (type : String)
  | noItemDeletion (type : String)
  -- attributes
  | noAttribute (owner attr : String)
  | readOnly (type attr : String)
  | attributeName (type : String)
  -- calls
  | notCallable (type : String)
  | noKeywords (callee : String)
  | badKeyword (keyword callee : String)
  | wrongCount (callee : String) (arity : Arity) (given : Nat)
  | tooManyPositional (callee : String) (parameters given : Nat)
  | unexpectedKeyword (callee keyword : String)
  | multipleValues (callee parameter : String)
  | missingArgument (callee parameter : String)
  | noArguments (callee : String)
  | initReturned
  | badBase (type : String)
  | notText (method type : String)
  -- numbers
  | integerOverflow
  | integerDivision
  | floatDivision
  | floatDivmod
  | floatModulo
  | fractionalPower
  | negativePowerOfZero
  | floatOverflow
  | unsupportedOperands (op left right : String)
  | badOperand (op type : String)
  | absOperand (type : String)
  | badRadix
  | explicitRadix
  | badInteger (radix : Nat) (quoted : String)
  | notInteger (type : String)
  | notANumberToInteger
  | floatToInteger
  | badFloat (quoted : String)
  | notFloat (type : String)
  | sumOfStrings
  | emptyExtreme (callee : String)
  | extremeOfNothing (callee : String)
  -- containers
  | notIterable (type : String)
  | notSubscriptable (type : String)
  | badIndex (what : Indexed) (type : String)
  | indexRange (what : Indexed)
  | insertIndex
  | popFromEmpty
  | notInListToRemove
  | notInList (text : String)
  | sortPositional
  | keyMissing (text : String)
  | unhashable (type : String)
  | updateCount
  | dictCount (given : Nat)
  | sortedCount (given : Nat)
  | pairLength (position length : Nat)
  | noLength (type : String)
  | unorderable (left right : String)
  | containsOperand (type : String)
  | repeatTooLong
  | rangeOperand (type : String)
  | rangeStep
  | rangeTooLong
  | enumerateStart
  | notAType
  -- texts
  | expectedString (what type : String)
  | splitLimit
  | emptySeparator
  | joinItem (position : Nat) (type : String)
  | printOption (option type : String)
  -- formats
  | incompleteFormat
  | tooFewFormatArguments
  | tooManyFormatArguments
  | numberRequired (conversion : Char) (type : String)
  | realRequired (type : String)
  | unsupportedConversion (conversion : Char)
  | singleClose
  | singleOpen
  | formatIndex
  | formatKey (quoted : String)
  | unknownConversion (text : String)
  | invalidSpec (spec : String)
  deriving DecidableEq, Repr

namespace Fault

def kind : Fault → ExceptionKind
  | .unbound _ => .nameError
  | .noModule _ => .importError
  | .assertion _ => .assertionError
  | .nothingToReraise | .tooDeep => .runtimeError
  | .noAttribute _ _ | .readOnly _ _ => .attributeError
  | .integerDivision | .floatDivision | .floatDivmod | .floatModulo | .negativePowerOfZero =>
    .zeroDivisionError
  | .integerOverflow | .floatOverflow | .floatToInteger | .repeatTooLong | .rangeTooLong =>
    .overflowError
  | .tooManyValues _ | .tooFewValues _ _ | .fractionalPower | .badRadix | .badInteger _ _
  | .notANumberToInteger | .badFloat _ | .extremeOfNothing _ | .notInListToRemove | .notInList _
  | .pairLength _ _ | .rangeStep | .emptySeparator | .incompleteFormat | .unsupportedConversion _
  | .singleClose | .singleOpen | .unknownConversion _ | .invalidSpec _ => .valueError
  | .indexRange _ | .popFromEmpty | .formatIndex => .indexError
  | .keyMissing _ | .formatKey _ => .keyError
  | _ => .typeError

private def plural (n : Nat) : String := if n = 1 then "" else "s"

private def arityText : Arity → String
  | .exactly n => s!"exactly {n} argument{plural n}"
  | .atLeast n => s!"at least {n} arguments"
  | .atMost n => s!"at most {n} arguments"

def message : Fault → String
  | .unbound name => s!"name '{name}' is not defined"
  | .noModule name => s!"No module named {name}"
  | .assertion message => message
  | .nothingToReraise => "No active exception to reraise"
  | .notAnException type => s!"exceptions must derive from BaseException, not {type}"
  | .tooDeep => "maximum recursion depth exceeded"
  | .tooManyValues expected => s!"too many values to unpack (expected {expected})"
  | .tooFewValues expected got => s!"not enough values to unpack (expected {expected}, got {got})"
  | .cannotAssign => "can't assign to expression"
  | .cannotAugment => "illegal expression for augmented assignment"
  | .cannotDelete => "can't delete expression"
  | .noItemAssignment type => s!"'{type}' object does not support item assignment"
  | .noItemDeletion type => s!"'{type}' object doesn't support item deletion"
  | .noAttribute owner attr => s!"{owner} has no attribute '{attr}'"
  | .readOnly type attr => s!"'{type}' object attribute '{attr}' is read-only"
  | .attributeName type => s!"attribute name must be string, not '{type}'"
  | .notCallable type => s!"'{type}' object is not callable"
  | .noKeywords callee => s!"{callee}() takes no keyword arguments"
  | .badKeyword keyword callee => s!"'{keyword}' is an invalid keyword argument for {callee}()"
  | .wrongCount callee arity given => s!"{callee}() takes {arityText arity} ({given} given)"
  | .tooManyPositional callee parameters given =>
    s!"{callee}() takes {parameters} positional argument{plural parameters} but {given} were given"
  | .unexpectedKeyword callee keyword =>
    s!"{callee}() got an unexpected keyword argument '{keyword}'"
  | .multipleValues callee parameter => s!"{callee}() got multiple values for argument '{parameter}'"
  | .missingArgument callee parameter => s!"{callee}() missing required argument: '{parameter}'"
  | .noArguments callee => s!"{callee}() takes no arguments"
  | .initReturned => "__init__() should return None"
  | .badBase type => s!"cannot use {type} as a base class"
  | .notText method type => s!"{method}() returned non-string (type {type})"
  | .integerOverflow => "integer overflow"
  | .integerDivision => "integer division or modulo by zero"
  | .floatDivision => "float division by zero"
  | .floatDivmod => "float divmod()"
  | .floatModulo => "float modulo"
  | .fractionalPower => "negative number cannot be raised to a fractional power"
  | .negativePowerOfZero => "0.0 cannot be raised to a negative power"
  | .floatOverflow => "numerical result out of range"
  | .unsupportedOperands op left right =>
    s!"unsupported operand type(s) for {op}: '{left}' and '{right}'"
  | .badOperand op type => s!"bad operand type for unary {op}: '{type}'"
  | .absOperand type => s!"bad operand type for abs(): '{type}'"
  | .badRadix => "int() base must be >= 2 and <= 36"
  | .explicitRadix => "int() can't convert non-string with explicit base"
  | .badInteger radix quoted => s!"invalid literal for int() with base {radix}: {quoted}"
  | .notInteger type => s!"int() argument must be a string or a number, not '{type}'"
  | .notANumberToInteger => "cannot convert float NaN to integer"
  | .floatToInteger => "cannot convert float to integer"
  | .badFloat quoted => s!"could not convert string to float: {quoted}"
  | .notFloat type => s!"float() argument must be a string or a number, not '{type}'"
  | .sumOfStrings => "sum() can't sum strings [use ''.join(seq) instead]"
  | .emptyExtreme callee => s!"{callee} expected at least 1 argument, got 0"
  | .extremeOfNothing callee => s!"{callee}() arg is an empty sequence"
  | .notIterable type => s!"'{type}' object is not iterable"
  | .notSubscriptable type => s!"'{type}' object is not subscriptable"
  | .badIndex what type => s!"{what.name} indices must be integers, not {type}"
  | .indexRange what => s!"{what.name} index out of range"
  | .insertIndex => "list indices must be integers"
  | .popFromEmpty => "pop from empty list"
  | .notInListToRemove => "list.remove(x): x not in list"
  | .notInList text => s!"{text} is not in list"
  | .sortPositional => "sort() takes no positional arguments"
  | .keyMissing text => text
  | .unhashable type => s!"unhashable type: '{type}'"
  | .updateCount => "update expected at most 1 argument"
  | .dictCount given => s!"dict expected at most 1 argument, got {given}"
  | .sortedCount given => s!"sorted expected 1 argument, got {given}"
  | .pairLength position length =>
    s!"dictionary update sequence element #{position} has length {length}; 2 is required"
  | .noLength type => s!"object of type '{type}' has no len()"
  | .unorderable left right => s!"unorderable types: {left}() < {right}()"
  | .containsOperand type => s!"'in <string>' requires string as left operand, not {type}"
  | .repeatTooLong => "repeated sequence is too long"
  | .rangeOperand type => s!"range() integer argument expected, got {type}."
  | .rangeStep => "range() arg 3 must not be zero"
  | .rangeTooLong => "range() result has too many items"
  | .enumerateStart => "an integer is required"
  | .notAType => "isinstance() arg 2 must be a type or tuple of types"
  | .expectedString what type => s!"{what} must be str, not {type}"
  | .splitLimit => "maxsplit must be an integer"
  | .emptySeparator => "empty separator"
  | .joinItem position type => s!"sequence item {position}: expected str instance, {type} found"
  | .printOption option type => s!"{option} must be None or a string, not {type}"
  | .incompleteFormat => "incomplete format"
  | .tooFewFormatArguments => "not enough arguments for format string"
  | .tooManyFormatArguments => "not all arguments converted during string formatting"
  | .numberRequired conversion type => s!"%{conversion} format: a number is required, not {type}"
  | .realRequired type => s!"must be real number, not {type}"
  | .unsupportedConversion conversion =>
    "unsupported format character '" ++ conversion.toString ++ "' (0x" ++
      String.ofList (Nat.toDigits 16 conversion.toNat) ++ ")"
  | .singleClose => "Single '\x7d' encountered in format string"
  | .singleOpen => "Single '\x7b' encountered in format string"
  | .formatIndex => "tuple index out of range"
  | .formatKey quoted => quoted
  | .unknownConversion text => s!"Unknown conversion specifier {text}"
  | .invalidSpec spec => s!"Invalid format specifier '{spec}'"

/-- The exception that a fault raises. -/
def exception (f : Fault) : Exception := ⟨f.kind, f.message, none⟩

end Fault

end Console
