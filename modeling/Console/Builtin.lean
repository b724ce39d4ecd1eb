/-!
# Built-in functions and methods

Their names alone; what they do stands in the modules on calls.
-/

namespace Console

inductive Builtin
  | print
  | repr
  | str
  | abs
  | int
  | float
  | bool
  | divmod
  | min
  | max
  | sum
  | len
  | list
  | tuple
  | dict
  | range
  | sorted
  | enumerate
  | zip
  | isinstance
  | callable
  | dir
  | getattr
  | hasattr
  | setattr
  deriving DecidableEq, Repr

namespace Builtin

def all : List Builtin :=
  [print, repr, str, abs, int, float, bool, divmod, min, max, sum, len, list, tuple, dict, range,
   sorted, enumerate, zip, isinstance, callable, dir, getattr, hasattr, setattr]

def name : Builtin → String
  | print => "print"
  | repr => "repr"
  | str => "str"
  | abs => "abs"
  | int => "int"
  | float => "float"
  | bool => "bool"
  | divmod => "divmod"
  | min => "min"
  | max => "max"
  | sum => "sum"
  | len => "len"
  | list => "list"
  | tuple => "tuple"
  | dict => "dict"
  | range => "range"
  | sorted => "sorted"
  | enumerate => "enumerate"
  | zip => "zip"
  | isinstance => "isinstance"
  | callable => "callable"
  | dir => "dir"
  | getattr => "getattr"
  | hasattr => "hasattr"
  | setattr => "setattr"

end Builtin

inductive ListMethod
  | append
  | count
  | extend
  | index
  | insert
  | pop
  | remove
  | reverse
  | sort
  deriving DecidableEq, Repr

namespace ListMethod

/-- In the order of their names. -/
def all : List ListMethod := [append, count, extend, index, insert, pop, remove, reverse, sort]

def name : ListMethod → String
  | append => "append"
  | count => "count"
  | extend => "extend"
  | index => "index"
  | insert => "insert"
  | pop => "pop"
  | remove => "remove"
  | reverse => "reverse"
  | sort => "sort"

def ofName? (word : String) : Option ListMethod := all.find? fun m => m.name = word

end ListMethod

inductive StrMethod
  | count
  | endswith
  | find
  | format
  | isdigit
  | join
  | lower
  | lstrip
  | replace
  | rstrip
  | split
  | startswith
  | strip
  | upper
  deriving DecidableEq, Repr

namespace StrMethod

/-- In the order of their names. -/
def all : List StrMethod :=
  [count, endswith, find, format, isdigit, join, lower, lstrip, replace, rstrip, split, startswith,
   strip, upper]

def name : StrMethod → String
  | count => "count"
  | endswith => "endswith"
  | find => "find"
  | format => "format"
  | isdigit => "isdigit"
  | join => "join"
  | lower => "lower"
  | lstrip => "lstrip"
  | replace => "replace"
  | rstrip => "rstrip"
  | split => "split"
  | startswith => "startswith"
  | strip => "strip"
  | upper => "upper"

def ofName? (word : String) : Option StrMethod := all.find? fun m => m.name = word

end StrMethod

inductive DictMethod
  | get
  | items
  | keys
  | pop
  | setdefault
  | update
  | values
  deriving DecidableEq, Repr

namespace DictMethod

/-- In the order of their names. -/
def all : List DictMethod := [get, items, keys, pop, setdefault, update, values]

def name : DictMethod → String
  | get => "get"
  | items => "items"
  | keys => "keys"
  | pop => "pop"
  | setdefault => "setdefault"
  | update => "update"
  | values => "values"

def ofName? (word : String) : Option DictMethod := all.find? fun m => m.name = word

end DictMethod

end Console
