import Console.Evaluator
import Console.Program

/-!
# Running units

A unit is compiled and then run on a machine, under the features that were on before and its own.
What it prints and the report of a failure are its result; what it bound stays bound.
-/

namespace Console

/-- What came of a unit. -/
structure Execution where
  stdout : String
  /-- The report of a syntax error or of an exception; empty on success. -/
  stderr : String
  /-- The features in force after the unit. -/
  features : Features
  deriving DecidableEq, Repr

def Execution.succeeded (e : Execution) : Bool := e.stderr.isEmpty

namespace Machine

/-- More steps than any evaluation takes that ends within a lifetime. -/
def ampleSteps : Nat := Nat.pow 2 62

/-- The report of an evaluation that was given up. -/
def gaveUp : String := "evaluation ran out of steps\n"

/-- The report of an evaluation that ended the process. -/
def brokeOff : String := "evaluation broke off\n"

/-- Runs a program. -/
def runProgram (m : Machine) (steps : Nat) (echo : Bool) (features : Features)
    (p : Program) : Execution × Machine :=
  let features := features.union p.future
  let started := { m with features, output := "", depth := 0 }
  let (stderr, ended) :=
    match Evaluator.execModule steps echo p.body started with
    | .ok () m => ("", m)
    | .error (.raised e) m => (e.traceback, m)
    | .error .exhausted m => (gaveUp, m)
    | .error .crashed m => (brokeOff, m)
  (⟨ended.output, stderr, features⟩, { ended with output := "" })

/-- Compiles and runs a source text. One that does not compile changes nothing. -/
def run (m : Machine) (source : String) (mode : Token.Mode) (features : Features) :
    Execution × Machine :=
  match Program.compile source mode with
  | .error e => (⟨"", e.render source, features⟩, m)
  | .ok p => m.runProgram ampleSteps (mode = .single) features p

/-- Runs an interactive unit, which shows the values of its expression statements. -/
def execute (m : Machine) (unit : String) (features : Features) : Execution × Machine :=
  m.run unit .single features

/-- Runs a whole script. -/
def runScript (m : Machine) (source : String) (features : Features) : Execution × Machine :=
  m.run source .script features

/-- The names that top-level code can use, in order. -/
def names (m : Machine) : List String :=
  Builtin.inOrder (m.globals.names ++ m.builtins.names)

end Machine

end Console
