import Console.Config.Toml
import Console.History
import Console.Session

/-!
# Configuration

The settings of a console, read from a settings file. Keys that are missing keep their defaults;
keys that are unknown, and values of the wrong kind, make the file invalid.
-/

namespace Console

structure Config where
  /-- The command that starts the editor. -/
  editor : Option String
  tabLength : Nat
  /-- The greatest number of history entries. -/
  historyLength : Nat
  historyFile : Option String
  /-- Whether lines are highlighted. -/
  color : Bool
  deriving DecidableEq, Repr

/-- Why a settings file is refused. -/
inductive ConfigFault
  | malformed
  | zeroTabLength
  deriving DecidableEq, Repr

/-- What is said about a file that is well formed and yet refused. -/
def ConfigFault.message? : ConfigFault → Option String
  | .malformed => none
  | .zeroTabLength => some "tab_length must be at least 1"

namespace Config

def default : Config := ⟨none, Session.defaultTabLength, History.defaultCapacity, none, true⟩

/-- The greatest length that a setting takes. -/
def maxLength : Nat := UInt64.size - 1

def length? : Toml.Value → Option Nat
  | .whole n => if 0 ≤ n ∧ n ≤ maxLength then some n.toNat else none
  | _ => none

def text? : Toml.Value → Option String
  | .text s => some s
  | _ => none

def truth? : Toml.Value → Option Bool
  | .truth b => some b
  | _ => none

/-- Changes one setting. -/
def set? (c : Config) (entry : String × Toml.Value) : Option Config :=
  match entry with
  | ("editor", v) => (text? v).map fun s => { c with editor := some s }
  | ("tab_length", v) => (length? v).map fun n => { c with tabLength := n }
  | ("hist_length", v) => (length? v).map fun n => { c with historyLength := n }
  | ("hist_file", v) => (text? v).map fun s => { c with historyFile := some s }
  | ("color", v) => (truth? v).map fun b => { c with color := b }
  | _ => none

/-- The settings of a file. -/
def load (file : String) : Except ConfigFault Config :=
  match (Toml.read? file).bind fun entries => entries.foldlM set? default with
  | none => .error .malformed
  | some c => if c.tabLength = 0 then .error .zeroTabLength else .ok c

/-- The lengths are machine numbers. -/
def Fits (c : Config) : Prop := c.tabLength ≤ maxLength ∧ c.historyLength ≤ maxLength

theorem length?_le {v : Toml.Value} {n : Nat} (read : length? v = some n) : n ≤ maxLength := by
  cases v with
  | whole m =>
    rw [length?] at read
    split at read
    · cases read
      omega
    · cases read
  | text | truth => cases read

theorem Fits.set? {c c' : Config} {entry : String × Toml.Value} (fits : c.Fits)
    (changed : c.set? entry = some c') : c'.Fits := by
  unfold Config.set? at changed
  split at changed
  · obtain ⟨_, -, rfl⟩ := Option.map_eq_some_iff.1 changed
    exact fits
  · obtain ⟨n, read, rfl⟩ := Option.map_eq_some_iff.1 changed
    exact ⟨length?_le read, fits.2⟩
  · obtain ⟨n, read, rfl⟩ := Option.map_eq_some_iff.1 changed
    exact ⟨fits.1, length?_le read⟩
  · obtain ⟨_, -, rfl⟩ := Option.map_eq_some_iff.1 changed
    exact fits
  · obtain ⟨_, -, rfl⟩ := Option.map_eq_some_iff.1 changed
    exact fits
  · cases changed

theorem Fits.setAll {c c' : Config} {entries : List (String × Toml.Value)} (fits : c.Fits)
    (changed : entries.foldlM Config.set? c = some c') : c'.Fits := by
  induction entries generalizing c with
  | nil =>
    cases changed
    exact fits
  | cons entry entries ih =>
    rw [List.foldlM_cons] at changed
    obtain ⟨next, first, others⟩ := Option.bind_eq_some_iff.1 changed
    exact ih (fits.set? first) others

/-- Settings that are accepted have lengths that fit, and indent by one column at least. -/
theorem load_fits {file : String} {c : Config} (loaded : load file = .ok c) :
    c.Fits ∧ 0 < c.tabLength := by
  unfold load at loaded
  split at loaded
  · cases loaded
  · rename_i c' read
    obtain ⟨entries, -, changed⟩ := Option.bind_eq_some_iff.1 read
    split at loaded
    · cases loaded
    · rename_i indents
      cases loaded
      exact ⟨Fits.setAll ⟨by decide, by decide⟩ changed, Nat.pos_of_ne_zero indents⟩

end Config

end Console
