import Console.History

/-!
# Last-word recall

Each recall puts the last word of an older entry at the end of the line, in place of the word that
the recall before it put there.
-/

namespace Console

/-- What the last recall did. -/
inductive Recall
  | idle
  /-- `word` came from the entry `back` places before the newest. -/
  | inserted (back : Nat) (word : String)
  deriving DecidableEq, Repr

namespace Recall

/-- `line` without `word` behind it, or all of it if it does not end so. -/
def withoutEnd (line word : String) : String :=
  if word.toList.isSuffixOf line.toList then
    String.ofList (line.toList.take (line.toList.length - word.toList.length))
  else line

/-- The cursor and the line after one recall; nothing if there is no history. -/
def next (r : Recall) (h : History) (line : String) : Option (Recall × String) :=
  if h.entries.isEmpty then none
  else
    let (back, base) :=
      match r with
      | .idle => (0, line)
      | .inserted back word => (min (back + 1) (h.size - 1), withoutEnd line word)
    let word :=
      match (h.fromEnd? back).bind fun entry => Text.lastWord? entry.toList with
      | some w => String.ofList w
      | none => ""
    some (.inserted back word, base ++ word)

end Recall

end Console
