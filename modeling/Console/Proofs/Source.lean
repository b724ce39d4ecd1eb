import Console.Source
import Console.Text
import Console.Text.Letters

/-!
# A text that goes on behind a line end

What a reader finds in the rest of a line does not change when a line end and more text are put
behind it, as long as the reader does not pass line ends.
-/

namespace Console

variable {s tail more : List Char} {p : Char → Bool}

/-- What a reader takes is not longer for a text behind it that begins with nothing it takes. -/
theorem takeWhile_stopped (stops : ∀ ch ∈ tail.head?, p ch = false) :
    (s ++ tail).takeWhile p = s.takeWhile p := by
  induction s with
  | nil => cases tail <;> simp_all
  | cons c s ih => rw [List.cons_append, List.takeWhile_cons, List.takeWhile_cons, ih]

theorem dropWhile_stopped (stops : ∀ ch ∈ tail.head?, p ch = false) :
    (s ++ tail).dropWhile p = s.dropWhile p ++ tail := by
  induction s with
  | nil => cases tail <;> simp_all
  | cons c s ih =>
    rw [List.cons_append, List.dropWhile_cons, List.dropWhile_cons, ih]
    split <;> rfl

/-- A word begins the longer text where it begins the shorter one. -/
theorem isPrefixOf_stopped {word : List Char} (stops : ∀ ch ∈ tail.head?, ch ∉ word) :
    word.isPrefixOf (s ++ tail) = word.isPrefixOf s := by
  induction word generalizing s with
  | nil => rfl
  | cons c word ih =>
    cases s with
    | nil =>
      cases tail with
      | nil => rfl
      | cons d tail =>
        have other : (c == d) = false := by
          rw [beq_eq_false_iff_ne]
          rintro rfl
          exact stops c rfl List.mem_cons_self
        simp [List.isPrefixOf, other]
    | cons d s =>
      rw [List.cons_append, List.isPrefixOf, List.isPrefixOf,
        ih fun ch first mem => stops ch first (List.mem_cons_of_mem c mem)]

theorem takeWhile_lineEnd (stops : p '\n' = false) :
    (s ++ '\n' :: more).takeWhile p = s.takeWhile p :=
  takeWhile_stopped (by simpa using stops)

theorem dropWhile_lineEnd (stops : p '\n' = false) :
    (s ++ '\n' :: more).dropWhile p = s.dropWhile p ++ '\n' :: more :=
  dropWhile_stopped (by simpa using stops)

theorem takeWhile_take_lineEnd (stops : p '\n' = false) (n : Nat) :
    ((s ++ '\n' :: more).take n).takeWhile p = (s.take n).takeWhile p := by
  induction s generalizing n with
  | nil => cases n <;> simp [stops]
  | cons c s ih =>
    cases n with
    | zero => rfl
    | succ n =>
      rw [List.cons_append, List.take_succ_cons, List.take_succ_cons, List.takeWhile_cons,
        List.takeWhile_cons, ih]

theorem length_takeWhile_le : (s.takeWhile p).length ≤ s.length :=
  (List.takeWhile_sublist p).length_le

/-- A text without line ends begins the longer text where it begins the shorter one. -/
theorem isPrefixOf_lineEnd {word : List Char} (inline : '\n' ∉ word) :
    word.isPrefixOf (s ++ '\n' :: more) = word.isPrefixOf s :=
  isPrefixOf_stopped (by simpa using inline)

theorem Position.past_append (p : Position) (text text' : List Char) :
    p.past (text ++ text') = (p.past text).past text' :=
  List.foldl_append

namespace Cursor

variable {c c' c'' : Cursor}

/-- The same place in the text that goes on. -/
def followed (c : Cursor) (more : List Char) : Cursor := ⟨c.rest ++ '\n' :: more, c.pos⟩

@[simp] theorem rest_followed : (c.followed more).rest = c.rest ++ '\n' :: more := rfl

@[simp] theorem pos_followed : (c.followed more).pos = c.pos := rfl

theorem drop_followed {n : Nat} (le : n ≤ c.rest.length) :
    (c.followed more).drop n = (c.drop n).followed more := by
  simp [drop, followed, List.drop_append_of_le_length le, List.take_append_of_le_length le]

theorem dropWhile_followed (stops : p '\n' = false) :
    (c.followed more).dropWhile p = (c.dropWhile p).followed more := by
  simp [dropWhile, followed, dropWhile_lineEnd stops, takeWhile_lineEnd stops]

/-- Nothing is left to pass. -/
theorem dropWhile_nil (done : c.rest = []) (p : Char → Bool) : c.dropWhile p = c := by
  obtain ⟨rest, pos⟩ := c
  subst done
  rfl

/-- The second cursor stands behind a text that is passed from the first one. -/
def Reaches (c c' : Cursor) : Prop :=
  ∃ passed, c.rest = passed ++ c'.rest ∧ c'.pos = c.pos.past passed

theorem reaches_drop (c : Cursor) (n : Nat) : c.Reaches (c.drop n) :=
  ⟨c.rest.take n, (List.take_append_drop n c.rest).symm, rfl⟩

theorem reaches_dropWhile (c : Cursor) (p : Char → Bool) : c.Reaches (c.dropWhile p) :=
  ⟨c.rest.takeWhile p, List.takeWhile_append_dropWhile.symm, rfl⟩

namespace Reaches

theorem refl (c : Cursor) : c.Reaches c := ⟨[], rfl, rfl⟩

theorem trans (first : c.Reaches c') (next : c'.Reaches c'') : c.Reaches c'' := by
  obtain ⟨passed, rest, pos⟩ := first
  obtain ⟨passed', rest', pos'⟩ := next
  refine ⟨passed ++ passed', ?_, ?_⟩
  · rw [rest, rest', List.append_assoc]
  · rw [pos', pos, Position.past_append]

theorem suffix (reaches : c.Reaches c') : c'.rest <:+ c.rest := by
  obtain ⟨passed, rest, -⟩ := reaches
  exact ⟨passed, rest.symm⟩

end Reaches

theorem suffix_drop (c : Cursor) (n : Nat) : (c.drop n).rest <:+ c.rest := List.drop_suffix n c.rest

theorem suffix_dropWhile (c : Cursor) (p : Char → Bool) : (c.dropWhile p).rest <:+ c.rest :=
  List.dropWhile_suffix p

end Cursor

/-! ## Where words stop

No word, numeral or operator goes on over a blank, or over what starts a comment or joins lines.
-/

namespace Text

/-- A blank, or what starts a comment or joins two lines. -/
def isStop (ch : Char) : Bool := isBlank ch || ch == '#' || ch == '\\'

/-- All characters at which words stop. -/
def stops : List Char :=
  ['\t', '\n', '\x0b', '\x0c', '\r', ' ', '#', '\\', '\u0085', '\u00a0', '\u1680', '\u2000', '\u2001',
   '\u2002', '\u2003', '\u2004', '\u2005', '\u2006', '\u2007', '\u2008', '\u2009', '\u200a', '\u2028',
   '\u2029', '\u202f', '\u205f', '\u3000']

theorem mem_stops {ch : Char} (h : isStop ch = true) : ch ∈ stops := by
  have codes : stops.map Char.toNat = [9, 10, 11, 12, 13, 32, 35, 92, 133, 160, 5760, 8192, 8193,
      8194, 8195, 8196, 8197, 8198, 8199, 8200, 8201, 8202, 8232, 8233, 8239, 8287, 12288] := by
    decide
  simp only [isStop, isBlank, Bool.or_eq_true, Bool.and_eq_true, decide_eq_true_eq, beq_iff_eq] at h
  have code : ch.toNat ∈ stops.map Char.toNat := by
    rw [codes]
    simp only [List.mem_cons, List.not_mem_nil]
    rcases h with (h | rfl) | rfl
    · omega
    · decide
    · decide
  obtain ⟨d, mem, same⟩ := List.mem_map.1 code
  rwa [show ch = d from (Char.toNat_inj.1 same).symm]

/-- The text is at its end or at a character that stops a word. -/
def Stopped (tail : List Char) : Prop := ∀ ch ∈ tail.head?, isStop ch = true

namespace Stopped

variable {p : Char → Bool} {tail : List Char}

theorem nil : Stopped [] := by
  intro ch first
  cases first

theorem cons {ch : Char} (stop : isStop ch = true) (tail : List Char) : Stopped (ch :: tail) := by
  intro d first
  cases first
  exact stop

/-- What holds of none of these characters does not hold where the text goes on. -/
theorem not (stopped : Stopped tail) (fails : stops.any p = false) : ∀ ch ∈ tail.head?, p ch = false :=
  fun ch first => Bool.eq_false_iff.2 (List.any_eq_false.1 fails ch (mem_stops (stopped ch first)))

theorem takeWhile (stopped : Stopped tail) (fails : stops.any p = false) (s : List Char) :
    (s ++ tail).takeWhile p = s.takeWhile p :=
  takeWhile_stopped (stopped.not fails)

end Stopped

theorem any_stops_isNamePart : stops.any isNamePart = false := by decide +kernel

end Text

end Console
