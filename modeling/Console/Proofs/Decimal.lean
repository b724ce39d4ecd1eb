import Console.Decimal.Reading
import Mathlib.Tactic.IntervalCases

/-!
# Whole numbers and their digits

The digits of a number in a radix are read as the number, also behind zeros. A machine integer is found
again from its value, and so is its magnitude, unless it is the least one; behind its sign the digits of
the magnitude are read as the integer, the least one included.
-/

namespace Console.Decimal

theorem toInt64?_toInt (n : Int64) : toInt64? n.toInt = some n := by
  have inside : fits n.toInt = true := by
    rw [fits, Bool.and_eq_true]
    exact ⟨decide_eq_true n.minValue_le_toInt, decide_eq_true n.toInt_le⟩
  rw [toInt64?, if_pos inside, Int64.ofInt_toInt]

/-- The magnitude of a number, as a machine integer. -/
def magnitude (n : Int64) : Int64 := .ofInt n.toInt.natAbs

theorem toInt_magnitude {n : Int64} (apart : n ≠ Int64.minValue) :
    (magnitude n).toInt = n.toInt.natAbs := by
  have low := n.minValue_le_toInt
  have high := n.toInt_le
  have other : n.toInt ≠ Int64.minValue.toInt := fun same => apart (Int64.toInt.inj same)
  refine Int64.toInt_ofInt_of_le ?_ ?_
  all_goals
    simp only [show Int64.minValue.toInt = -2 ^ 63 from rfl,
      show Int64.maxValue.toInt = 2 ^ 63 - 1 from rfl] at low high other ⊢
    omega

theorem toInt64?_magnitude {n : Int64} (apart : n ≠ Int64.minValue) :
    toInt64? n.toInt.natAbs = .some (magnitude n) := by
  rw [← toInt_magnitude apart, toInt64?_toInt]

theorem digitValue?_digitChar {radix d : Nat} (digit : d < radix) (small : radix ≤ 16) :
    digitValue? radix d.digitChar = some d := by
  have below : d < 16 := by omega
  interval_cases d <;> exact if_pos digit

/-- A digit is a letter or a numeral. -/
theorem isAlphanum_of_digitValue? {radix d : Nat} {c : Char} (value : digitValue? radix c = some d) :
    c.isAlphanum = true := by
  unfold digitValue? at value
  change (c.isUpper || c.isLower || c.isDigit) = true
  by_cases digit : c.isDigit
  · simp [digit]
  · by_cases lower : c.isLower
    · simp [lower]
    · by_cases upper : c.isUpper
      · simp [upper]
      · simp [digit, lower, upper] at value

theorem foldlM_toDigits {radix : Nat} (low : 1 < radix) (small : radix ≤ 16) (n : Nat) :
    (Nat.toDigits radix n).foldlM (fun n c => (digitValue? radix c).map (n * radix + ·)) 0 =
      some n := by
  induction n using Nat.strongRecOn with
  | ind n ih =>
    rw [Nat.toDigits_eq_if low]
    by_cases below : n < radix
    · simp [below, digitValue?_digitChar below small]
    · have shorter : n / radix < n := Nat.div_lt_self (by omega) low
      have last := digitValue?_digitChar (Nat.mod_lt n (by omega)) small
      rw [if_neg below, List.foldlM_append, ih _ shorter]
      simp [last, Nat.div_add_mod']

theorem readNat?_toDigits {radix : Nat} (low : 1 < radix) (small : radix ≤ 16) (n : Nat) :
    readNat? radix (Nat.toDigits radix n) = some n := by
  have digits := foldlM_toDigits low small n
  rw [readNat?, if_neg (by simp [Nat.toDigits_ne_nil]), digits]

/-- Zeros in front of a number change nothing. -/
theorem readNat?_zeros {radix : Nat} (low : 1 < radix) (zeros : Nat) {s : List Char} {n : Nat}
    (reads : readNat? radix s = some n) :
    readNat? radix (List.replicate zeros '0' ++ s) = some n := by
  have zero : digitValue? radix '0' = some 0 := if_pos (Nat.zero_lt_of_lt low)
  induction zeros with
  | zero => exact reads
  | succ zeros ih =>
    by_cases empty : List.replicate zeros '0' ++ s = []
    · simp [empty, readNat?] at ih
    · simp only [readNat?, List.isEmpty_iff, empty, if_false] at ih
      simpa [readNat?, List.replicate_succ, zero, -List.foldlM_append] using ih

theorem isAlphanum_of_readNat? {radix n : Nat} {s : List Char} (reads : readNat? radix s = some n) :
    ∀ c ∈ s, c.isAlphanum = true := by
  have digits (s : List Char) (start : Nat)
      (reads : s.foldlM (fun n c => (digitValue? radix c).map (n * radix + ·)) start = some n) :
      ∀ c ∈ s, c.isAlphanum = true := by
    induction s generalizing start with
    | nil => simp
    | cons c s ih =>
      rw [List.foldlM_cons] at reads
      obtain ⟨next, first, others⟩ := Option.bind_eq_some_iff.1 reads
      obtain ⟨value, digit, -⟩ := Option.map_eq_some_iff.1 first
      intro d mem
      rcases List.mem_cons.1 mem with rfl | mem
      · exact isAlphanum_of_digitValue? digit
      · exact ih next others d mem
  rw [readNat?] at reads
  split at reads
  · cases reads
  · exact digits s 0 reads

theorem isDigit_toDigits (n : Nat) : ∀ c ∈ Nat.toDigits 10 n, c.isDigit = true :=
  fun _ mem => Nat.isDigit_of_mem_toDigits (by decide) (by decide) mem

theorem toDigits_eq_cons (n : Nat) :
    ∃ d digits, Nat.toDigits 10 n = d :: digits ∧ d.isDigit = true := by
  cases digits : Nat.toDigits 10 n with
  | nil => exact absurd digits (List.ne_nil_of_length_pos Nat.length_toDigits_pos)
  | cons d others => exact ⟨d, others, rfl, isDigit_toDigits n d (by simp [digits])⟩

/-- A number is written with the digits of its magnitude, behind a sign if it is below zero. -/
theorem toList_toString (n : Int) :
    (toString n).toList = (if n < 0 then ['-'] else []) ++ Nat.toDigits 10 n.natAbs := by
  cases n with
  | ofNat m => exact Nat.toList_repr
  | negSucc m =>
    rw [show toString (Int.negSucc m) = "-" ++ (m + 1).repr from rfl, String.toList_append,
      Nat.toList_repr, if_pos (Int.negSucc_lt_zero m)]
    rfl

theorem readInt64?_toDigits (n : Nat) : readInt64? 10 (Nat.toDigits 10 n) = toInt64? n := by
  have digits := isDigit_toDigits n
  have read : readNat? 10 (Nat.toDigits 10 n) = some n := readNat?_toDigits (by decide) (by decide) n
  unfold readInt64?
  split
  case h_1 same | h_2 same =>
    rw [same] at digits
    exact absurd (digits _ List.mem_cons_self) (by decide)
  case h_3 => rw [read]; rfl

/-- The digits of a magnitude, behind a minus sign if the number is below zero. -/
theorem readInt64?_signed {radix : Nat} {digits : List Char} {n : Int64}
    (reads : readNat? radix digits = some n.toInt.natAbs) :
    readInt64? radix ((if n.toInt < 0 then ['-'] else []) ++ digits) = some n := by
  by_cases negative : n.toInt < 0
  · have same : -(n.toInt.natAbs : Int) = n.toInt := by omega
    simp only [negative, if_true, List.singleton_append, readInt64?, reads, Option.bind_some, same,
      toInt64?_toInt]
  · have same : (n.toInt.natAbs : Int) = n.toInt := by omega
    have alphanumeric := isAlphanum_of_readNat? reads
    simp only [negative, if_false, List.nil_append]
    unfold readInt64?
    split
    · exact absurd (alphanumeric '-' (by simp)) (by decide)
    · exact absurd (alphanumeric '+' (by simp)) (by decide)
    · simp [reads, same, toInt64?_toInt]

/-- What is read as a number holds nothing but letters, numerals and a sign. -/
theorem isAlphanum_of_readInt64? {radix : Nat} {s : List Char} {n : Int64}
    (reads : readInt64? radix s = some n) :
    ∀ c ∈ s, c = '-' ∨ c = '+' ∨ c.isAlphanum = true := by
  intro c mem
  unfold readInt64? at reads
  split at reads
  all_goals
    obtain ⟨magnitude, digits, -⟩ := Option.bind_eq_some_iff.1 reads
    have alphanumeric := isAlphanum_of_readNat? digits
    grind

end Console.Decimal
