import Mathlib.Algebra.Order.Floor.Ring
import Mathlib.Data.Rat.Floor
import Mathlib.Tactic.Linarith
import Console.Arithmetic

/-!
# Division of whole numbers

The machine divides to zero and corrects what it finds to the floor. It does so exactly, and through
numbers that all fit, wherever the quotient to zero does.
-/

namespace Console.Arithmetic

variable {x y : Int64}

theorem fits_iff (n : Int) : Decimal.fits n = true ↔ -2 ^ 63 ≤ n ∧ n < 2 ^ 63 := by
  rw [Decimal.fits, Bool.and_eq_true, decide_eq_true_iff, decide_eq_true_iff]
  simp only [show Int64.minValue.toInt = -2 ^ 63 from rfl,
    show Int64.maxValue.toInt = 2 ^ 63 - 1 from rfl]
  omega

theorem fits_toInt (n : Int64) : Decimal.fits n.toInt = true :=
  (fits_iff _).2 ⟨n.le_toInt, n.toInt_lt⟩

theorem checked_of_fits {n : Int} (fits : Decimal.fits n = true) : checked n = .ok (.ofInt n) := by
  rw [checked, Decimal.toInt64?, if_pos fits]

theorem checked_of_not_fits {n : Int} (outside : Decimal.fits n = false) :
    checked n = .error .integerOverflow := by
  rw [checked, Decimal.toInt64?, outside, if_neg Bool.false_ne_true]

theorem toInt_ofInt {n : Int} (fits : Decimal.fits n = true) : (Int64.ofInt n).toInt = n :=
  Int64.toInt_ofInt_of_le ((fits_iff n).1 fits).1 ((fits_iff n).1 fits).2

theorem checked_toInt (n : Int64) : checked n.toInt = .ok n := by
  rw [checked_of_fits (fits_toInt n), Int64.ofInt_toInt]

theorem checked_eq_ok_iff {n : Int} {m : Int64} : checked n = .ok m ↔ m.toInt = n := by
  constructor
  · intro run
    cases fits : Decimal.fits n with
    | true =>
      rw [checked_of_fits fits] at run
      cases run
      exact toInt_ofInt fits
    | false =>
      rw [checked_of_not_fits fits] at run
      cases run
  · rintro rfl
    exact checked_toInt m

theorem checked_eq_error_iff {n : Int} {fault : Fault} :
    checked n = .error fault ↔ Decimal.fits n = false ∧ fault = .integerOverflow := by
  cases fits : Decimal.fits n with
  | true => simp [checked_of_fits fits]
  | false => simp [checked_of_not_fits fits, eq_comm]

theorem bmod_of_fits {n : Int} (fits : Decimal.fits n = true) : n.bmod (2 ^ 64) = n := by
  obtain ⟨low, high⟩ := (fits_iff n).1 fits
  exact Int.bmod_eq_of_le (by norm_num; omega) (by norm_num; omega)

theorem toInt_add (fits : Decimal.fits (x.toInt + y.toInt) = true) :
    (x + y).toInt = x.toInt + y.toInt := by rw [Int64.toInt_add, bmod_of_fits fits]

theorem toInt_sub (fits : Decimal.fits (x.toInt - y.toInt) = true) :
    (x - y).toInt = x.toInt - y.toInt := by rw [Int64.toInt_sub, bmod_of_fits fits]

theorem toInt_mul (fits : Decimal.fits (x.toInt * y.toInt) = true) :
    (x * y).toInt = x.toInt * y.toInt := by rw [Int64.toInt_mul, bmod_of_fits fits]

theorem toInt_ne_zero (apart : x ≠ 0) : x.toInt ≠ 0 := fun zero => apart (Int64.toInt_inj.1 zero)

theorem fits_of_checked {n : Int} {m : Int64} (run : checked n = .ok m) : Decimal.fits n = true := by
  rw [← checked_eq_ok_iff.1 run, fits_toInt]

/-- A quotient rounded to the floor, and its remainder: that lies between zero and the divisor. -/
structure Floored (x y q r : Int) : Prop where
  whole : x = q * y + r
  positive : 0 < y → 0 ≤ r ∧ r < y
  negative : y < 0 → y < r ∧ r ≤ 0

theorem Floored.floor_eq {x y q r : Int} (floored : Floored x y q r) (nonzero : y ≠ 0) :
    ⌊(x : ℚ) / y⌋ = q := by
  have whole : (x : ℚ) = q * y + r := by exact_mod_cast floored.whole
  rw [Int.floor_eq_iff]
  rcases lt_or_gt_of_ne nonzero with negative | positive
  · have below : (y : ℚ) < 0 := by exact_mod_cast negative
    obtain ⟨low, high⟩ := floored.negative negative
    rw [le_div_iff_of_neg below, div_lt_iff_of_neg below, whole]
    constructor
    · have : (r : ℚ) ≤ 0 := by exact_mod_cast high
      linarith
    · have : (y : ℚ) < r := by exact_mod_cast low
      linarith
  · have above : (0 : ℚ) < y := by exact_mod_cast positive
    obtain ⟨low, high⟩ := floored.positive positive
    rw [le_div_iff₀ above, div_lt_iff₀ above, whole]
    constructor
    · have : (0 : ℚ) ≤ r := by exact_mod_cast low
      linarith
    · have : (r : ℚ) < y := by exact_mod_cast high
      linarith

/-- A number that the machine computes, and the one that it stands for. -/
structure Step where
  computed : Int64
  meant : Int

def Step.Exact (s : Step) : Prop := s.computed.toInt = s.meant

/-- Whether the quotient to zero lies above the one to the floor. -/
def RoundedUp (x y : Int64) : Prop := x % y ≠ 0 ∧ decide (x < 0) ≠ decide (y < 0)

instance : Decidable (RoundedUp x y) := inferInstanceAs (Decidable (_ ∧ _))

/-- Division computes the quotient to zero and its remainder, and corrects them where the floor is
another one. -/
def divisionSteps (x y : Int64) : List Step :=
  [⟨x / y, x.toInt.tdiv y.toInt⟩, ⟨x % y, x.toInt.tmod y.toInt⟩] ++
    if RoundedUp x y then
      [⟨x / y - 1, (x / y).toInt - 1⟩, ⟨x % y + y, (x % y).toInt + y.toInt⟩]
    else []

/-- A calculation that writes down the numbers it computes. -/
abbrev Recorded := StateT (List Step) (Except Fault)

namespace Recorded

/-- Computes a number. -/
def note (computed : Int64) (meant : Int) : Recorded Int64 :=
  fun before => .ok (computed, before ++ [⟨computed, meant⟩])

/-- Computes a number and lets it through if it is the exact one. -/
def checked (meant : Int) : Recorded Int64 := do
  let result ← Arithmetic.checked meant
  note result meant

/-- Division to the floor, number by number. -/
def floorDiv (x y : Int64) : Recorded Int64 :=
  if y = 0 then throw .integerDivision
  else do
    checkQuotient x y
    let quotient ← note (x / y) (x.toInt.tdiv y.toInt)
    let remainder ← note (x % y) (x.toInt.tmod y.toInt)
    if remainder ≠ 0 ∧ decide (x < 0) ≠ decide (y < 0) then note (quotient - 1) (quotient.toInt - 1)
    else return quotient

/-- The remainder by the floor, number by number. -/
def floorMod (x y : Int64) : Recorded Int64 :=
  if y = 0 then throw .integerDivision
  else do
    checkQuotient x y
    let remainder ← note (x % y) (x.toInt.tmod y.toInt)
    if remainder ≠ 0 ∧ decide (remainder < 0) ≠ decide (y < 0) then
      note (remainder + y) (remainder.toInt + y.toInt)
    else return remainder

/-- A calculation comes to a result, and computes no other numbers than these on the way. -/
def Takes (steps : List Step) (calculation : Recorded Int64) (result : Except Fault Int64) : Prop :=
  ∃ taken : List Step, taken.Sublist steps ∧
    ∀ before, calculation before = result.map (·, before ++ taken)

theorem Takes.failed {steps : List Step} {calculation : Recorded Int64} {fault : Fault}
    (fails : ∀ before, calculation before = .error fault) :
    Takes steps calculation (.error fault) := ⟨[], List.nil_sublist _, fails⟩

theorem checked_takes {computed : Int64} {meant : Int}
    (computes : Decimal.fits meant = true → computed.toInt = meant) :
    Takes [⟨computed, meant⟩] (checked meant) (Arithmetic.checked meant) := by
  unfold checked
  cases fits : Decimal.fits meant with
  | false =>
    rw [checked_of_not_fits fits]
    exact .failed fun _ => rfl
  | true =>
    rw [← computes fits, checked_toInt]
    exact ⟨[_], .refl _, fun _ => rfl⟩

end Recorded

theorem toInt_quotient (fits : ¬(x = Int64.minValue ∧ y = -1)) :
    (x / y).toInt = x.toInt.tdiv y.toInt := by
  by_cases least : x = Int64.minValue
  · exact Int64.toInt_div_of_ne_right x y fun same => fits ⟨least, same⟩
  · exact Int64.toInt_div_of_ne_left x y least

theorem natAbs_toInt_le (n : Int64) : n.toInt.natAbs ≤ 2 ^ 63 := by
  have low := n.le_toInt
  have high := n.toInt_lt
  omega

/-- The remainder to zero is on the side of the dividend. -/
theorem remainder_neg_iff (remains : x % y ≠ 0) : x % y < 0 ↔ x < 0 := by
  have remains : x.toInt.tmod y.toInt ≠ 0 := by
    rw [← Int64.toInt_mod]
    exact fun zero => remains (Int64.toInt_inj.1 zero)
  rw [Int64.lt_iff_toInt_lt, Int64.lt_iff_toInt_lt, Int64.toInt_mod]
  have zero : (0 : Int64).toInt = 0 := rfl
  rcases Int.le_total 0 x.toInt with above | below
  · have := Int.tmod_nonneg y.toInt above
    omega
  · have := Int.tmod_nonneg y.toInt (Int.neg_nonneg_of_nonpos below)
    rw [Int.neg_tmod] at this
    have : x.toInt ≠ 0 := fun zero => remains (by rw [zero, Int.zero_tmod])
    omega

theorem remainder_lt (nonzero : y ≠ 0) : (x % y).toInt.natAbs < y.toInt.natAbs := by
  have : y.toInt ≠ 0 := fun zero => nonzero (Int64.toInt_inj.1 zero)
  rw [Int64.toInt_mod, Int.natAbs_tmod]
  exact Nat.mod_lt _ (by omega)

/-- A quotient that leaves a remainder is smaller than the dividend. -/
theorem quotient_lt (nonzero : y ≠ 0) (remains : x % y ≠ 0) :
    (x.toInt.tdiv y.toInt).natAbs < x.toInt.natAbs := by
  have divisor : 0 < y.toInt.natAbs :=
    Int.natAbs_pos.2 fun zero => nonzero (Int64.toInt_inj.1 zero)
  have remainder : 0 < x.toInt.natAbs % y.toInt.natAbs := by
    rw [← Int.natAbs_tmod, ← Int64.toInt_mod]
    exact Int.natAbs_pos.2 fun zero => remains (Int64.toInt_inj.1 zero)
  rw [Int.natAbs_tdiv]
  calc x.toInt.natAbs / y.toInt.natAbs
      ≤ y.toInt.natAbs * (x.toInt.natAbs / y.toInt.natAbs) := Nat.le_mul_of_pos_left _ divisor
    _ < y.toInt.natAbs * (x.toInt.natAbs / y.toInt.natAbs) + x.toInt.natAbs % y.toInt.natAbs :=
      Nat.lt_add_of_pos_right remainder
    _ = x.toInt.natAbs := Nat.div_add_mod _ _

/-- The quotient was rounded up where the remainder strays from the side of the divisor. -/
theorem roundedUp_iff :
    RoundedUp x y ↔ x % y ≠ 0 ∧ decide (x % y < 0) ≠ decide (y < 0) :=
  and_congr_right fun remains => by rw [decide_eq_decide.2 (remainder_neg_iff remains)]

theorem RoundedUp.sides (up : RoundedUp x y) (nonzero : y ≠ 0) :
    (x % y).toInt < 0 ∧ 0 < y.toInt ∨ 0 < (x % y).toInt ∧ y.toInt < 0 := by
  obtain ⟨remains, strays⟩ := roundedUp_iff.1 up
  have remainder := toInt_ne_zero remains
  have divisor := toInt_ne_zero nonzero
  have zero : (0 : Int64).toInt = 0 := rfl
  simp only [ne_eq, decide_eq_decide, Int64.lt_iff_toInt_lt, zero] at strays
  omega

theorem sides_of_not_roundedUp (stays : ¬RoundedUp x y) :
    (x % y).toInt ≠ 0 → ((x % y).toInt < 0 ↔ y.toInt < 0) := by
  intro remains
  have zero : (0 : Int64).toInt = 0 := rfl
  by_contra differ
  refine stays (roundedUp_iff.2 ⟨fun vanishes => remains (by rw [vanishes, zero]), ?_⟩)
  simpa only [ne_eq, decide_eq_decide, Int64.lt_iff_toInt_lt, zero] using differ

/-- The quotient that was rounded up has a number below it. -/
theorem RoundedUp.toInt_lowered (up : RoundedUp x y) (nonzero : y ≠ 0)
    (fits : ¬(x = Int64.minValue ∧ y = -1)) : (x / y - 1).toInt = (x / y).toInt - 1 := by
  have quotient := toInt_quotient fits
  have less := quotient_lt nonzero up.1
  have dividend := natAbs_toInt_le x
  have one : (1 : Int64).toInt = 1 := rfl
  rw [toInt_sub, one]
  rw [fits_iff, one, quotient]
  omega

/-- The remainder on the other side than the divisor does not leave the numbers when it is moved. -/
theorem RoundedUp.toInt_moved (up : RoundedUp x y) (nonzero : y ≠ 0) :
    (x % y + y).toInt = (x % y).toInt + y.toInt := by
  have sides := up.sides nonzero
  have remainder := natAbs_toInt_le (x % y)
  have divisor := natAbs_toInt_le y
  refine toInt_add ((fits_iff _).2 ?_)
  omega

/-- The remainder that a division to zero leaves. -/
theorem quotient_remainder (fits : ¬(x = Int64.minValue ∧ y = -1)) :
    x.toInt = (x / y).toInt * y.toInt + (x % y).toInt := by
  rw [toInt_quotient fits, Int64.toInt_mod, Int.mul_comm, Int.mul_tdiv_add_tmod]

theorem floorDiv_eq_ok (nonzero : y ≠ 0) (fits : ¬(x = Int64.minValue ∧ y = -1)) :
    floorDiv x y = .ok (if RoundedUp x y then x / y - 1 else x / y) := by
  have checks : checkQuotient x y = .ok () := if_neg fits
  rw [floorDiv, if_neg nonzero, checks]
  show (if RoundedUp x y then _ else _) = _
  split <;> rfl

theorem floorMod_eq_ok (nonzero : y ≠ 0) (fits : ¬(x = Int64.minValue ∧ y = -1)) :
    floorMod x y = .ok (if RoundedUp x y then x % y + y else x % y) := by
  have checks : checkQuotient x y = .ok () := if_neg fits
  rw [floorMod, if_neg nonzero, checks]
  simp only [← roundedUp_iff]
  show (if RoundedUp x y then _ else _) = _
  split <;> rfl

/-- Division whose quotient fits yields the quotient to the floor and its remainder, and computes
nothing on the way that does not fit. -/
theorem division (nonzero : y ≠ 0) (fits : ¬(x = Int64.minValue ∧ y = -1)) :
    ∃ q r, floorDiv x y = .ok q ∧ floorMod x y = .ok r ∧
      Floored x.toInt y.toInt q.toInt r.toInt ∧ ∀ s ∈ divisionSteps x y, s.Exact := by
  refine ⟨_, _, floorDiv_eq_ok nonzero fits, floorMod_eq_ok nonzero fits, ?_⟩
  have quotient := toInt_quotient fits
  have remainder := Int64.toInt_mod x y
  have whole := quotient_remainder fits
  have small := remainder_lt (x := x) nonzero
  by_cases up : RoundedUp x y
  · have sides := up.sides nonzero
    have lowered := up.toInt_lowered nonzero fits
    have moved := up.toInt_moved nonzero
    rw [if_pos up, if_pos up, lowered, moved, divisionSteps, if_pos up]
    refine ⟨⟨by linarith, by omega, by omega⟩, ?_⟩
    simp only [List.cons_append, List.nil_append, List.forall_mem_cons]
    exact ⟨quotient, remainder, lowered, moved, List.forall_mem_nil _⟩
  · have sides := sides_of_not_roundedUp up
    rw [if_neg up, if_neg up, divisionSteps, if_neg up]
    refine ⟨⟨whole, by omega, by omega⟩, ?_⟩
    simp only [List.append_nil, List.forall_mem_cons]
    exact ⟨quotient, remainder, List.forall_mem_nil _⟩

namespace Recorded

theorem floorDiv_takes (x y : Int64) :
    Takes (divisionSteps x y) (floorDiv x y) (Arithmetic.floorDiv x y) := by
  by_cases zero : y = 0
  · rw [floorDiv, Arithmetic.floorDiv, if_pos zero, if_pos zero]
    exact .failed fun _ => rfl
  by_cases least : x = Int64.minValue ∧ y = -1
  · rw [floorDiv, Arithmetic.floorDiv, if_neg zero, if_neg zero, checkQuotient, if_pos least]
    exact .failed fun _ => rfl
  rw [floorDiv_eq_ok zero least, floorDiv, if_neg zero, checkQuotient, if_neg least, divisionSteps]
  by_cases up : RoundedUp x y
  · refine ⟨[⟨x / y, x.toInt.tdiv y.toInt⟩, ⟨x % y, x.toInt.tmod y.toInt⟩,
      ⟨x / y - 1, (x / y).toInt - 1⟩], ?_, fun before => ?_⟩
    · rw [if_pos up]
      exact (List.sublist_append_left [_] [_]).append_left [_, _]
    show (if RoundedUp x y then note _ _ else pure _) (before ++ [_] ++ [_]) = _
    rw [if_pos up, if_pos up, note, List.append_assoc, List.append_assoc]
    rfl
  · refine ⟨[⟨x / y, _⟩, ⟨x % y, _⟩], List.sublist_append_left _ _, fun before => ?_⟩
    show (if RoundedUp x y then note _ _ else pure _) (before ++ [_] ++ [_]) = _
    rw [if_neg up, if_neg up, List.append_assoc]
    rfl

theorem floorMod_takes (x y : Int64) :
    Takes (divisionSteps x y) (floorMod x y) (Arithmetic.floorMod x y) := by
  by_cases zero : y = 0
  · rw [floorMod, Arithmetic.floorMod, if_pos zero, if_pos zero]
    exact .failed fun _ => rfl
  by_cases least : x = Int64.minValue ∧ y = -1
  · rw [floorMod, Arithmetic.floorMod, if_neg zero, if_neg zero, checkQuotient, if_pos least]
    exact .failed fun _ => rfl
  rw [floorMod_eq_ok zero least, floorMod, if_neg zero, checkQuotient, if_neg least, divisionSteps]
  by_cases up : RoundedUp x y
  · refine ⟨[⟨x % y, x.toInt.tmod y.toInt⟩, ⟨x % y + y, (x % y).toInt + y.toInt⟩], ?_,
      fun before => ?_⟩
    · rw [if_pos up]
      exact (((List.Sublist.refl [_]).cons _).cons_cons _).cons _
    show (if _ ∧ _ then note _ _ else pure _) (before ++ [_]) = _
    rw [if_pos (roundedUp_iff.1 up), if_pos up, note, List.append_assoc]
    rfl
  · refine ⟨[⟨x % y, x.toInt.tmod y.toInt⟩], ?_, fun before => ?_⟩
    · exact (List.singleton_sublist.2 (.tail _ (.head _))).trans (List.sublist_append_left _ _)
    show (if _ ∧ _ then note _ _ else pure _) (before ++ [_]) = _
    rw [if_neg (mt roundedUp_iff.2 up), if_neg up]
    rfl

end Recorded

theorem division_refused (nonzero : y ≠ 0) (least : x = Int64.minValue ∧ y = -1) :
    floorDiv x y = .error .integerOverflow ∧ floorMod x y = .error .integerOverflow := by
  have refused : checkQuotient x y = .error .integerOverflow := if_pos least
  rw [floorDiv, floorMod, if_neg nonzero, if_neg nonzero, refused]
  exact ⟨rfl, rfl⟩

/-- What division and remainder come to, whatever the divisor. -/
theorem division_cases (x y : Int64) :
    (y = 0 ∧ floorDiv x y = .error .integerDivision ∧ floorMod x y = .error .integerDivision) ∨
    ((x = Int64.minValue ∧ y = -1) ∧ floorDiv x y = .error .integerOverflow ∧
      floorMod x y = .error .integerOverflow) ∨
    ∃ q r, (y ≠ 0 ∧ ¬(x = Int64.minValue ∧ y = -1)) ∧ floorDiv x y = .ok q ∧ floorMod x y = .ok r ∧
      Floored x.toInt y.toInt q.toInt r.toInt ∧ ∀ s ∈ divisionSteps x y, s.Exact := by
  by_cases zero : y = 0
  · subst zero
    exact .inl ⟨rfl, rfl, rfl⟩
  by_cases least : x = Int64.minValue ∧ y = -1
  · exact .inr (.inl ⟨least, division_refused zero least⟩)
  · obtain ⟨q, r, found⟩ := division zero least
    exact .inr (.inr ⟨q, r, ⟨zero, least⟩, found⟩)

end Console.Arithmetic
