import Mathlib.Tactic.Ring
import Console.Proofs.Arithmetic.Power

/-!
# Whole numbers are exact

What a machine integer comes out as is the result that unbounded whole numbers have, and so is every
number that is computed on the way to it. A result that does not fit is refused; so are a remainder
whose quotient does not fit and a power whose exponent is too large, whatever they come to.
-/

namespace Console.Arithmetic

variable {x y : Int64} {op : BinaryOp} {features : Features}

/-- What an operation comes to on unbounded whole numbers. Division rounds to the floor and leaves the
remainder that belongs to it. -/
def exact : BinaryOp → Int → Int → Int
  | .add, x, y => x + y
  | .sub, x, y => x - y
  | .mul, x, y => x * y
  | .div, x, y | .floorDiv, x, y => ⌊(x : ℚ) / y⌋
  | .mod, x, y => x - ⌊(x : ℚ) / y⌋ * y
  | .pow, x, y => x ^ y.toNat

/-- The operations that divide whole numbers. -/
def Divides (features : Features) (op : BinaryOp) : Prop :=
  op = .floorDiv ∨ op = .mod ∨ op = .div ∧ features.has .division = false

/-- The numbers that an operation on whole numbers computes. -/
def steps : BinaryOp → Int64 → Int64 → List Step
  | .add, x, y => [⟨x + y, x.toInt + y.toInt⟩]
  | .sub, x, y => [⟨x - y, x.toInt - y.toInt⟩]
  | .mul, x, y => [⟨x * y, x.toInt * y.toInt⟩]
  | .div, x, y | .floorDiv, x, y | .mod, x, y => divisionSteps x y
  | .pow, x, y => powerSteps 1 x y.toInt.toNat

/-- An operation on whole numbers, number by number. -/
def Recorded.calculation : BinaryOp → Int64 → Int64 → Recorded Int64
  | .add, x, y => checked (x.toInt + y.toInt)
  | .sub, x, y => checked (x.toInt - y.toInt)
  | .mul, x, y => times x y
  | .div, x, y | .floorDiv, x, y => floorDiv x y
  | .mod, x, y => floorMod x y
  | .pow, x, y => power x y.toInt.toNat

theorem int_eq_ok_iff {r : Except Fault Int64} {n : Int64} :
    Value.int <$> r = .ok (.int n) ↔ r = .ok n := by
  cases r with
  | error fault => exact ⟨nofun, nofun⟩
  | ok m => simp [Functor.map, Except.map]

theorem int_eq_error_iff {r : Except Fault Int64} {fault : Fault} :
    Value.int <$> r = .error fault ↔ r = .error fault := by
  cases r with
  | error fault' => simp [Functor.map, Except.map]
  | ok m => exact ⟨nofun, nofun⟩

theorem float_ne_ok {r : Except Fault Float} {n : Int64} : Value.float <$> r ≠ .ok (.int n) := by
  cases r <;> nofun

/-- The exact quotient and remainder of a division whose quotient fits. -/
theorem exact_division {x y q r : Int} (nonzero : y ≠ 0) (floored : Floored x y q r) :
    exact .floorDiv x y = q ∧ exact .mod x y = r := by
  have quotient := floored.floor_eq nonzero
  refine ⟨quotient, ?_⟩
  rw [exact, quotient, floored.whole]
  ring

/-- The quotient of the least number by minus one is the first number that does not fit. -/
theorem floored_least : Floored Int64.minValue.toInt (-1 : Int64).toInt (2 ^ 63) 0 :=
  ⟨rfl, by decide, by decide⟩

theorem divisible_of_ok {n : Int64} (run : floorDiv x y = .ok n ∨ floorMod x y = .ok n) :
    y ≠ 0 ∧ ¬(x = Int64.minValue ∧ y = -1) := by
  rcases division_cases x y with ⟨-, found, found'⟩ | ⟨-, found, found'⟩ | ⟨_, _, divisible, -⟩
  · simp [found, found'] at run
  · simp [found, found'] at run
  · exact divisible

theorem quotient_exact {q : Int64} (run : floorDiv x y = .ok q) :
    q.toInt = exact .floorDiv x.toInt y.toInt ∧ ∀ s ∈ divisionSteps x y, s.Exact := by
  obtain ⟨nonzero, fits⟩ := divisible_of_ok (.inl run)
  obtain ⟨q', r, found, -, floored, steps⟩ := division nonzero fits
  cases run.symm.trans found
  exact ⟨(exact_division (toInt_ne_zero nonzero) floored).1.symm, steps⟩

theorem remainder_exact {r : Int64} (run : floorMod x y = .ok r) :
    r.toInt = exact .mod x.toInt y.toInt ∧ ∀ s ∈ divisionSteps x y, s.Exact := by
  obtain ⟨nonzero, fits⟩ := divisible_of_ok (.inr run)
  obtain ⟨q, r', -, found, floored, steps⟩ := division nonzero fits
  cases run.symm.trans found
  exact ⟨(exact_division (toInt_ne_zero nonzero) floored).2.symm, steps⟩

theorem power_exact {exponent : Nat} {n : Int64} (run : power x exponent = .ok n) :
    n.toInt = x.toInt ^ exponent ∧ ∀ s ∈ powerSteps 1 x exponent, s.Exact := by
  by_cases small : exponent ≤ maxExponent
  · have found := power_eq x small
    rw [run] at found
    rw [power, if_neg (Nat.not_lt.2 small)] at run
    exact ⟨checked_eq_ok_iff.1 found.symm, powerSteps_exact run⟩
  · rw [power, if_pos (Nat.not_le.1 small)] at run
    cases run

/-- What the operation computes number by number is what it yields. -/
theorem Recorded.calculation_takes {n : Int64} (run : intOp features op x y = .ok (.int n)) :
    Takes (steps op x y) (calculation op x y) (.ok n) := by
  cases op with
  | add => exact int_eq_ok_iff.1 run ▸ checked_takes toInt_add
  | sub => exact int_eq_ok_iff.1 run ▸ checked_takes toInt_sub
  | mul => exact int_eq_ok_iff.1 run ▸ times_takes x y
  | div =>
    rw [intOp] at run
    split at run
    · exact absurd run float_ne_ok
    · exact int_eq_ok_iff.1 run ▸ floorDiv_takes x y
  | floorDiv => exact int_eq_ok_iff.1 run ▸ floorDiv_takes x y
  | mod => exact int_eq_ok_iff.1 run ▸ floorMod_takes x y
  | pow =>
    rw [intOp] at run
    split at run
    · exact absurd run float_ne_ok
    · exact int_eq_ok_iff.1 run ▸ power_takes x y.toInt.toNat

theorem exact_of_ok {n : Int64} (run : intOp features op x y = .ok (.int n)) :
    n.toInt = exact op x.toInt y.toInt ∧ ∀ s ∈ steps op x y, s.Exact := by
  cases op with
  | add =>
    have run := int_eq_ok_iff.1 run
    exact ⟨checked_eq_ok_iff.1 run, List.forall_mem_singleton.2 (toInt_add (fits_of_checked run))⟩
  | sub =>
    have run := int_eq_ok_iff.1 run
    exact ⟨checked_eq_ok_iff.1 run, List.forall_mem_singleton.2 (toInt_sub (fits_of_checked run))⟩
  | mul =>
    have run := int_eq_ok_iff.1 run
    exact ⟨checked_eq_ok_iff.1 run, List.forall_mem_singleton.2 (toInt_mul (fits_of_checked run))⟩
  | div =>
    rw [intOp] at run
    split at run
    · exact absurd run float_ne_ok
    · exact quotient_exact (int_eq_ok_iff.1 run)
  | floorDiv => exact quotient_exact (int_eq_ok_iff.1 run)
  | mod => exact remainder_exact (int_eq_ok_iff.1 run)
  | pow =>
    rw [intOp] at run
    split at run
    · exact absurd run float_ne_ok
    · exact power_exact (int_eq_ok_iff.1 run)

theorem zero_divides (whole : Divides features op) (x : Int64) :
    intOp features op x 0 = .error .integerDivision := by
  rcases whole with rfl | rfl | ⟨rfl, off⟩
  · rfl
  · rfl
  · rw [intOp, off]
    rfl

/-- A whole number that an operation yields is the exact result, and every number that was computed on
the way is exact as well: done number by number, the operation takes none but these. Division rounds
to the floor: it leaves a remainder between zero and the divisor, fails on zero, and its quotient fits
but of the least number by minus one. -/
theorem whole_number_results_are_exact (features : Features) (op : BinaryOp) (x y : Int64) :
    (∀ n, intOp features op x y = .ok (.int n) →
      n.toInt = exact op x.toInt y.toInt ∧ (∀ s ∈ steps op x y, s.Exact) ∧
        ∃ taken, Recorded.calculation op x y [] = .ok (n, taken) ∧ taken.Sublist (steps op x y)) ∧
    (y ≠ 0 → ¬(x = Int64.minValue ∧ y = -1) → ∃ q r,
      intOp features .floorDiv x y = .ok (.int q) ∧ intOp features .mod x y = .ok (.int r) ∧
        x.toInt = q.toInt * y.toInt + r.toInt ∧
          (0 < y.toInt → 0 ≤ r.toInt ∧ r.toInt < y.toInt) ∧
            (y.toInt < 0 → y.toInt < r.toInt ∧ r.toInt ≤ 0)) ∧
    (Divides features op → ∃ fault, intOp features op x 0 = .error fault ∧
      fault.exception.kind = .zeroDivisionError) := by
  refine ⟨fun n run => ?_, fun nonzero fits => ?_, fun whole => ?_⟩
  · obtain ⟨result, computed⟩ := exact_of_ok run
    obtain ⟨taken, within, runs⟩ := Recorded.calculation_takes run
    exact ⟨result, computed, taken, runs [], within⟩
  · obtain ⟨q, r, quotient, remainder, floored, -⟩ := division nonzero fits
    exact ⟨q, r, int_eq_ok_iff.2 quotient, int_eq_ok_iff.2 remainder, floored.whole,
      floored.positive, floored.negative⟩
  · exact ⟨_, zero_divides whole x, rfl⟩

/-- The least number by three goes to the floor, below the quotient to zero. -/
theorem least_number_by_three :
    intOp .none .div Int64.minValue 3 = .ok (.int (-3074457345618258603)) ∧
      (-3074457345618258603 : Int64).toInt = exact .div Int64.minValue.toInt (3 : Int64).toInt ∧
        Int64.minValue / 3 = -3074457345618258602 := by
  have run : intOp .none .div Int64.minValue 3 = .ok (.int (-3074457345618258603)) := by rfl
  exact ⟨run, ((whole_number_results_are_exact .none .div Int64.minValue 3).1 _ run).1, by decide⟩

theorem overflows_iff_of_eq {r : Except Fault Int64} {n : Int} (found : r = checked n) :
    (∃ fault, Value.int <$> r = .error fault ∧ fault.exception.kind = .overflowError) ↔
      Decimal.fits n = false := by
  constructor
  · rintro ⟨fault, failed, -⟩
    rw [int_eq_error_iff, found, checked_eq_error_iff] at failed
    exact failed.1
  · intro outside
    exact ⟨.integerOverflow, int_eq_error_iff.2 (found.trans (checked_of_not_fits outside)), rfl⟩

/-- The quotient is refused only where it does not fit. -/
theorem floorDiv_eq (nonzero : y ≠ 0) :
    floorDiv x y = checked (exact .floorDiv x.toInt y.toInt) := by
  rcases division_cases x y with ⟨zero, -⟩ | ⟨⟨rfl, rfl⟩, found, -⟩ | ⟨q, r, -, found, -, floored, -⟩
  · exact absurd zero nonzero
  · rw [found, (exact_division (by decide) floored_least).1]
    rfl
  · rw [found, (exact_division (toInt_ne_zero nonzero) floored).1, checked_toInt]

/-- The exact remainder always fits, and is refused only where the quotient does not. -/
theorem remainder_overflows_iff (nonzero : y ≠ 0) :
    Decimal.fits (exact .mod x.toInt y.toInt) = true ∧
      ((∃ fault, Value.int <$> floorMod x y = .error fault ∧
        fault.exception.kind = .overflowError) ↔ x = Int64.minValue ∧ y = -1) := by
  rcases division_cases x y with
    ⟨zero, -⟩ | ⟨⟨rfl, rfl⟩, -, found⟩ | ⟨q, r, ⟨-, fits⟩, -, found, floored, -⟩
  · exact absurd zero nonzero
  · rw [found, (exact_division (by decide) floored_least).2]
    exact ⟨rfl, fun _ => ⟨rfl, rfl⟩, fun _ => ⟨_, rfl, rfl⟩⟩
  · rw [found, (exact_division (toInt_ne_zero nonzero) floored).2]
    refine ⟨fits_toInt r, ?_, fun least => absurd least fits⟩
    rintro ⟨fault, failed, -⟩
    cases failed

theorem power_overflows_iff (x : Int64) (exponent : Nat) :
    (∃ fault, Value.int <$> power x exponent = .error fault ∧
      fault.exception.kind = .overflowError) ↔
        Decimal.fits (x.toInt ^ exponent) = false ∨ maxExponent < exponent := by
  by_cases large : maxExponent < exponent
  · rw [power, if_pos large]
    exact ⟨fun _ => .inr large, fun _ => ⟨_, rfl, rfl⟩⟩
  · rw [overflows_iff_of_eq (power_eq x (Nat.not_lt.1 large))]
    exact ⟨.inl, fun refused => refused.resolve_right large⟩

/-- An operation on whole numbers overflows where its exact result does not fit, and besides where the
remainder of the least number by minus one is taken or an exponent is beyond the largest. -/
theorem overflow_iff_outside_or_refused (whole : op = .div → features.has .division = false)
    (divisor : Divides features op → y ≠ 0) (exponent : op = .pow → 0 ≤ y.toInt) :
    (∃ fault, intOp features op x y = .error fault ∧ fault.exception.kind = .overflowError) ↔
      Decimal.fits (exact op x.toInt y.toInt) = false ∨
        (op = .mod ∧ x = Int64.minValue ∧ y = -1) ∨ (op = .pow ∧ maxExponent < y.toInt.toNat) := by
  cases op with
  | add | sub | mul =>
    rw [intOp, overflows_iff_of_eq rfl]
    simp [exact]
  | div =>
    have off := whole rfl
    rw [intOp, off, if_neg Bool.false_ne_true,
      overflows_iff_of_eq (floorDiv_eq (divisor (.inr (.inr ⟨rfl, off⟩))))]
    simp [exact]
  | floorDiv =>
    rw [intOp, overflows_iff_of_eq (floorDiv_eq (divisor (.inl rfl)))]
    simp
  | mod =>
    obtain ⟨fits, refused⟩ := remainder_overflows_iff (x := x) (divisor (.inr (.inl rfl)))
    rw [intOp, refused, fits]
    simp
  | pow =>
    have nonneg : ¬y < 0 := by
      rw [Int64.lt_iff_toInt_lt]
      exact Int.not_lt.2 (exponent rfl)
    rw [intOp, if_neg nonneg, power_overflows_iff]
    simp [exact]

/-- The square of the largest number that fits half way overflows, as it does not fit. -/
theorem square_overflows :
    Decimal.fits (exact .pow (4294967296 : Int64).toInt (2 : Int64).toInt) = false ∧
      ∃ fault, intOp .none .pow 4294967296 2 = .error fault ∧
        fault.exception.kind = .overflowError := by
  have outside : Decimal.fits (exact .pow (4294967296 : Int64).toInt (2 : Int64).toInt) = false := by
    decide
  exact ⟨outside, (overflow_iff_outside_or_refused (by nofun)
    (by rintro (⟨⟨⟩⟩ | ⟨⟨⟩⟩ | ⟨⟨⟩, -⟩)) fun _ => by decide).2 (.inl outside)⟩

/-- The remainder of the least number by minus one is zero and every power of one is one, yet both are
refused as overflows. -/
theorem fitting_results_overflow :
    (exact .mod Int64.minValue.toInt (-1 : Int64).toInt = 0 ∧
      ∃ fault, intOp .none .mod Int64.minValue (-1) = .error fault ∧
        fault.exception.kind = .overflowError) ∧
    exact .pow (1 : Int64).toInt (4294967296 : Int64).toInt = 1 ∧
      ∃ fault, intOp .none .pow 1 4294967296 = .error fault ∧
        fault.exception.kind = .overflowError := by
  refine ⟨⟨(exact_division (by decide) floored_least).2, _, rfl, rfl⟩, one_pow _, ?_⟩
  have large : maxExponent < (4294967296 : Int64).toInt.toNat := by decide
  refine ⟨.integerOverflow, ?_, rfl⟩
  show Value.int <$> power 1 (4294967296 : Int64).toInt.toNat = _
  rw [power, if_pos large]
  rfl

end Console.Arithmetic
