import Mathlib.Tactic.Ring
import Console.Proofs.Arithmetic.Division

/-!
# Powers of whole numbers

A power is multiplied together from squares of its base. No square on the way is larger than the
power is, so the power is found, through numbers that all fit, wherever it fits itself.
-/

namespace Console.Arithmetic

variable {x y : Int64}

/-- A power computes the products and squares of its multiplications. -/
def powerSteps (product base : Int64) (exponent : Nat) : List Step :=
  (if exponent % 2 = 1 then [⟨product * base, product.toInt * base.toInt⟩] else []) ++
    if exponent < 2 then []
    else ⟨base * base, base.toInt * base.toInt⟩ ::
      powerSteps (if exponent % 2 = 1 then product * base else product) (base * base) (exponent / 2)
termination_by exponent

namespace Recorded

def times (x y : Int64) : Recorded Int64 := checked (x.toInt * y.toInt)

def multiplyIfOdd (product base : Int64) (exponent : Nat) : Recorded Int64 :=
  if exponent % 2 = 1 then times product base else return product

/-- The multiplication of a power, number by number. -/
def multiplyPower (product base : Int64) (exponent : Nat) : Recorded Int64 := do
  let product ← multiplyIfOdd product base exponent
  if exponent < 2 then return product
  else multiplyPower product (← times base base) (exponent / 2)
termination_by exponent

def power (x : Int64) (exponent : Nat) : Recorded Int64 :=
  if maxExponent < exponent then throw .integerOverflow else multiplyPower 1 x exponent

end Recorded

theorem times_of_fits (fits : Decimal.fits (x.toInt * y.toInt) = true) :
    times x y = .ok (x * y) := checked_eq_ok_iff.2 (toInt_mul fits)

theorem product_of_times {z : Int64} (run : times x y = .ok z) :
    z = x * y ∧ (x * y).toInt = x.toInt * y.toInt := by
  have meant := checked_eq_ok_iff.1 run
  have fits : Decimal.fits (x.toInt * y.toInt) = true := by rw [← meant, fits_toInt]
  exact ⟨Int64.toInt_inj.1 (meant.trans (toInt_mul fits).symm), toInt_mul fits⟩

theorem not_fits_of_lt {m n : Int} (outside : Decimal.fits m = false) (further : m.natAbs < n.natAbs) :
    Decimal.fits n = false := by
  rw [Bool.eq_false_iff, ne_eq, fits_iff] at outside ⊢
  omega

/-- A product that does not fit is no more fitting behind a positive factor. -/
theorem not_fits_mul {m k : Int} (outside : Decimal.fits m = false) (positive : 0 < k) :
    Decimal.fits (m * k) = false := by
  rcases Int.lt_or_eq_of_le (Int.add_one_le_of_lt positive) with more | one
  · refine not_fits_of_lt outside ?_
    have apart : 0 < m.natAbs := by
      refine Int.natAbs_pos.2 fun vanishes => ?_
      rw [vanishes] at outside
      cases outside
    rw [Int.natAbs_mul]
    exact lt_mul_of_one_lt_right apart (by omega)
  · rw [← one, Int.zero_add, Int.mul_one]
    exact outside

/-- No square is the first number that does not fit. -/
theorem square_ne (n : Int) : n * n ≠ 2 ^ 63 := by
  intro same
  have same : n.natAbs * n.natAbs = 2 ^ 63 := by
    rw [← Int.natAbs_mul, same]
    rfl
  rcases Nat.lt_or_ge n.natAbs 3037000500 with small | large
  · have := Nat.mul_le_mul (Nat.le_of_lt_succ small) (Nat.le_of_lt_succ small)
    omega
  · have := Nat.mul_le_mul large large
    omega

/-- A square that does not fit stands behind no product that does, unless that is zero. -/
theorem not_fits_square_mul {n k : Int} (outside : Decimal.fits (n * n) = false) (apart : k ≠ 0) :
    Decimal.fits (n * n * k) = false := by
  have large : 2 ^ 63 < (n * n).natAbs := by
    have other := square_ne n
    have := mul_self_nonneg n
    rw [Bool.eq_false_iff, ne_eq, fits_iff] at outside
    omega
  have grown : (n * n).natAbs ≤ (n * n * k).natAbs := by
    rw [Int.natAbs_mul (n * n)]
    exact Nat.le_mul_of_pos_right _ (Int.natAbs_pos.2 apart)
  rw [Bool.eq_false_iff, ne_eq, fits_iff]
  omega

theorem pow_eq_halved (n : Int) (exponent : Nat) :
    n ^ exponent = n ^ (exponent % 2) * (n * n) ^ (exponent / 2) := by
  rw [← pow_two, ← pow_mul, ← pow_add, Nat.mod_add_div]

theorem multiplyIfOdd_eq (product base : Int64) (exponent : Nat) :
    multiplyIfOdd product base exponent = checked (product.toInt * base.toInt ^ (exponent % 2)) := by
  rcases Nat.mod_two_eq_zero_or_one exponent with even | odd
  · rw [multiplyIfOdd, if_neg (by omega), even, pow_zero, mul_one, checked_toInt]
  · rw [multiplyIfOdd, if_pos odd, odd, pow_one, times]

/-- If the base does not fit into the product, neither does its power. -/
theorem not_fits_of_odd {product base : Int64} {exponent : Nat}
    (outside : Decimal.fits (product.toInt * base.toInt ^ (exponent % 2)) = false) :
    Decimal.fits (product.toInt * base.toInt ^ exponent) = false := by
  have nonzero : base.toInt ≠ 0 := by
    intro zero
    rcases Nat.mod_two_eq_zero_or_one exponent with even | odd
    · rw [even, pow_zero, mul_one, fits_toInt] at outside
      cases outside
    · rw [zero, odd, pow_one, mul_zero] at outside
      cases outside
  rw [pow_eq_halved, ← mul_assoc]
  exact not_fits_mul outside (pow_pos (mul_self_pos.2 nonzero) _)

/-- If the square of the base does not fit, no power of it fits into a product that is not zero. -/
theorem not_fits_of_square {k n : Int} {exponent : Nat} (outside : Decimal.fits (n * n) = false)
    (apart : k ≠ 0) (some_squares : 0 < exponent) :
    Decimal.fits (k * (n * n) ^ exponent) = false := by
  have nonzero : n ≠ 0 := by
    rintro rfl
    cases outside
  obtain ⟨more, rfl⟩ : ∃ more, exponent = more + 1 := ⟨exponent - 1, by omega⟩
  rw [pow_succ', mul_left_comm]
  exact not_fits_square_mul outside
    (mul_ne_zero apart (pow_ne_zero _ (mul_ne_zero nonzero nonzero)))

/-- Multiplying a power in yields the exact product, if it fits. No intermediate number is larger, so
none is refused in its place; of zero alone a product can be smaller, and its squares fit. -/
theorem multiplyPower_eq {product base : Int64} {exponent : Nat} (apart : base ≠ 0 → product ≠ 0) :
    multiplyPower product base exponent = checked (product.toInt * base.toInt ^ exponent) := by
  induction exponent using Nat.strong_induction_on generalizing product base with
  | h exponent ih =>
    rw [multiplyPower, multiplyIfOdd_eq]
    cases fits : Decimal.fits (product.toInt * base.toInt ^ (exponent % 2)) with
    | false =>
      rw [checked_of_not_fits fits, checked_of_not_fits (not_fits_of_odd fits)]
      rfl
    | true =>
      obtain ⟨multiplied, meant⟩ : ∃ m : Int64, m.toInt = product.toInt * base.toInt ^ (exponent % 2) :=
        ⟨_, toInt_ofInt fits⟩
      have apart' : base ≠ 0 → multiplied ≠ 0 := by
        rintro nonzero rfl
        have power := pow_ne_zero (exponent % 2) (toInt_ne_zero nonzero)
        exact mul_ne_zero (toInt_ne_zero (apart nonzero)) power meant.symm
      rw [pow_eq_halved base.toInt exponent, ← mul_assoc, ← meant, checked_toInt]
      show (if exponent < 2 then pure multiplied
        else times base base >>= fun square => multiplyPower multiplied square (exponent / 2)) = _
      split
      case isTrue small =>
        rw [show exponent / 2 = 0 by omega, pow_zero, mul_one, checked_toInt]
        rfl
      case isFalse large =>
        cases fits : Decimal.fits (base.toInt * base.toInt) with
        | true =>
          rw [times_of_fits fits, ← toInt_mul fits]
          refine ih (exponent / 2) (by omega) fun square => apart' ?_
          rintro rfl
          exact square rfl
        | false =>
          have nonzero : base ≠ 0 := by
            rintro rfl
            cases fits
          have outside := not_fits_of_square fits (toInt_ne_zero (apart' nonzero))
            (show 0 < exponent / 2 by omega)
          rw [times, checked_of_not_fits fits, checked_of_not_fits outside]
          rfl

theorem multiplyIfOdd_ok {product base n : Int64} {exponent : Nat}
    (run : multiplyIfOdd product base exponent = .ok n) :
    (exponent % 2 = 1 → (product * base).toInt = product.toInt * base.toInt) ∧
      n = if exponent % 2 = 1 then product * base else product := by
  rw [multiplyIfOdd] at run
  split at run
  case isTrue odd =>
    obtain ⟨rfl, meant⟩ := product_of_times run
    exact ⟨fun _ => meant, (if_pos odd).symm⟩
  case isFalse even =>
    cases run
    exact ⟨fun odd => absurd odd even, (if_neg even).symm⟩

/-- A power that is found was found through numbers that all fit. -/
theorem powerSteps_exact {product base n : Int64} {exponent : Nat}
    (run : multiplyPower product base exponent = .ok n) :
    ∀ s ∈ powerSteps product base exponent, s.Exact := by
  induction exponent using Nat.strong_induction_on generalizing product base with
  | h exponent ih =>
    rw [multiplyPower] at run
    cases first : multiplyIfOdd product base exponent with
    | error fault =>
      rw [first] at run
      cases run
    | ok multiplied =>
      rw [first] at run
      obtain ⟨meant, rfl⟩ := multiplyIfOdd_ok first
      rw [powerSteps, List.forall_mem_append]
      constructor
      · split
        case isTrue odd => exact List.forall_mem_singleton.2 (meant odd)
        case isFalse => exact List.forall_mem_nil _
      split
      case isTrue => exact List.forall_mem_nil _
      case isFalse large =>
        change (if exponent < 2 then _ else _) = _ at run
        rw [if_neg large] at run
        cases squared : times base base with
        | error fault =>
          rw [squared] at run
          cases run
        | ok square =>
          rw [squared] at run
          obtain ⟨rfl, meant⟩ := product_of_times squared
          exact List.forall_mem_cons.2 ⟨meant, ih (exponent / 2) (by omega) run⟩

namespace Recorded

variable {steps steps' : List Step} {calculation : Recorded Int64} {result : Except Fault Int64}

theorem Takes.pure (n : Int64) : Takes [] (pure n) (.ok n) :=
  ⟨[], .slnil, fun before => by rw [List.append_nil]; rfl⟩

theorem Takes.bind {next : Int64 → Recorded Int64} {found : Int64 → Except Fault Int64}
    (first : Takes steps calculation result)
    (second : ∀ n, result = .ok n → Takes steps' (next n) (found n)) :
    Takes (steps ++ steps') (calculation >>= next) (result >>= found) := by
  obtain ⟨taken, within, runs⟩ := first
  cases result with
  | error fault =>
    refine .failed fun before => ?_
    show (calculation before >>= fun (n, after) => next n after) = _
    rw [runs]
    rfl
  | ok n =>
    obtain ⟨taken', within', runs'⟩ := second n rfl
    refine ⟨taken ++ taken', within.append within', fun before => ?_⟩
    show (calculation before >>= fun (n, after) => next n after) = _
    rw [runs, ← List.append_assoc]
    exact runs' _

theorem times_takes (x y : Int64) :
    Takes [⟨x * y, x.toInt * y.toInt⟩] (times x y) (Arithmetic.times x y) :=
  checked_takes toInt_mul

theorem multiplyIfOdd_takes (product base : Int64) (exponent : Nat) :
    Takes (if exponent % 2 = 1 then [⟨product * base, product.toInt * base.toInt⟩] else [])
      (multiplyIfOdd product base exponent) (Arithmetic.multiplyIfOdd product base exponent) := by
  rw [multiplyIfOdd, Arithmetic.multiplyIfOdd]
  split
  case isTrue => exact times_takes product base
  case isFalse => exact .pure product

theorem multiplyPower_takes (product base : Int64) (exponent : Nat) :
    Takes (powerSteps product base exponent) (multiplyPower product base exponent)
      (Arithmetic.multiplyPower product base exponent) := by
  induction exponent using Nat.strong_induction_on generalizing product base with
  | h exponent ih =>
    rw [powerSteps, multiplyPower, Arithmetic.multiplyPower]
    refine (multiplyIfOdd_takes product base exponent).bind fun n found => ?_
    obtain ⟨-, rfl⟩ := multiplyIfOdd_ok found
    by_cases small : exponent < 2
    · rw [if_pos small, if_pos small, if_pos small]
      exact .pure _
    · rw [if_neg small, if_neg small, if_neg small]
      refine (times_takes base base).bind fun square squared => ?_
      obtain ⟨rfl, -⟩ := product_of_times squared
      exact ih (exponent / 2) (by omega) _ _

theorem power_takes (x : Int64) (exponent : Nat) :
    Takes (powerSteps 1 x exponent) (power x exponent) (Arithmetic.power x exponent) := by
  rw [power, Arithmetic.power]
  split
  case isTrue => exact .failed fun _ => rfl
  case isFalse => exact multiplyPower_takes 1 x exponent

end Recorded

theorem power_eq (x : Int64) {exponent : Nat} (small : exponent ≤ maxExponent) :
    power x exponent = checked (x.toInt ^ exponent) := by
  rw [power, if_neg (Nat.not_lt.2 small), multiplyPower_eq fun _ => by decide]
  rw [show (1 : Int64).toInt = 1 from rfl, one_mul]

end Console.Arithmetic
