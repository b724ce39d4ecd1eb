import Console.Evaluator
import Console.Proofs.Arithmetic
import Console.Proofs.Machine

/-!
# Ranges are progressions

A range lists the numbers from its start on, a step apart, that lie before its stop. Their number is
found without overflow and each of them fits. The distance of a number from the start need not fit,
which nothing checks: a range with such a distance ends the process.
-/

namespace Console.Builtin

open Arithmetic Eval

namespace Range

variable {r : Range} {i : Nat}

/-- The number that many steps from the start. -/
def term (r : Range) (i : Nat) : Int := r.start.toInt + i * r.step.toInt

/-- The number has not come to the stop, in the direction of the step. -/
def Before (r : Range) (n : Int) : Prop :=
  if 0 < r.step then n < r.stop.toInt else r.stop.toInt < n

instance (r : Range) (n : Int) : Decidable (r.Before n) :=
  inferInstanceAs (Decidable (if 0 < r.step then n < r.stop.toInt else r.stop.toInt < n))

/-- A distance rounded up to steps counts the multiples of the step that are smaller. -/
theorem lt_rounded_up_iff {step : Int} (positive : 0 < step) (distance : Int) (i : Nat) :
    i < ((distance + step - 1).tdiv step).toNat ↔ i * step < distance := by
  rw [Int.lt_toNat]
  rcases Int.le_total 0 (distance + step - 1) with above | below
  · rw [Int.tdiv_eq_ediv_of_nonneg above, ← Int.add_one_le_iff, Int.le_ediv_iff_mul_le positive,
      add_mul]
    omega
  · have rounded := Int.tdiv_nonneg (Int.neg_nonneg_of_nonpos below) positive.le
    rw [Int.neg_tdiv] at rounded
    have product : 0 ≤ (i : Int) * step := by positivity
    omega

theorem toInt_pos_iff {n : Int64} : 0 < n ↔ 0 < n.toInt := Int64.lt_iff_toInt_lt

/-- The count is the number of terms before the stop. -/
theorem before_term_iff (nonzero : r.step ≠ 0) (i : Nat) : r.Before (r.term i) ↔ i < r.count := by
  rw [Before, term, count]
  by_cases up : 0 < r.step
  · rw [if_pos up, if_pos up, lt_rounded_up_iff (toInt_pos_iff.1 up)]
    omega
  · have down : 0 < -r.step.toInt := by
      have := toInt_ne_zero nonzero
      rw [toInt_pos_iff] at up
      omega
    have counts := lt_rounded_up_iff down (r.start.toInt - r.stop.toInt) i
    rw [if_neg up, if_neg up]
    rw [← sub_eq_add_neg] at counts
    rw [counts, mul_neg]
    omega

/-- What has not come to the stop is as far from the start as the steps, and less far than the stop. -/
theorem distance_of_before (before : r.Before (r.term i)) :
    (0 ≤ i * r.step.toInt ∧ i * r.step.toInt < r.stop.toInt - r.start.toInt) ∨
      (i * r.step.toInt ≤ 0 ∧ r.stop.toInt - r.start.toInt < i * r.step.toInt) := by
  rw [Before, term] at before
  split at before
  case isTrue up =>
    have := mul_nonneg (Int.natCast_nonneg i) (toInt_pos_iff.1 up).le
    omega
  case isFalse down =>
    rw [toInt_pos_iff, Int.not_lt] at down
    have := mul_nonpos_of_nonneg_of_nonpos (Int.natCast_nonneg i) down
    omega

theorem fits_of_before (before : r.Before (r.term i)) : Decimal.fits (r.term i) = true := by
  have start := (fits_iff _).1 (fits_toInt r.start)
  have stop := (fits_iff _).1 (fits_toInt r.stop)
  have distance := distance_of_before before
  rw [fits_iff, term]
  omega

/-- Where the whole range is no longer than the numbers that fit, so is every distance in it. -/
theorem distance_fits (span : Decimal.fits (r.stop.toInt - r.start.toInt) = true)
    (before : r.Before (r.term i)) : Decimal.fits (i * r.step.toInt) = true := by
  have distance := distance_of_before before
  rw [fits_iff] at span ⊢
  omega

/-- A number before the stop is found where its distance from the start fits. -/
theorem item?_eq_some (before : r.Before (r.term i))
    (distance : Decimal.fits (i * r.step.toInt) = true) : r.item? i = some (.ofInt (r.term i)) := by
  have fits := fits_of_before before
  rw [term] at fits
  simp only [item?, distance?, Decimal.toInt64?, distance, if_true, Option.bind_eq_bind,
    Option.bind_some, toInt_ofInt distance, fits, term]

theorem item?_eq_none (distance : Decimal.fits (i * r.step.toInt) = false) : r.item? i = none := by
  rw [item?, distance?, Decimal.toInt64?, distance, if_neg Bool.false_ne_true]
  rfl

section

variable {α β : Type} {f : α → Option β} {as : List α}

theorem mapM_eq_some {g : α → β} (each : ∀ a ∈ as, f a = some (g a)) :
    as.mapM f = some (as.map g) := by
  induction as with
  | nil => rfl
  | cons a as ih =>
    obtain ⟨first, others⟩ := List.forall_mem_cons.1 each
    rw [List.mapM_cons, first, ih others]
    rfl

theorem mapM_eq_none {a : α} (mem : a ∈ as) (fails : f a = none) : as.mapM f = none := by
  induction as with
  | nil => cases mem
  | cons b as ih =>
    rw [List.mapM_cons]
    rcases List.mem_cons.1 mem with rfl | mem
    · rw [fails]
      rfl
    · rw [ih mem]
      cases f b <;> rfl

end

theorem numbers?_eq (r : Range) :
    r.numbers? = List.toArray <$> (List.range r.count).mapM r.item? := by
  rw [numbers?, Array.mapM_eq_mapM_toList, Array.toList_range]

/-- The numbers of a range are its terms before the stop, in order. -/
theorem numbers?_eq_some (nonzero : r.step ≠ 0)
    (distances : ∀ i < r.count, Decimal.fits (i * r.step.toInt) = true) :
    ∃ numbers : List Int64, r.numbers? = some numbers.toArray ∧
      numbers.map Int64.toInt = (List.range r.count).map r.term := by
  have before {i : Nat} (mem : i ∈ List.range r.count) : r.Before (r.term i) :=
    (before_term_iff nonzero i).2 (List.mem_range.1 mem)
  refine ⟨(List.range r.count).map fun i => .ofInt (r.term i), ?_, ?_⟩
  · rw [numbers?_eq, mapM_eq_some fun i mem =>
      item?_eq_some (before mem) (distances i (List.mem_range.1 mem))]
    rfl
  · rw [List.map_map]
    exact List.map_congr_left fun i mem => toInt_ofInt (fits_of_before (before mem))

theorem numbers?_eq_none (inside : i < r.count)
    (distance : Decimal.fits (i * r.step.toInt) = false) : r.numbers? = none := by
  rw [numbers?_eq, mapM_eq_none (List.mem_range.2 inside) (item?_eq_none distance)]
  rfl

end Range

/-- What a call with three bounds does, once they are known to be a range. -/
theorem call_range (caller : Caller) (start stop : Int64) {step : Int64} (nonzero : step ≠ 0)
    (m : Machine) :
    call caller .range ⟨[.int start, .int stop, .int step], []⟩ m =
      (if longestRange < Range.count ⟨start, stop, step⟩ then fail .rangeTooLong
        else ofUnchecked (Range.numbers? ⟨start, stop, step⟩) >>= fun numbers =>
          newList (numbers.map Value.int)) m := by
  have shape : Arguments.oneToThree ⟨[.int start, .int stop, .int step], []⟩ "range" =
      .ok (.int start, some (.int stop), some (.int step)) := rfl
  have bounds : rangeOf (.int start) (some (.int stop)) (some (.int step)) =
      .ok ⟨start, stop, step⟩ := rfl
  simp only [call, callRange, shape, bounds, ofFault, pure_bind, if_neg nonzero]
  split <;> rfl

/-- A range with a step that is not zero has the progression from its start on up to its stop as its
items, each of them exact, as long as the distance of each from the start fits, which it does if that
of the stop fits. One distance that does not fit ends the process. A range with too many items is
refused. -/
theorem range_is_a_progression (caller : Caller) (start stop step : Int64) (nonzero : step ≠ 0)
    (m : Machine) :
    let r : Range := ⟨start, stop, step⟩
    ∃ n : Nat, (∀ i, r.Before (r.term i) ↔ i < n) ∧ (∀ i < n, Decimal.fits (r.term i) = true) ∧
      (n ≤ longestRange → (∀ i < n, Decimal.fits (i * step.toInt) = true) →
        ∃ numbers : List Int64,
          call caller .range ⟨[.int start, .int stop, .int step], []⟩ m =
            .ok (.list ⟨m.heap.lists.size⟩) { m with heap := { m.heap with
              lists := m.heap.lists.push (numbers.map Value.int).toArray } } ∧
          numbers.map Int64.toInt = (List.range n).map r.term) ∧
      (n ≤ longestRange → (∃ i < n, Decimal.fits (i * step.toInt) = false) →
        call caller .range ⟨[.int start, .int stop, .int step], []⟩ m = .error .crashed m) ∧
      (Decimal.fits (stop.toInt - start.toInt) = true →
        ∀ i < n, Decimal.fits (i * step.toInt) = true) ∧
      (longestRange < n → ∃ fault : Fault,
        call caller .range ⟨[.int start, .int stop, .int step], []⟩ m =
          .error (.raised fault.exception) m ∧ fault.exception.kind = .overflowError) := by
  intro r
  have runs := call_range caller start stop nonzero m
  have before {i : Nat} (inside : i < r.count) : r.Before (r.term i) :=
    (Range.before_term_iff nonzero i).2 inside
  refine ⟨r.count, Range.before_term_iff nonzero, fun i inside => Range.fits_of_before (before inside),
    fun short distances => ?_, fun short misfit => ?_,
    fun span i inside => Range.distance_fits (r := r) span (before inside), fun long => ?_⟩
  · obtain ⟨numbers, found, terms⟩ := Range.numbers?_eq_some (r := r) nonzero distances
    refine ⟨numbers, ?_, terms⟩
    rw [runs, if_neg (Nat.not_lt.2 short), found, ← List.map_toArray]
    rfl
  · obtain ⟨i, inside, distance⟩ := misfit
    rw [runs, if_neg (Nat.not_lt.2 short), Range.numbers?_eq_none (r := r) inside distance]
    rfl
  · refine ⟨.rangeTooLong, ?_, rfl⟩
    rw [runs, if_pos long]
    rfl

/-- Three numbers lie between the greatest one and the stop, which is farther from it than any number
that fits; the last distance is the least number. -/
theorem range_over_most_numbers :
    let m := Machine.fresh
    let r : Range := ⟨9223372036854775807, -5, -4611686018427387904⟩
    Decimal.fits (r.stop.toInt - r.start.toInt) = false ∧
      call ⟨Evaluator.call 5, 5⟩ .range ⟨[.int r.start, .int r.stop, .int r.step], []⟩ m =
        .ok (.list ⟨0⟩) { m with heap := { m.heap with
          lists := #[#[.int 9223372036854775807, .int 4611686018427387903, .int (-1)]] } } ∧
      [9223372036854775807, 4611686018427387903, -1] = (List.range 3).map r.term := by
  intro m r
  obtain ⟨n, counts, -, items, -, -, -⟩ :=
    range_is_a_progression ⟨Evaluator.call 5, 5⟩ r.start r.stop r.step (by decide) m
  have more : 2 < n := (counts 2).1 (by decide)
  have last : ¬3 < n := fun less => absurd ((counts 3).2 less) (by decide)
  obtain rfl : n = 3 := by omega
  obtain ⟨numbers, runs, terms⟩ := items (by decide) (by decide)
  have computed : (List.range 3).map r.term = [9223372036854775807, 4611686018427387903, -1] := by
    decide
  have same : numbers = [9223372036854775807, 4611686018427387903, -1] :=
    List.map_injective_iff.2 (fun _ _ => Int64.toInt_inj.1) (terms.trans (computed.trans rfl))
  rw [same] at runs
  exact ⟨by decide, runs, computed.symm⟩

/-- Four numbers from the least one on lie before the greatest one, but the distance of the third from
the start is the first number that does not fit. -/
theorem distance_that_does_not_fit_ends_the_process :
    let m := Machine.fresh
    let r : Range := ⟨Int64.minValue, Int64.maxValue, 4611686018427387904⟩
    r.count = 4 ∧ (∀ i < 4, r.Before (r.term i) ∧ Decimal.fits (r.term i) = true) ∧
      ¬r.Before (r.term 4) ∧ Decimal.fits (2 * r.step.toInt) = false ∧
      call ⟨Evaluator.call 5, 5⟩ .range ⟨[.int r.start, .int r.stop, .int r.step], []⟩ m =
        .error .crashed m := by
  intro m r
  have outside : Decimal.fits (2 * r.step.toInt) = false := by decide
  refine ⟨by decide, by decide, by decide, outside, ?_⟩
  rw [call_range _ _ _ (by decide), if_neg (by decide),
    Range.numbers?_eq_none (show 2 < r.count by decide) outside]
  rfl

end Console.Builtin
