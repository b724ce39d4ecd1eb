import Console.Proofs.Sorting.Runs

/-!
# Pivots, and the whole sort

A list is parted by the rank of a pivot, so its parts can be arranged one by one. The pivot of a list
is never alone at its bottom, which is why a test that tells any two items apart need not be asked
about an item and itself.
-/

namespace Console.Sorting

variable {ε α : Type} {before : α → α → Except ε Bool} {rank : α → Nat} {items : List α}

section

variable {test : Nat → Nat → Except ε Bool} {height : Nat → Nat} {bound : Nat}
  (told : ∀ i j, i < j → j < bound → Told test height i j)

/-- Some other position is not higher. -/
def Supported (height : Nat → Nat) (bound m : Nat) : Prop :=
  ∃ other < bound, other ≠ m ∧ height other ≤ height m

include told

theorem medianOfThree_supported {i j k : Nat} (ij : i < j) (jk : j < k) (inside : k < bound) :
    Gives (fun m => (i ≤ m ∧ m ≤ k) ∧ Supported height bound m) (medianOfThree test i j k) := by
  unfold medianOfThree
  rw [(told i j ij (by omega)).forth, (told i k (by omega) inside).forth, (told j k jk inside).forth]
  simp only [ok_bind, beq_iff_eq, decide_eq_decide]
  by_cases one : height i < height j <;> by_cases two : height i < height k
  · -- The first is below both of the others.
    by_cases three : height j < height k
    · simp only [one, two, three, if_true]
      exact .pure ⟨by omega, i, by omega, by omega, by omega⟩
    · simp only [one, two, three, if_true, false_iff, not_true, if_false]
      exact .pure ⟨by omega, i, by omega, by omega, by omega⟩
  · simp only [one, two, true_iff, if_false]
    exact .pure ⟨by omega, k, by omega, by omega, by omega⟩
  · simp only [one, two, false_iff, not_true, if_false]
    exact .pure ⟨by omega, j, by omega, by omega, by omega⟩
  · -- The first is below neither of the others.
    by_cases three : height j < height k
    · simp only [one, two, three, if_true, true_iff, if_false]
      exact .pure ⟨by omega, j, by omega, by omega, by omega⟩
    · simp only [one, two, three, if_true]
      exact .pure ⟨by omega, k, by omega, by omega, by omega⟩

/-- The positions stand for parts that do not overlap. -/
theorem medianOfParts_supported {part i j k : Nat} (nonzero : 0 < part) (ij : i + part ≤ j)
    (jk : j + part ≤ k) (inside : k + part ≤ bound) :
    Gives (fun m => (i ≤ m ∧ m < k + part) ∧ Supported height bound m)
      (medianOfParts test part i j k) := by
  induction part using Nat.strongRecOn generalizing i j k with
  | ind part ih =>
    rw [medianOfParts]
    split
    · refine (medianOfThree_supported told (by omega) (by omega) (by omega)).mono ?_
      exact fun m within => ⟨by omega, within.2⟩
    · have one (start : Nat) (fits : start + part ≤ bound) :=
        ih (part / 8) (by omega) (i := start) (j := start + part / 8 * 4) (k := start + part / 8 * 7)
          (by omega) (by omega) (by omega) (by omega)
      refine (one i (by omega)).bind fun i' ⟨within, _⟩ => ?_
      refine (one j (by omega)).bind fun j' ⟨within', _⟩ => ?_
      refine (one k (by omega)).bind fun k' ⟨within'', _⟩ => ?_
      refine (medianOfThree_supported told (by omega) (by omega) (by omega)).mono ?_
      exact fun m within => ⟨by omega, within.2⟩

end

/-- The pivot stands between the other items, and one of these is not above it. -/
structure Pivoted.Chosen (rank : α → Nat) (items : List α) (p : Pivoted α) : Prop where
  whole : items = p.front ++ p.pivot :: p.behind
  support : ∃ x ∈ p.front ++ p.behind, rank x ≤ rank p.pivot

theorem Pivoted.Chosen.mem {p : Pivoted α} (chosen : p.Chosen rank items) : p.pivot ∈ items := by
  simp [chosen.whole]

/-- The test of the items at two places. -/
def atPlaces (before : α → α → Except ε Bool) (items : List α) (i j : Nat) : Except ε Bool :=
  match items.toArray[i]?, items.toArray[j]? with
  | some x, some y => before x y
  | _, _ => .ok false

theorem Pivoted.choose?_chosen (many : shortLength < items.length) (told : AllTold before rank items) :
    Gives (fun found => ∃ p, found = some p ∧ p.Chosen rank items) (Pivoted.choose? before items) := by
  have told' : ∀ i j, i < j → j < items.length →
      Told (atPlaces before items) (fun i => (items[i]?.map rank).getD 0) i j := by
    intro i j below inside
    have pair := List.pairwise_iff_getElem.1 told i j (by omega) inside below
    constructor <;> simp [atPlaces, inside, Nat.lt_trans below inside, pair.forth, pair.back]
    exact pair.alone
  unfold shortLength at many
  unfold Pivoted.choose?
  dsimp only
  rw [List.size_toArray]
  refine (medianOfParts_supported told' (by omega) (by omega) (by omega) (by omega)).bind ?_
  rintro m ⟨⟨-, inside⟩, other, inside', different, below⟩
  have here : m < items.length := by omega
  rw [List.drop_eq_getElem_cons here]
  refine .pure ⟨_, rfl, ?_, ?_⟩
  · simp
  · refine ⟨items[other], ?_, by simpa [here, inside'] using below⟩
    rcases Nat.lt_or_gt_of_ne different with earlier | later
    · exact List.mem_append_left _ (List.mem_take_iff_getElem.2 ⟨other, by omega, rfl⟩)
    · refine List.mem_append_right _ (List.mem_drop_iff_getElem.2 ⟨other - (m + 1), by omega, ?_⟩)
      congr 1
      omega

section

variable {test : α → Except ε Bool} {p : α → Bool} (answers : ∀ x ∈ items, test x = .ok (p x))
include answers

theorem Parts.add_eq (parts : Parts α) : Parts.add test parts items =
    .ok ⟨(items.filter p).reverse ++ parts.left, (items.filter (!p ·)).reverse ++ parts.right⟩ := by
  induction items generalizing parts with
  | nil => rfl
  | cons x items ih =>
    obtain ⟨first, others⟩ := List.forall_mem_cons.1 answers
    unfold Parts.add at ih ⊢
    rw [List.foldlM_cons, first, ok_bind]
    refine (ih others _).trans ?_
    cases here : p x <;> simp [here]

end

namespace Pivoted

variable {p : Pivoted α} (chosen : p.Chosen rank items) (told : AllTold before rank items)
include chosen told

/-- The test tells the other items from the pivot. -/
theorem told_pivot : ∀ x ∈ p.front ++ p.behind, Told before rank x p.pivot := by
  have pairs : AllTold before rank (p.pivot :: (p.front ++ p.behind)) := by
    refine told.perm ?_
    rw [chosen.whole]
    exact List.perm_middle.symm
  exact fun x mem => (List.rel_of_pairwise_cons pairs mem).symm

theorem below_eq : p.below before =
    .ok (items.filter fun x => decide (rank x < rank p.pivot),
      items.filter fun x => !decide (rank x < rank p.pivot)) := by
  have answers (x : α) (mem : x ∈ p.front ++ p.behind) :
      before x p.pivot = .ok (decide (rank x < rank p.pivot)) := (told_pivot chosen told x mem).forth
  have answers := List.forall_mem_append.1 answers
  unfold below
  dsimp only
  rw [Parts.add_eq answers.1, ok_bind, Parts.add_eq answers.2, ok_bind, chosen.whole]
  simp [pure, Except.pure]

theorem notAbove_eq : p.notAbove before =
    .ok (items.filter fun x => decide (rank x ≤ rank p.pivot),
      items.filter fun x => !decide (rank x ≤ rank p.pivot)) := by
  have answers (x : α) (mem : x ∈ p.front ++ p.behind) :
      (do return !(← before p.pivot x) : Except ε Bool) = .ok (decide (rank x ≤ rank p.pivot)) := by
    rw [(told_pivot chosen told x mem).back, ok_bind]
    simp only [pure, Except.pure, ← decide_not, Nat.not_lt]
  have answers := List.forall_mem_append.1 answers
  unfold notAbove
  dsimp only
  rw [Parts.add_eq answers.1, ok_bind, Parts.add_eq answers.2, ok_bind, chosen.whole]
  simp [pure, Except.pure]

/-- The pivot left of the items is told from the new one, also where they are the same item. -/
theorem floor_told {f : α} (mem : f ∈ items) (least : ∀ x ∈ items, rank f ≤ rank x) :
    before f p.pivot = .ok (decide (rank f < rank p.pivot)) := by
  have others := told_pivot chosen told
  rw [chosen.whole, List.mem_append, List.mem_cons] at mem
  rcases mem with mem | rfl | mem
  · exact (others f (List.mem_append_left _ mem)).forth
  · obtain ⟨x, mem, low⟩ := chosen.support
    have high := least x (by
      rw [chosen.whole, List.mem_append, List.mem_cons]
      exact (List.mem_append.1 mem).imp_right .inr)
    rw [((others x mem).alone (Nat.le_antisymm low high)).2]
    simp
  · exact (others f (List.mem_append_right _ mem)).forth

end Pivoted

/-- Where nothing is below the pivot, what is not above it has its rank. -/
theorem arranged_above {bottom : Nat} {above : List α} (least : ∀ x ∈ items, bottom ≤ rank x)
    (arranged : Arranged rank (items.filter fun x => !decide (rank x ≤ bottom)) above) :
    Arranged rank items ((items.filter fun x => decide (rank x ≤ bottom)) ++ above) := by
  refine .of_alike (.parted (· ≤ bottom) items) (.append (.of_ascending ?_) arranged ?_)
  · refine List.pairwise_of_forall_mem_list fun x mem y mem' => ?_
    simp only [List.mem_filter, decide_eq_true_eq] at mem mem'
    exact Nat.le_trans mem.2 (least y mem'.1)
  · intro x mem y mem'
    simp only [List.mem_filter, decide_eq_true_eq, Bool.not_eq_true', decide_eq_false_iff_not] at mem mem'
    omega

/-- The pivot left of the items is one of them, and the least. -/
def Bottom (rank : α → Nat) (items : List α) (floor : Option α) : Prop :=
  ∀ f ∈ floor, f ∈ items ∧ ∀ x ∈ items, rank f ≤ rank x

/-- The items around a pivot, of which none is below it. -/
def Pivoted.sortAbove (sort : Option α → List α → Except ε (List α))
    (before : α → α → Except ε Bool) (p : Pivoted α) : Except ε (List α) := do
  let (equal, above) ← p.notAbove before
  return equal ++ (← sort none above)

/-- The items around a pivot: `least` says that it is known to be one of the least. -/
def Pivoted.sortAround (sort : Option α → List α → Except ε (List α))
    (before : α → α → Except ε Bool) (floor : Option α) (items : List α) (p : Pivoted α)
    (least : Bool) : Except ε (List α) := do
  let (below, others) ← if least then .ok ([], items) else p.below before
  if below.isEmpty then p.sortAbove sort before
  else
    let others ← sort (some p.pivot) others
    return (← sort floor below) ++ others

section

variable {sort : Option α → List α → Except ε (List α)} {floor : Option α} {p : Pivoted α}
  (sorts : ∀ {floor items}, AllTold before rank items → Bottom rank items floor →
    Gives (Arranged rank items) (sort floor items))
  (chosen : p.Chosen rank items) (told : AllTold before rank items)
include sorts chosen told

theorem sortAbove_arranged (least : ∀ x ∈ items, rank p.pivot ≤ rank x) :
    Gives (Arranged rank items) (p.sortAbove sort before) := by
  have bottom (above : List α) : Bottom rank above none := by simp [Bottom]
  rw [Pivoted.sortAbove, Pivoted.notAbove_eq chosen told, ok_bind]
  refine (sorts (told.sublist List.filter_sublist) (bottom _)).bind fun above arranged => .pure ?_
  exact arranged_above least arranged

theorem sortAround_arranged (bottom : Bottom rank items floor) (least : Bool)
    (low : least = true → ∀ x ∈ items, rank p.pivot ≤ rank x)
    (high : least = false → ∀ f ∈ floor, rank f < rank p.pivot) :
    Gives (Arranged rank items) (p.sortAround sort before floor items least) := by
  cases least with
  | true => exact sortAbove_arranged sorts chosen told (low rfl)
  | false =>
    simp only [Pivoted.sortAround, Bool.false_eq_true, if_false]
    rw [Pivoted.below_eq chosen told, ok_bind]
    dsimp only
    split
    · next empty =>
      refine sortAbove_arranged sorts chosen told fun x mem => ?_
      rw [List.isEmpty_iff, List.filter_eq_nil_iff] at empty
      simpa using empty x mem
    · have within (low : α → Bool) : AllTold before rank (items.filter low) :=
        told.sublist List.filter_sublist
      have above : Bottom rank (items.filter fun x => !decide (rank x < rank p.pivot))
          (some p.pivot) := by
        simp [Bottom, chosen.mem]
      have below : Bottom rank (items.filter fun x => decide (rank x < rank p.pivot)) floor :=
        fun f mem => ⟨List.mem_filter.2 ⟨(bottom f mem).1, decide_eq_true (high rfl f mem)⟩,
          fun x mem' => (bottom f mem).2 x (List.mem_filter.1 mem').1⟩
      refine (sorts (within _) above).bind fun others arranged => ?_
      refine (sorts (within _) below).bind fun lower arranged' => .pure ?_
      refine .of_alike (.parted (· < rank p.pivot) items) (arranged'.append arranged ?_)
      intro x mem y mem'
      simp only [List.mem_filter, decide_eq_true_eq, Bool.not_eq_true', decide_eq_false_iff_not]
        at mem mem'
      omega

end

theorem byPivots_arranged (limit : Nat) {floor : Option α} (told : AllTold before rank items)
    (bottom : Bottom rank items floor) :
    Gives (Arranged rank items) (byPivots before limit floor items) := by
  induction limit generalizing floor items with
  | zero =>
    rw [byPivots]
    split
    · exact sortShort_arranged told
    · next many => exact byRuns_arranged nofun (by rintro rfl; exact many (Nat.zero_le _)) told
  | succ limit ih =>
    rw [byPivots]
    split
    · exact sortShort_arranged told
    next many =>
    refine (Pivoted.choose?_chosen (Nat.not_le.1 many) told).bind ?_
    rintro _ ⟨p, rfl, chosen⟩
    have around := sortAround_arranged (fun told bottom => ih told bottom) chosen told bottom
    cases floor with
    | none => exact around false (by simp) (by simp)
    | some f =>
      obtain ⟨mem, least⟩ := bottom f rfl
      have told' := Pivoted.floor_told chosen told mem least
      simp only [told', Functor.map, Except.map]
      refine around _ ?_ ?_
      · simp only [Bool.not_eq_true', decide_eq_false_iff_not, Nat.not_lt]
        exact fun low x mem => Nat.le_trans low (least x mem)
      · simp

theorem quick_arranged (told : AllTold before rank items) :
    Gives (Arranged rank items) (quick before items) := byPivots_arranged _ told (by simp [Bottom])

/-- A test that tells any two of the items apart by their ranks never fails while they are sorted, and
puts them into stable order. -/
theorem sort_arranged (told : AllTold before rank items) :
    Gives (Arranged rank items) (sort before items) := by
  unfold sort
  dsimp only
  split
  · exact byInsertion_arranged told
  next many =>
  have nonempty : items ≠ [] := by
    rintro rfl
    exact many (Nat.zero_le _)
  split
  · exact byRuns_arranged nofun nonempty told
  · refine byRuns_arranged (fun d same items told => ?_) nonempty told
    cases same
    exact quick_arranged told

end Console.Sorting
