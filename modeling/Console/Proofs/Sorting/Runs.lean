import Console.Proofs.Sorting.Short
import Console.Sorting.ByRuns

/-!
# Runs

Each run holds a stretch of the items, in stable order or, if it is put off, as they came. Joining runs
joins their stretches, so that all of them joined hold all items.
-/

namespace Console.Sorting

variable {ε α : Type} {before : α → α → Except ε Bool} {rank : α → Nat}
  {items items' front back : List α}

/-- One step of a run: downwards, or not. -/
def Goes (rank : α → Nat) (down : Bool) (x y : α) : Prop := decide (rank y < rank x) = down

theorem Goes.trans {down : Bool} {x y z : α} (first : Goes rank down x y) (second : Goes rank down y z) :
    Goes rank down x z := by
  unfold Goes at *
  cases down <;> simp only [decide_eq_true_eq, decide_eq_false_iff_not] at * <;> omega

/-- A run that is followed goes one way all along. -/
theorem followRun_goes {down : Bool} {last : α} {done rest : List α}
    (told : AllTold before rank ((last :: done).reverse ++ rest))
    (goes : (last :: done).Pairwise fun y x => Goes rank down x y) :
    Gives (fun found => (∃ behind, found.reverse ++ behind = (last :: done).reverse ++ rest) ∧
      found.Pairwise fun y x => Goes rank down x y) (followRun before down last (last :: done) rest) := by
  induction rest generalizing last done with
  | nil => exact .ok ⟨⟨[], rfl⟩, goes⟩
  | cons x rest ih =>
    have here : Told before rank last x := (List.pairwise_append.1 told).2.2 last (by simp) x (by simp)
    rw [followRun, here.back]
    by_cases same : decide (rank x < rank last) = down
    · simp only [same, ok_bind, beq_self_eq_true, if_true]
      have further : (x :: last :: done).Pairwise fun y x => Goes rank down x y := by
        refine List.pairwise_cons.2 ⟨fun z mem => ?_, goes⟩
        rcases List.mem_cons.1 mem with rfl | mem
        · exact same
        · exact (List.rel_of_pairwise_cons goes mem).trans same
      simpa using ih (by simpa using told) further
    · simp only [same, ok_bind, beq_iff_eq, if_false]
      exact .pure ⟨⟨x :: rest, rfl⟩, goes⟩

theorem firstRun_arranged (told : AllTold before rank items) :
    Gives (fun found => found.length ≤ items.length ∧
      Arranged rank (items.take found.length) found) (firstRun before items) := by
  unfold firstRun
  split
  · next x y rest =>
    have here : Told before rank x y := List.rel_of_pairwise_cons told (by simp)
    rw [here.back, ok_bind]
    have start : [y, x].Pairwise fun b a => Goes rank (decide (rank y < rank x)) a b := by
      simp [Goes]
    have begun : AllTold before rank ([y, x].reverse ++ rest) := by simpa using told
    refine (followRun_goes begun start).bind ?_
    rintro found ⟨⟨behind, whole⟩, goes⟩
    have split : found.reverse ++ behind = x :: y :: rest := by simpa using whole
    rw [← split]
    by_cases down : rank y < rank x
    · simp only [down, decide_true, Goes, decide_eq_true_eq] at goes
      simp only [down, decide_true, if_true]
      refine .pure ⟨by simp, ?_⟩
      have alike : Alike rank found found.reverse := .reverse (goes.imp Nat.ne_of_lt)
      rw [← List.length_reverse, List.take_left]
      exact ⟨goes.imp Nat.le_of_lt, alike.symm⟩
    · simp only [down, decide_false, Goes, decide_eq_false_iff_not, Nat.not_lt] at goes
      simp only [down, decide_false, Bool.false_eq_true, if_false]
      refine .pure ⟨by simp, ?_⟩
      rw [List.take_left]
      exact .of_ascending (List.pairwise_reverse.2 goes)
  · next short =>
    refine .ok ⟨Nat.le_refl _, ?_⟩
    rw [List.take_length]
    obtain _ | ⟨x, _ | ⟨y, rest⟩⟩ := items
    · exact .of_ascending .nil
    · exact .of_ascending (List.pairwise_singleton _ _)
    · exact absurd rfl (short x y rest)

/-- Sorting what was put off arranges it. -/
def Deferral.Arranges (before : α → α → Except ε Bool) (rank : α → Nat)
    (deferral : Option (Deferral ε α)) : Prop :=
  ∀ d ∈ deferral, ∀ items, AllTold before rank items → Gives (Arranged rank items) (d.sort items)

/-- The run has the items: arranged, or as they came if there is a way to sort them later. -/
structure Run.Has (rank : α → Nat) (deferral : Option (Deferral ε α)) (items : List α) (run : Run α) :
    Prop where
  sorted : run.sorted = true → Arranged rank items run.items
  unsorted : run.sorted = false → run.items = items ∧ deferral.isSome = true

variable {deferral : Option (Deferral ε α)} {run left right : Run α}

theorem Run.Has.arranged (arranged : Arranged rank items front) :
    Run.Has rank deferral items ⟨front, true⟩ := ⟨fun _ => arranged, nofun⟩

theorem goodLength_pos {count : Nat} (positive : 0 < count) : 0 < goodLength count := by
  unfold goodLength
  split
  · omega
  · next many =>
    have root : 2 ≤ 1 <<< ((1 + Nat.log2 count) / 2) := by
      have large : 12 ≤ Nat.log2 count := (Nat.le_log2 (by omega)).2 (by omega)
      rw [Nat.one_shiftLeft]
      exact Nat.le_self_pow (by omega) 2
    exact Nat.div_pos (Nat.le_trans root (Nat.le_add_right _ _)) Nat.two_pos

/-- The next run has items from the front. -/
theorem nextRun_has {good : Nat} (long : 0 < good) (nonempty : items ≠ [])
    (told : AllTold before rank items) :
    Gives (fun run => 0 < run.items.length ∧ run.items.length ≤ items.length ∧
      run.Has rank deferral (items.take run.items.length)) (nextRun before deferral good items) := by
  have many : 0 < items.length := List.length_pos_iff.2 nonempty
  have nothing : Arranged rank (items.take ([] : List α).length) [] := .of_ascending .nil
  refine .ite_bind (.ok ⟨Nat.zero_le _, nothing⟩) (firstRun_arranged told) ?_
  rintro found ⟨length, arranged⟩
  dsimp only
  split
  · next enough => exact .pure ⟨Nat.lt_of_lt_of_le long enough, length, .arranged arranged⟩
  · have stretch (n : Nat) (positive : 0 < n) :
        0 < (items.take n).length ∧ (items.take n).length ≤ items.length := by
      rw [List.length_take]
      omega
    split
    · next waits =>
      have ⟨positive, fits⟩ := stretch good long
      refine .pure ⟨positive, fits, nofun, fun _ => ⟨?_, waits⟩⟩
      rw [List.length_take, ← List.take_take, List.take_of_length_le (Nat.le_refl items.length)]
    · refine (sortShort_arranged (told.sublist (List.take_sublist _ _))).bind fun out sorted => ?_
      have ⟨positive, fits⟩ := stretch shortLength (by decide)
      rw [← sorted.alike.length_eq] at positive fits
      refine .pure ⟨positive, fits, .arranged ?_⟩
      rwa [sorted.alike.length_eq, List.length_take, ← List.take_take,
        List.take_of_length_le (Nat.le_refl items.length)]

section

variable (arranges : Deferral.Arranges before rank deferral)
include arranges

theorem Run.settle_arranged (has : run.Has rank deferral items) (told : AllTold before rank items) :
    Gives (Arranged rank items) (run.settle deferral) := by
  unfold Run.settle
  cases order : run.sorted with
  | true =>
    have arranged := has.sorted order
    cases deferral with
    | none => exact .ok arranged
    | some d => simpa using Gives.ok arranged
  | false =>
    obtain ⟨same, waits⟩ := has.unsorted order
    obtain ⟨d, rfl⟩ := Option.isSome_iff_exists.1 waits
    simp only [Bool.false_eq_true, if_false, same]
    exact arranges d rfl items told

theorem Run.join_has (has : left.Has rank deferral items) (has' : right.Has rank deferral items')
    (told : AllTold before rank (items ++ items')) :
    Gives (Run.Has rank deferral (items ++ items')) (Run.join before deferral left right) := by
  unfold Run.join
  dsimp only
  split
  · next put =>
    simp only [Bool.and_eq_true, Bool.not_eq_true'] at put
    obtain ⟨⟨-, unsorted⟩, unsorted'⟩ := put
    obtain ⟨same, waits⟩ := has.unsorted unsorted
    obtain ⟨same', -⟩ := has'.unsorted unsorted'
    exact .pure ⟨nofun, fun _ => ⟨by rw [same, same'], waits⟩⟩
  · obtain ⟨ofLeft, ofRight, -⟩ := List.pairwise_append.1 told
    refine (Run.settle_arranged arranges has ofLeft).bind fun out arranged => ?_
    refine (Run.settle_arranged arranges has' ofRight).bind fun out' arranged' => ?_
    refine (merge_arranged arranged arranged' told).bind fun whole sorted => ?_
    exact .pure (.arranged sorted)

end

/-- The waiting runs, last one first, have the items. -/
def Waiting.Have (rank : α → Nat) (deferral : Option (Deferral ε α)) (items : List α) :
    List (Waiting α) → Prop
  | [] => items = []
  | last :: waiting =>
    ∃ front back, items = front ++ back ∧ last.run.Has rank deferral back ∧
      Waiting.Have rank deferral front waiting

section

variable (arranges : Deferral.Arranges before rank deferral) {waiting : List (Waiting α)}
include arranges

theorem joinUpTo_has (height : Nat) (have' : Waiting.Have rank deferral front waiting)
    (has : run.Has rank deferral back) (told : AllTold before rank (front ++ back)) :
    Gives (fun p => ∃ front' back', front' ++ back' = front ++ back ∧
        p.1.Has rank deferral back' ∧ Waiting.Have rank deferral front' p.2)
      (joinUpTo (Run.join before deferral) height run waiting) := by
  induction waiting generalizing front back run with
  | nil => exact .ok ⟨front, back, rfl, has, have'⟩
  | cons last waiting ih =>
    rw [joinUpTo]
    split
    · obtain ⟨front, mid, rfl, has', have'⟩ := have'
      rw [List.append_assoc] at told ⊢
      refine (Run.join_has arranges has' has (List.pairwise_append.1 told).2.1).bind ?_
      exact fun joined has => ih have' has told
    · exact .pure ⟨front, back, rfl, has, have'⟩

theorem joinAll_has (have' : Waiting.Have rank deferral front waiting)
    (has : run.Has rank deferral back) (told : AllTold before rank (front ++ back)) :
    Gives (Run.Has rank deferral (front ++ back))
      (waiting.foldlM (fun run last => Run.join before deferral last.run run) run) := by
  induction waiting generalizing front back run with
  | nil =>
    obtain rfl : front = [] := have'
    exact .pure has
  | cons last waiting ih =>
    rw [List.foldlM_cons]
    obtain ⟨front, mid, rfl, has', have'⟩ := have'
    rw [List.append_assoc] at told ⊢
    refine (Run.join_has arranges has' has (List.pairwise_append.1 told).2.1).bind ?_
    exact fun joined has => ih have' has told

theorem joinRuns_has {good : Nat} (long : 0 < good) (count start : Nat)
    (have' : Waiting.Have rank deferral front waiting) (has : run.Has rank deferral back)
    (told : AllTold before rank (front ++ back ++ items)) :
    Gives (Run.Has rank deferral (front ++ back ++ items))
      (joinRuns (nextRun before deferral good) (Run.join before deferral) count waiting run start
        items) := by
  induction length : items.length using Nat.strongRecOn generalizing items front back waiting run start with
  | ind n ih =>
    cases items with
    | nil =>
      rw [joinRuns, List.append_nil]
      exact joinAll_has arranges have' has (by simpa using told)
    | cons x rest =>
      rw [joinRuns]
      obtain ⟨before', ofRest, -⟩ := List.pairwise_append.1 told
      refine (nextRun_has long (List.cons_ne_nil x rest) ofRest).bind ?_
      rintro following ⟨nonempty, fits, next⟩
      refine (joinUpTo_has arranges _ have' has before').bind ?_
      rintro joined ⟨front', back', same, has', have'⟩
      have split : rest.drop (following.items.length - 1) =
          (x :: rest).drop following.items.length := by
        obtain ⟨k, more⟩ : ∃ k, following.items.length = k + 1 :=
          ⟨_, (Nat.succ_pred_eq_of_pos nonempty).symm⟩
        rw [more]
        rfl
      dsimp only
      rw [split]
      have whole : front ++ back ++ (x :: rest) = (front' ++ back') ++
          (x :: rest).take following.items.length ++ (x :: rest).drop following.items.length := by
        rw [same, List.append_assoc _ (List.take _ _), List.take_append_drop]
      rw [whole] at told ⊢
      refine ih _ ?_ _ ⟨front', back', rfl, has', have'⟩ next told rfl
      rw [← length, List.length_drop, List.length_cons] at *
      omega

theorem byRuns_arranged (nonempty : items ≠ []) (told : AllTold before rank items) :
    Gives (Arranged rank items) (byRuns before deferral items) := by
  have long := goodLength_pos (List.length_pos_iff.2 nonempty)
  unfold byRuns
  refine (nextRun_has long nonempty told).bind ?_
  rintro first ⟨-, fits, has⟩
  have whole := List.take_append_drop first.items.length items
  have nothing : Waiting.Have rank deferral [] [] := rfl
  have joined := joinRuns_has arranges long items.length first.items.length nothing has
    (show AllTold before rank ([] ++ _ ++ items.drop first.items.length) by
      rwa [List.nil_append, whole])
  rw [List.nil_append, whole] at joined
  exact joined.bind fun run has => Run.settle_arranged arranges has told

end

end Console.Sorting
