import Console.Proofs.Sorting.Stable

/-!
# Insertion, merging and short lists

Insertion arranges items, and merging keeps arranged lists arranged, also where the two ends of two
halves are merged at once: as a merge of two lists takes each item from one of them, what the front has
taken and what the back has taken never overlap.
-/

namespace Console.Sorting

variable {ε α : Type} {before : α → α → Except ε Bool} {rank : α → Nat} {x y : α}

/-! ## Insertion -/

theorem insertFromEnd_arranged {sorted : List α} (ascending : Ascending rank sorted.reverse)
    (told : ∀ y ∈ sorted, Told before rank x y) :
    Gives (fun out => Arranged rank (sorted.reverse ++ [x]) out.reverse)
      (insertFromEnd before x sorted) := by
  induction sorted with
  | nil => exact .ok (.of_ascending (List.pairwise_singleton _ _))
  | cons y rest ih =>
    obtain ⟨first, others⟩ := List.forall_mem_cons.1 told
    rw [List.reverse_cons] at ascending ⊢
    obtain ⟨ordered, greatest⟩ := ascending_concat.1 ascending
    rw [insertFromEnd, first.forth]
    by_cases lower : rank x < rank y
    · simp only [lower, decide_true, ok_bind, if_true]
      refine (ih ordered others).bind fun out arranged => .pure ?_
      rw [List.reverse_cons]
      refine ⟨ascending_concat.2 ⟨arranged.ascending, fun z mem => ?_⟩, ?_⟩
      · rcases List.mem_append.1 (arranged.mem_iff.1 mem) with mem | mem
        · exact greatest z mem
        · exact List.mem_singleton.1 mem ▸ Nat.le_of_lt lower
      · have swapped := (Alike.refl rest.reverse).append (Alike.swap (Nat.ne_of_gt lower) [])
        rw [List.append_assoc, List.singleton_append]
        refine swapped.trans ?_
        rw [← List.singleton_append, ← List.append_assoc]
        exact arranged.alike.append (.refl [y])
    · simp only [lower, decide_false, ok_bind, Bool.false_eq_true, if_false]
      refine .pure ?_
      rw [List.reverse_cons, List.reverse_cons]
      refine .of_ascending ?_
      refine ascending_concat.2 ⟨ascending, fun z mem => ?_⟩
      have atMost := Nat.not_lt.1 lower
      rcases List.mem_append.1 mem with mem | mem
      · exact Nat.le_trans (greatest z mem) atMost
      · exact List.mem_singleton.1 mem ▸ atMost

/-- What `sorted` has already, and the items, are arranged. -/
theorem insertAll_arranged {source sorted items : List α} (start : Arranged rank source sorted.reverse)
    (told : AllTold before rank (source ++ items)) :
    Gives (fun out => Arranged rank (source ++ items) out.reverse) (insertAll before sorted items) := by
  induction items generalizing source sorted with
  | nil =>
    rw [List.append_nil]
    exact .pure start
  | cons x items ih =>
    rw [insertAll, List.foldlM_cons]
    have pairs := (List.pairwise_append.1 told).2.2
    have here := insertFromEnd_arranged (x := x) start.ascending fun y mem =>
      (pairs y (start.mem_iff.1 (List.mem_reverse.2 mem)) x List.mem_cons_self).symm
    refine here.bind fun out inserted => ?_
    rw [← List.singleton_append, ← List.append_assoc] at told ⊢
    exact ih (.of_alike (start.alike.append (.refl [x])) inserted) told

theorem byInsertion_arranged {items : List α} (told : AllTold before rank items) :
    Gives (Arranged rank items) (byInsertion before items) := by
  have start : Arranged rank [] [].reverse := .of_ascending .nil
  exact (insertAll_arranged start told).bind fun _ arranged => .pure arranged

/-! ## Merging -/

section

variable {left right : List α} (told : ∀ x ∈ left, ∀ y ∈ right, Told before rank x y)
include told

theorem mergeForward_eq (done : List α) :
    mergeForward before done left right = .ok (done.reverse ++ merged rank left right) := by
  fun_induction mergeForward before done left right with
  | case1 done right => rw [merged_nil_left]
  | case2 done left => rw [merged_nil_right]
  | case3 done x left y right ih ih' =>
    obtain ⟨first, others⟩ := List.forall_mem_cons.1 told
    rw [(List.forall_mem_cons.1 first).1.back, merged_cons]
    by_cases lower : rank y < rank x
    · have rest := ih fun x mem y mem' => told x mem y (List.mem_cons_of_mem _ mem')
      simpa [lower] using rest
    · simpa [lower] using ih' others

theorem mergeBackward_eq (ascending : Ascending rank left.reverse)
    (ascending' : Ascending rank right.reverse) (done : List α) :
    mergeBackward before done left right =
      .ok (merged rank left.reverse right.reverse ++ done) := by
  fun_induction mergeBackward before done left right with
  | case1 done right => rw [List.reverse_nil, merged_nil_left]
  | case2 done left => rw [List.reverse_nil, merged_nil_right]
  | case3 done x left y right ih ih' =>
    obtain ⟨first, others⟩ := List.forall_mem_cons.1 told
    rw [List.reverse_cons] at ascending ascending'
    rw [(List.forall_mem_cons.1 first).1.back, List.reverse_cons, List.reverse_cons,
      merged_concat ascending ascending']
    by_cases lower : rank y < rank x
    · have rest := ih others (ascending_concat.1 ascending).1 (by rwa [List.reverse_cons])
      simpa [lower] using rest
    · have rest := ih' (fun x mem y mem' => told x mem y (List.mem_cons_of_mem _ mem'))
        (by rwa [List.reverse_cons]) (ascending_concat.1 ascending').1
      simpa [lower] using rest

theorem merge_eq (ascending : Ascending rank left) (ascending' : Ascending rank right) :
    merge before left right = .ok (merged rank left right) := by
  unfold merge
  split
  · exact mergeForward_eq told []
  · have told' : ∀ x ∈ left.reverse, ∀ y ∈ right.reverse, Told before rank x y := by simpa using told
    rw [mergeBackward_eq told' (by simpa using ascending) (by simpa using ascending')]
    simp

end

section

variable {items items' left right : List α} (first : Arranged rank items left)
  (second : Arranged rank items' right) (told : AllTold before rank (items ++ items'))
include first second told

/-- The test tells items of one part from those of another. -/
theorem told_across : ∀ x ∈ left, ∀ y ∈ right, Told before rank x y := fun x mem y mem' =>
  (List.pairwise_append.1 told).2.2 x (first.mem_iff.1 mem) y (second.mem_iff.1 mem')

theorem merge_arranged : Gives (Arranged rank (items ++ items')) (merge before left right) := by
  rw [merge_eq (told_across first second told) first.ascending second.ascending]
  exact .ok (first.merged second)

end

/-! ## Four items -/

theorem inOrder_arranged (told : Told before rank x y) :
    Gives (fun p => Arranged rank [x, y] [p.1, p.2]) (inOrder before x y) := by
  unfold inOrder
  rw [told.back]
  by_cases lower : rank y < rank x
  · refine .pure ⟨?_, ?_⟩
    · simp [Ascending, lower, Nat.le_of_lt]
    · simpa [lower] using Alike.swap (Nat.ne_of_gt lower) []
  · refine .pure ?_
    simp only [lower, decide_false, Bool.false_eq_true, if_false]
    exact .of_ascending (by simpa [Ascending] using lower)

theorem sortFour_arranged {p q r s : α} (told : AllTold before rank [p, q, r, s]) :
    Gives (Arranged rank [p, q, r, s]) (sortFour before p q r s) := by
  have pairs := told
  simp only [AllTold, List.pairwise_cons, List.forall_mem_cons] at pairs
  unfold sortFour
  refine (inOrder_arranged pairs.1.1).bind ?_
  rintro ⟨a, b⟩ pair
  refine (inOrder_arranged pairs.2.2.1.1).bind ?_
  rintro ⟨c, d⟩ pair'
  have alike : Alike rank [p, q, r, s] [a, b, c, d] := pair.alike.append pair'.alike
  replace told := told.perm alike.perm
  have ab : rank a ≤ rank b := by simpa [Ascending] using pair.ascending
  have cd : rank c ≤ rank d := by simpa [Ascending] using pair'.ascending
  -- What is left to do when the least and the greatest item are known.
  have between {least second third greatest : α} (same : Alike rank [a, b, c, d]
      [least, second, third, greatest]) (above : rank least ≤ rank second ∧ rank least ≤ rank third)
      (below : rank second ≤ rank greatest ∧ rank third ≤ rank greatest) :
      Gives (Arranged rank [p, q, r, s])
        (inOrder before second third >>= fun p => Pure.pure [least, p.1, p.2, greatest]) := by
    have told' := told.perm same.perm
    simp only [AllTold, List.pairwise_cons, List.forall_mem_cons] at told'
    refine (inOrder_arranged told'.2.1.1).bind ?_
    rintro ⟨m, n⟩ inner
    have alone (x : α) : Arranged rank [x] [x] := .of_ascending (List.pairwise_singleton _ x)
    have back := inner.append (alone greatest) (by simpa using below)
    have all := (alone least).append back (by
      simp only [List.mem_singleton, forall_eq, List.cons_append, List.nil_append,
        List.forall_mem_cons]
      omega)
    exact .pure (.of_alike (alike.trans same) all)
  simp only [AllTold, List.pairwise_cons, List.forall_mem_cons] at told
  obtain ⟨⟨-, ac, -⟩, ⟨-, bd, -⟩, -⟩ := told
  dsimp only
  rw [ac.back, bd.back]
  by_cases low : rank c < rank a <;> by_cases high : rank d < rank b <;>
    simp only [low, high, decide_true, decide_false, ok_bind]
  · have left : Alike rank [c, a, b] [a, b, c] := .pass (by simp; omega)
    have right : Alike rank [c, a, b, d] [c, a, d, b] :=
      ((Alike.swap (Nat.ne_of_gt high) []).cons a).cons c
    exact between ((left.symm.append (.refl [d])).trans right) (by omega) (by omega)
  · have left : Alike rank [c, a, b] [a, b, c] := .pass (by simp; omega)
    exact between (left.symm.append (.refl [d])) (by omega) (by omega)
  · have right : Alike rank [b, c, d] [c, d, b] := .pass (by simp; omega)
    exact between (right.cons a) (by omega) (by omega)
  · exact between (.refl _) (by omega) (by omega)

/-! ## Two halves merged from both ends -/

/-- The items of two lists, merged, each with the list that it comes from. -/
def traced (rank : α → Nat) (left right : List α) : List (α ⊕ α) :=
  merged (Sum.elim rank rank) (left.map .inl) (right.map .inr)

/-- The items that come from the left list. -/
def lefts (items : List (α ⊕ α)) : List α := items.filterMap Sum.getLeft?

/-- The items that come from the right list. -/
def rights (items : List (α ⊕ α)) : List α := items.filterMap Sum.getRight?

/-- The items, wherever they come from. -/
def untraced (items : List (α ⊕ α)) : List α := items.map (Sum.elim id id)

theorem lefts_append (items items' : List (α ⊕ α)) :
    lefts (items ++ items') = lefts items ++ lefts items' := List.filterMap_append

theorem rights_append (items items' : List (α ⊕ α)) :
    rights (items ++ items') = rights items ++ rights items' := List.filterMap_append

theorem untraced_append (items items' : List (α ⊕ α)) :
    untraced (items ++ items') = untraced items ++ untraced items' := List.map_append

theorem length_lefts_le (items : List (α ⊕ α)) : (lefts items).length ≤ items.length :=
  List.length_filterMap_le _ _

theorem length_rights_le (items : List (α ⊕ α)) : (rights items).length ≤ items.length :=
  List.length_filterMap_le _ _

section

variable {left right : List α}

theorem untraced_traced (left right : List α) :
    untraced (traced rank left right) = merged rank left right := by
  rw [traced, untraced, merged, List.map_merge (s := fun x y => rank x ≤ rank y), List.map_map,
    List.map_map]
  · simp [merged]
  · simp

theorem traced_cons (x : α) (left : List α) (y : α) (right : List α) :
    traced rank (x :: left) (y :: right) =
      if rank y < rank x then .inr y :: traced rank (x :: left) right
      else .inl x :: traced rank left (y :: right) := by
  unfold traced
  exact merged_cons ..

theorem traced_concat (ascending : Ascending rank (left ++ [x]))
    (ascending' : Ascending rank (right ++ [y])) :
    traced rank (left ++ [x]) (right ++ [y]) =
      if rank y < rank x then traced rank left (right ++ [y]) ++ [.inl x]
      else traced rank (left ++ [x]) right ++ [.inr y] := by
  unfold traced
  rw [List.map_append, List.map_append]
  exact merged_concat
    (by simpa [Ascending, List.pairwise_append, List.pairwise_map] using ascending)
    (by simpa [Ascending, List.pairwise_append, List.pairwise_map] using ascending')

/-- Merging takes all items of either list in their order. -/
theorem lefts_rights_traced (left right : List α) :
    lefts (traced rank left right) = left ∧ rights (traced rank left right) = right := by
  induction left generalizing right with
  | nil => simp [traced, merged_nil_left, lefts, rights, List.filterMap_map, Function.comp_def]
  | cons x left ih =>
    induction right with
    | nil => simp [traced, merged_nil_right, lefts, rights, List.filterMap_map, Function.comp_def]
    | cons y right ih' =>
      rw [traced_cons]
      split
      · simpa [lefts, rights, List.filterMap_cons] using ih'
      · simpa [lefts, rights, List.filterMap_cons] using ih (y :: right)

theorem length_traced (left right : List α) :
    (traced rank left right).length = left.length + right.length := by
  simp [traced, merged, List.length_merge]

@[simp] theorem lefts_traced (left right : List α) : lefts (traced rank left right) = left :=
  (lefts_rights_traced left right).1

@[simp] theorem rights_traced (left right : List α) : rights (traced rank left right) = right :=
  (lefts_rights_traced left right).2

/-- Either part of a merge has a part of either list. -/
theorem parts_of_traced {front back : List (α ⊕ α)} (splits : traced rank left right = front ++ back) :
    left = lefts front ++ lefts back ∧ right = rights front ++ rights back := by
  rw [← lefts_append, ← rights_append, ← splits, lefts_traced, rights_traced]
  exact ⟨rfl, rfl⟩

/-- Items of a merge, fewer than either list has, leave an item of each list. -/
theorem exists_untaken {taken : List (α ⊕ α)} {left' right' : List α}
    (ofLeft : left.length = (lefts taken).length + left'.length)
    (ofRight : right.length = (rights taken).length + right'.length)
    (inLeft : taken.length < left.length) (inRight : taken.length < right.length) :
    (∃ x rest, left' = x :: rest) ∧ ∃ y rest, right' = y :: rest := by
  have fewLeft := length_lefts_le taken
  have fewRight := length_rights_le taken
  exact ⟨List.exists_cons_of_length_pos (by omega), List.exists_cons_of_length_pos (by omega)⟩

end

namespace Ends

variable {left right : List α} {n : Nat} {e : Ends α}

/-- The front has taken the first `n` items of the two lists, merged. -/
def TookFirst (rank : α → Nat) (left right : List α) (n : Nat) (e : Ends α) : Prop :=
  ∃ taken, taken.length = n ∧ e.front.reverse = untraced taken ∧
    traced rank left right = taken ++ traced rank e.left e.right

/-- The back has taken the last `n` items of the two lists, merged. -/
def TookLast (rank : α → Nat) (left right : List α) (n : Nat) (e : Ends α) : Prop :=
  ∃ taken, taken.length = n ∧ e.back = untraced taken ∧
    traced rank left right = traced rank e.leftBack.reverse e.rightBack.reverse ++ taken

variable (told : ∀ x ∈ left, ∀ y ∈ right, Told before rank x y) (inLeft : n < left.length)
  (inRight : n < right.length)
include told inLeft inRight

theorem takeFirst_took (took : e.TookFirst rank left right n) :
    Gives (fun e' => e'.TookFirst rank left right (n + 1) ∧
      ∀ m, e.TookLast rank left right m → e'.TookLast rank left right m) (e.takeFirst before) := by
  obtain ⟨taken, rfl, front, splits⟩ := took
  obtain ⟨ofLeft, ofRight⟩ := parts_of_traced splits
  rw [lefts_traced] at ofLeft
  rw [rights_traced] at ofRight
  obtain ⟨eLeft, eRight, eLeftBack, eRightBack, eFront, eBack⟩ := e
  have lengthLeft : left.length = (lefts taken).length + eLeft.length := by
    rw [ofLeft, List.length_append]
  have lengthRight : right.length = (rights taken).length + eRight.length := by
    rw [ofRight, List.length_append]
  obtain ⟨⟨x, eLeft, rfl⟩, y, eRight, rfl⟩ :=
    exists_untaken lengthLeft lengthRight inLeft inRight
  have first := told x (by simp [ofLeft]) y (by simp [ofRight])
  simp only at front splits
  rw [traced_cons] at splits
  simp only [takeFirst, first.back, ok_bind, decide_eq_true_eq]
  by_cases lower : rank y < rank x
  · rw [if_pos lower] at splits ⊢
    exact .pure ⟨⟨taken ++ [.inr y], by simp, by simp [front, untraced], by simp [splits]⟩, fun _ => id⟩
  · rw [if_neg lower] at splits ⊢
    exact .pure ⟨⟨taken ++ [.inl x], by simp, by simp [front, untraced], by simp [splits]⟩, fun _ => id⟩

theorem takeLast_took (ascending : Ascending rank left) (ascending' : Ascending rank right)
    (took : e.TookLast rank left right n) :
    Gives (fun e' => e'.TookLast rank left right (n + 1) ∧
      ∀ m, e.TookFirst rank left right m → e'.TookFirst rank left right m) (e.takeLast before) := by
  obtain ⟨taken, rfl, back, splits⟩ := took
  obtain ⟨ofLeft, ofRight⟩ := parts_of_traced splits
  rw [lefts_traced] at ofLeft
  rw [rights_traced] at ofRight
  obtain ⟨eLeft, eRight, eLeftBack, eRightBack, eFront, eBack⟩ := e
  have lengthLeft : left.length = (lefts taken).length + eLeftBack.length := by
    rw [ofLeft, List.length_append, List.length_reverse, Nat.add_comm]
  have lengthRight : right.length = (rights taken).length + eRightBack.length := by
    rw [ofRight, List.length_append, List.length_reverse, Nat.add_comm]
  obtain ⟨⟨x, eLeftBack, rfl⟩, y, eRightBack, rfl⟩ :=
    exists_untaken lengthLeft lengthRight inLeft inRight
  have last := told x (by simp [ofLeft]) y (by simp [ofRight])
  simp only [List.reverse_cons] at back splits ofLeft ofRight
  rw [ofLeft] at ascending
  rw [ofRight] at ascending'
  rw [traced_concat (List.pairwise_append.1 ascending).1 (List.pairwise_append.1 ascending').1] at splits
  simp only [takeLast, last.back, ok_bind, decide_eq_true_eq]
  by_cases lower : rank y < rank x
  · rw [if_pos lower] at splits ⊢
    exact .pure ⟨⟨.inl x :: taken, by simp, by simp [back, untraced], by simp [splits]⟩, fun _ => id⟩
  · rw [if_neg lower] at splits ⊢
    exact .pure ⟨⟨.inr y :: taken, by simp, by simp [back, untraced], by simp [splits]⟩, fun _ => id⟩

omit inLeft inRight in
theorem takeBoth_took (ascending : Ascending rank left) (ascending' : Ascending rank right) (k : Nat)
    (inLeft : n + k ≤ left.length) (inRight : n + k ≤ right.length)
    (tookFirst : e.TookFirst rank left right n) (tookLast : e.TookLast rank left right n) :
    Gives (fun e' => e'.TookFirst rank left right (n + k) ∧ e'.TookLast rank left right (n + k))
      (takeBoth before k e) := by
  induction k generalizing n e with
  | zero => exact .ok ⟨tookFirst, tookLast⟩
  | succ k ih =>
    refine (takeFirst_took told (by omega) (by omega) tookFirst).bind fun e' ⟨first, keeps⟩ => ?_
    have last := keeps n tookLast
    refine (takeLast_took told (by omega) (by omega) ascending ascending' last).bind ?_
    intro e'' ⟨last, keeps⟩
    rw [← Nat.add_assoc, Nat.add_right_comm]
    exact ih (by omega) (by omega) (keeps _ first) last

omit told inLeft inRight in
/-- What neither end has taken lies between the two: either list goes on with its part of it. -/
theorem exists_untaken_between {m : Nat} (first : e.TookFirst rank left right n)
    (last : e.TookLast rank left right m) (disjoint : n + m ≤ left.length + right.length) :
    ∃ mid : List (α ⊕ α), n + mid.length + m = left.length + right.length ∧
      merged rank left right = e.front.reverse ++ untraced mid ++ e.back ∧
      (lefts mid <+: e.left ∧ e.left.length + e.leftBack.length = left.length + (lefts mid).length) ∧
      rights mid <+: e.right ∧
        e.right.length + e.rightBack.length = right.length + (rights mid).length := by
  obtain ⟨taken, rfl, front, splits⟩ := first
  obtain ⟨taken', rfl, back, splits'⟩ := last
  have whole := congrArg List.length splits'
  simp only [List.length_append, length_traced, List.length_reverse] at whole
  obtain ⟨mid, between⟩ : ∃ mid, taken ++ mid = traced rank e.leftBack.reverse e.rightBack.reverse := by
    refine List.prefix_of_prefix_length_le ⟨_, splits.symm⟩ ⟨_, splits'.symm⟩ ?_
    simp only [length_traced, List.length_reverse]
    omega
  have parts : traced rank left right = taken ++ mid ++ taken' := by rw [splits', between]
  have rest : traced rank e.left e.right = mid ++ taken' := by
    rw [splits, List.append_assoc] at parts
    exact List.append_cancel_left parts
  obtain ⟨onLeft, onRight⟩ := parts_of_traced parts
  obtain ⟨aheadLeft, aheadRight⟩ := parts_of_traced rest
  obtain ⟨behindLeft, behindRight⟩ := parts_of_traced between.symm
  rw [lefts_append] at onLeft
  rw [rights_append] at onRight
  refine ⟨mid, ?_, ?_, ⟨⟨_, aheadLeft.symm⟩, ?_⟩, ⟨_, aheadRight.symm⟩, ?_⟩
  · have all := congrArg List.length parts
    simpa only [length_traced, List.length_append] using all.symm
  · rw [← untraced_traced, parts, untraced_append, untraced_append, front, back]
  · have behind := congrArg List.length behindLeft
    rw [List.length_reverse] at behind
    rw [behind, aheadLeft, onLeft]
    simp only [List.length_append]
    omega
  · have behind := congrArg List.length behindRight
    rw [List.length_reverse] at behind
    rw [behind, aheadRight, onRight]
    simp only [List.length_append]
    omega

end Ends

section

variable {left right : List α}

/-- The test tells two ascending halves apart, so they are merged: what their ends have not taken is
one item of the longer half at most. -/
theorem mergeHalves_eq (told : ∀ x ∈ left, ∀ y ∈ right, Told before rank x y)
    (ascending : Ascending rank left.reverse) (ascending' : Ascending rank right.reverse)
    (length : left.length ≤ right.length) (length' : right.length ≤ left.length + 1) :
    mergeHalves before left right = .ok (merged rank left.reverse right.reverse) := by
  have start : Ends.TookFirst rank left.reverse right.reverse 0
      ⟨left.reverse, right.reverse, left, right, [], []⟩ := ⟨[], rfl, rfl, rfl⟩
  have start' : Ends.TookLast rank left.reverse right.reverse 0
      ⟨left.reverse, right.reverse, left, right, [], []⟩ := ⟨[], rfl, rfl, by simp⟩
  obtain ⟨e, run, first, last⟩ :=
    Ends.takeBoth_took (by simpa using told) ascending ascending' left.length (by simp) (by simpa)
      start start'
  obtain ⟨mid, many, out, ⟨ofLeft, onLeft⟩, ofRight, onRight⟩ :=
    Ends.exists_untaken_between first last (by simp only [List.length_reverse]; omega)
  have single : mid.length ≤ 1 := by
    simp only [List.length_reverse] at many
    omega
  have middle : lefts mid ++ rights mid = untraced mid := by
    obtain _ | ⟨z, _ | ⟨z', mid⟩⟩ := mid
    · rfl
    · cases z <;> rfl
    · simp at single
  rw [List.length_reverse] at onLeft onRight
  simp only [mergeHalves, List.length_reverse, run, ok_bind, onLeft, onRight, Nat.add_sub_cancel_left]
  rw [if_neg (by simp), ← List.prefix_iff_eq_take.1 ofLeft, ← List.prefix_iff_eq_take.1 ofRight,
    List.append_assoc e.front.reverse, middle, out, List.append_assoc]
  rfl

end

/-! ## Short lists -/

variable {items : List α}

/-- The first items, arranged from the last one on, and the items behind them. -/
def Started (rank : α → Nat) (items : List α) (p : List α × List α) : Prop :=
  ∃ source, source ++ p.2 = items ∧ Arranged rank source p.1.reverse

theorem started_nil (items : List α) : Started rank items ([], items) :=
  ⟨[], rfl, .of_ascending .nil⟩

theorem startWithFour_started (told : AllTold before rank items) :
    Gives (Started rank items) (startWithFour before items) := by
  unfold startWithFour
  split
  · next p q r s rest =>
    have four : AllTold before rank [p, q, r, s] :=
      List.Pairwise.sublist (by simp) told
    refine (sortFour_arranged four).bind fun out arranged => .pure ⟨[p, q, r, s], rfl, ?_⟩
    rwa [List.reverse_reverse]
  · exact .ok (started_nil items)

theorem sortShort_arranged (told : AllTold before rank items) :
    Gives (Arranged rank items) (sortShort before items) := by
  have start (half : List α) (told : AllTold before rank half) : Gives (Started rank half)
      ((if items.length < 8 then fun half => .ok ([], half) else startWithFour before) half) := by
    split
    · exact .ok (started_nil half)
    · exact startWithFour_started told
  have halves := List.take_append_drop (items.length / 2) items
  have ofLeft : AllTold before rank (items.take (items.length / 2)) :=
    told.sublist (List.take_sublist _ _)
  have ofRight : AllTold before rank (items.drop (items.length / 2)) :=
    told.sublist (List.drop_sublist _ _)
  unfold sortShort
  split
  · next few =>
    refine .pure (.of_ascending ?_)
    obtain _ | ⟨x, _ | ⟨y, rest⟩⟩ := items
    · exact .nil
    · exact List.pairwise_singleton _ _
    · simp only [List.length_cons] at few
      omega
  · refine (start _ ofLeft).bind fun p ⟨source, same, started⟩ => ?_
    refine (start _ ofRight).bind fun q ⟨source', same', started'⟩ => ?_
    rw [← same] at ofLeft
    rw [← same'] at ofRight
    refine (insertAll_arranged started ofLeft).bind fun left arranged => ?_
    refine (insertAll_arranged started' ofRight).bind fun right arranged' => ?_
    rw [same] at arranged
    rw [same'] at arranged'
    rw [← halves] at told
    have across := told_across arranged arranged' told
    have length := arranged.alike.length_eq
    have length' := arranged'.alike.length_eq
    simp only [List.length_reverse, List.length_take, List.length_drop] at length length'
    rw [mergeHalves_eq (by simpa using across) arranged.ascending arranged'.ascending (by omega)
      (by omega)]
    have whole := arranged.merged arranged'
    rw [halves] at whole
    exact .ok whole

end Console.Sorting
