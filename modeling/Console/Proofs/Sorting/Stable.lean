import Console.Sorting
import Mathlib.Data.List.Pairwise
import Mathlib.Data.List.Perm.Basic
import Mathlib.Tactic.Common

/-!
# Stable order

Items have ranks. They are in stable order if no item comes before one of lower rank, and items of one
rank come in the order that they had. There is one such order: what is sorted in parts and merged is
what is sorted at once.
-/

namespace Console.Sorting

variable {ε α β : Type} {rank : α → Nat} {x y : α}

section

variable {items items' out out' left right left' right' : List α}

/-- No item comes before one of lower rank. -/
def Ascending (rank : α → Nat) (items : List α) : Prop := items.Pairwise fun x y => rank x ≤ rank y

/-- Of each rank there are the same items in the same order. -/
def Alike (rank : α → Nat) (items out : List α) : Prop :=
  ∀ n, out.filter (rank · = n) = items.filter (rank · = n)

/-- `out` has the items in stable order. -/
structure Arranged (rank : α → Nat) (items out : List α) : Prop where
  ascending : Ascending rank out
  alike : Alike rank items out

namespace Alike

theorem refl (items : List α) : Alike rank items items := fun _ => rfl

theorem symm (alike : Alike rank items out) : Alike rank out items := fun n => (alike n).symm

theorem trans (first : Alike rank items out) (second : Alike rank out out') :
    Alike rank items out' := fun n => (second n).trans (first n)

theorem append (first : Alike rank left left') (second : Alike rank right right') :
    Alike rank (left ++ right) (left' ++ right') := by
  intro n
  rw [List.filter_append, List.filter_append, first n, second n]

theorem cons (x : α) (alike : Alike rank items out) : Alike rank (x :: items) (x :: out) :=
  append (refl [x]) alike

/-- Neighbours of different ranks may change places. -/
theorem swap (differ : rank x ≠ rank y) (items : List α) :
    Alike rank (x :: y :: items) (y :: x :: items) := by
  intro n
  by_cases first : rank x = n
  · have second : rank y ≠ n := fun same => differ (first.trans same.symm)
    simp [first, second]
  · simp [List.filter_cons, first]

/-- An item may pass others of different ranks. -/
theorem pass (differ : ∀ y ∈ items, rank x ≠ rank y) : Alike rank (x :: items) (items ++ [x]) := by
  induction items with
  | nil => exact refl [x]
  | cons y items ih =>
    obtain ⟨first, others⟩ := List.forall_mem_cons.1 differ
    exact (swap first items).trans ((ih others).cons y)

/-- Items of different ranks may be put the other way round. -/
theorem reverse (differ : items.Pairwise fun x y => rank x ≠ rank y) :
    Alike rank items items.reverse := by
  induction items with
  | nil => exact refl []
  | cons x items ih =>
    obtain ⟨first, others⟩ := List.pairwise_cons.1 differ
    rw [List.reverse_cons]
    exact (pass first).trans ((ih others).append (refl [x]))

/-- Parting by rank keeps the items of one rank together. -/
theorem parted (low : Nat → Bool) (items : List α) :
    Alike rank items ((items.filter fun x => low (rank x)) ++ items.filter fun x => !low (rank x)) := by
  intro n
  have part (q : Nat → Bool) : (items.filter fun x => q (rank x)).filter (rank · = n) =
      if q n then items.filter (rank · = n) else [] := by
    rw [List.filter_filter]
    split
    · exact List.filter_congr fun x _ => by by_cases here : rank x = n <;> simp_all
    · exact List.filter_eq_nil_iff.2 fun x _ => by by_cases here : rank x = n <;> simp_all
  rw [List.filter_append, part low, part (!low ·)]
  cases low n <;> simp

theorem perm (alike : Alike rank items out) : out.Perm items := by
  classical
  refine List.perm_iff_count.2 fun x => ?_
  have counted := congrArg (List.count x) (alike (rank x))
  rwa [List.count_filter (by simp), List.count_filter (by simp)] at counted

theorem length_eq (alike : Alike rank items out) : out.length = items.length := alike.perm.length_eq

/-- What is alike and begins alike goes on alike. -/
theorem tail (alike : Alike rank (x :: items) (x :: out)) : Alike rank items out := by
  intro n
  have here := alike n
  by_cases same : rank x = n
  · simpa [same] using here
  · simpa [List.filter_cons, same] using here

end Alike

section

variable (rank : α → Nat) (x y z : α)

theorem rank_total : (decide (rank x ≤ rank y) || decide (rank y ≤ rank x)) = true := by
  simpa using Nat.le_total (rank x) (rank y)

theorem rank_trans (first : decide (rank x ≤ rank y) = true)
    (second : decide (rank y ≤ rank z) = true) : decide (rank x ≤ rank z) = true := by
  simp only [decide_eq_true_eq] at *
  omega

end

theorem ascending_concat :
    Ascending rank (items ++ [x]) ↔ Ascending rank items ∧ ∀ y ∈ items, rank y ≤ rank x := by
  simp [Ascending, List.pairwise_append]

/-- Of the items that no item is below the value is the first. -/
structure Leads (rank : α → Nat) (x : α) (items : List α) : Prop where
  least : ∀ y ∈ items, rank x ≤ rank y
  first : ∃ others, items.filter (rank · = rank x) = x :: others

namespace Leads

theorem mem (leads : Leads rank x items) : x ∈ items := by
  obtain ⟨others, first⟩ := leads.first
  exact List.mem_of_mem_filter (first ▸ List.mem_cons_self)

theorem unique (leads : Leads rank x items) (leads' : Leads rank y items) : x = y := by
  obtain ⟨others, first⟩ := leads.first
  obtain ⟨others', first'⟩ := leads'.first
  have same := Nat.le_antisymm (leads.least y leads'.mem) (leads'.least x leads.mem)
  rw [same, first'] at first
  exact (List.cons.inj first).1.symm

theorem singleton (rank : α → Nat) (x : α) : Leads rank x [x] := ⟨by simp, [], by simp⟩

/-- Behind the others an item leads only if it is below the leader. -/
theorem concat (leads : Leads rank x items) (y : α) :
    Leads rank (if rank y < rank x then y else x) (items ++ [y]) := by
  obtain ⟨least, others, first⟩ := leads
  split
  · next lower =>
    have above : ∀ z ∈ items, rank y < rank z := fun z mem => Nat.lt_of_lt_of_le lower (least z mem)
    refine ⟨List.forall_mem_append.2 ⟨fun z mem => Nat.le_of_lt (above z mem), by simp⟩, [], ?_⟩
    have absent : items.filter (rank · = rank y) = [] :=
      List.filter_eq_nil_iff.2 fun z mem => by simpa using Nat.ne_of_gt (above z mem)
    simp [absent]
  · next higher =>
    refine ⟨List.forall_mem_append.2 ⟨least, by simpa using higher⟩, ?_⟩
    exact ⟨others ++ [y].filter (rank · = rank x), by rw [List.filter_append, first, List.cons_append]⟩

theorem map {f : β → α} {z : β} {items : List β} (leads : Leads (rank ∘ f) z items) :
    Leads rank (f z) (items.map f) := by
  obtain ⟨least, others, first⟩ := leads
  refine ⟨by simpa using least, others.map f, ?_⟩
  rw [List.filter_map, ← List.map_cons, ← first]
  rfl

end Leads

namespace Arranged

theorem of_ascending (ascending : Ascending rank items) : Arranged rank items items :=
  ⟨ascending, .refl items⟩

theorem of_alike (alike : Alike rank items items') (arranged : Arranged rank items' out) :
    Arranged rank items out := ⟨arranged.ascending, alike.trans arranged.alike⟩

theorem mem_iff (arranged : Arranged rank items out) : x ∈ out ↔ x ∈ items :=
  arranged.alike.perm.mem_iff

/-- Lower items, arranged, come before others, arranged. -/
theorem append (first : Arranged rank left left') (second : Arranged rank right right')
    (lower : ∀ x ∈ left, ∀ y ∈ right, rank x ≤ rank y) :
    Arranged rank (left ++ right) (left' ++ right') where
  ascending := List.pairwise_append.2 ⟨first.ascending, second.ascending,
    fun x mem y mem' => lower x (first.mem_iff.1 mem) y (second.mem_iff.1 mem')⟩
  alike := first.alike.append second.alike

/-- Of items in stable order the first leads. -/
theorem leads (arranged : Arranged rank items (x :: out)) : Leads rank x items := by
  refine ⟨fun y mem => ?_, out.filter (rank · = rank x), ?_⟩
  · rcases List.mem_cons.1 (arranged.mem_iff.2 mem) with rfl | mem
    · exact Nat.le_refl _
    · exact (List.pairwise_cons.1 arranged.ascending).1 y mem
  · rw [← arranged.alike, List.filter_cons_of_pos (by simp)]

/-- There is one stable order. -/
theorem unique (arranged : Arranged rank items out) (arranged' : Arranged rank items out') :
    out = out' := by
  induction out generalizing items out' with
  | nil => exact (List.length_eq_zero_iff.1
      (arranged'.alike.length_eq.trans arranged.alike.length_eq.symm)).symm
  | cons x out ih =>
    have alike := arranged.alike.symm.trans arranged'.alike
    obtain _ | ⟨y, out'⟩ := out'
    · cases alike.length_eq
    obtain rfl := arranged.leads.unique arranged'.leads
    obtain ⟨-, rest⟩ := List.pairwise_cons.1 arranged.ascending
    obtain ⟨-, rest'⟩ := List.pairwise_cons.1 arranged'.ascending
    rw [ih ⟨rest, .refl out⟩ ⟨rest', alike.tail⟩]

end Arranged

/-- Two ascending lists, merged; of items of one rank those of the left list come first. -/
def merged (rank : α → Nat) (left right : List α) : List α :=
  left.merge right fun x y => rank x ≤ rank y

theorem merged_nil_left (right : List α) : merged rank [] right = right := by simp [merged]

theorem merged_nil_right (left : List α) : merged rank left [] = left := by simp [merged]

/-- The right list's first item comes first if it is lower. -/
theorem merged_cons (x : α) (left : List α) (y : α) (right : List α) :
    merged rank (x :: left) (y :: right) =
      if rank y < rank x then y :: merged rank (x :: left) right
      else x :: merged rank left (y :: right) := by
  simp only [merged, List.cons_merge_cons, decide_eq_true_eq, ← Nat.not_lt]
  split <;> simp_all

theorem alike_merged (ascending : Ascending rank left) (right : List α) :
    Alike rank (left ++ right) (merged rank left right) := by
  induction left generalizing right with
  | nil =>
    rw [merged_nil_left]
    exact .refl right
  | cons x left ih =>
    obtain ⟨least, rest⟩ := List.pairwise_cons.1 ascending
    induction right with
    | nil =>
      rw [merged_nil_right, List.append_nil]
      exact .refl _
    | cons y right ih' =>
      rw [merged_cons]
      split
      · next lower =>
        have higher : ∀ z ∈ x :: left, rank y ≠ rank z := by
          intro z mem
          rcases List.mem_cons.1 mem with rfl | mem
          · exact Nat.ne_of_lt lower
          · exact Nat.ne_of_lt (Nat.lt_of_lt_of_le lower (least z mem))
        have passed := (Alike.pass higher).symm.append (.refl right)
        rw [List.append_assoc, List.singleton_append] at passed
        exact passed.trans (ih'.cons y)
      · exact (ih rest (y :: right)).cons x

theorem arranged_merged (ascending : Ascending rank left) (ascending' : Ascending rank right) :
    Arranged rank (left ++ right) (merged rank left right) := by
  refine ⟨?_, alike_merged ascending right⟩
  have ordered := List.pairwise_merge (rank_trans rank) (rank_total rank) left right
    (by simpa [Ascending] using ascending) (by simpa [Ascending] using ascending')
  simpa [Ascending, Sorting.merged] using ordered

/-- Arranged parts are merged into the whole, arranged. -/
theorem Arranged.merged (first : Arranged rank left left') (second : Arranged rank right right') :
    Arranged rank (left ++ right) (merged rank left' right') :=
  .of_alike (first.alike.append second.alike) (arranged_merged first.ascending second.ascending)

/-- Read from the back, the left list's last item comes last if it is higher. -/
theorem merged_concat (ascending : Ascending rank (left ++ [x]))
    (ascending' : Ascending rank (right ++ [y])) :
    merged rank (left ++ [x]) (right ++ [y]) =
      if rank y < rank x then merged rank left (right ++ [y]) ++ [x]
      else merged rank (left ++ [x]) right ++ [y] := by
  refine (arranged_merged ascending ascending').unique ?_
  obtain ⟨ordered, greatest⟩ := ascending_concat.1 ascending
  obtain ⟨ordered', greatest'⟩ := ascending_concat.1 ascending'
  split
  · next lower =>
    have rest := arranged_merged ordered ascending'
    have below : ∀ z ∈ right ++ [y], rank z < rank x := by
      intro z mem
      rcases List.mem_append.1 mem with mem | mem
      · exact Nat.lt_of_le_of_lt (greatest' z mem) lower
      · exact List.mem_singleton.1 mem ▸ lower
    refine ⟨ascending_concat.2 ⟨rest.ascending, fun z mem => ?_⟩, ?_⟩
    · rcases List.mem_append.1 (rest.mem_iff.1 mem) with mem | mem
      · exact greatest z mem
      · exact Nat.le_of_lt (below z mem)
    · have passed := (Alike.refl left).append (.pass fun z mem => Nat.ne_of_gt (below z mem))
      rw [List.append_assoc, List.singleton_append]
      rw [← List.append_assoc] at passed
      exact passed.trans (rest.alike.append (.refl [x]))
  · next higher =>
    have rest := arranged_merged ascending ordered'
    have below : ∀ z ∈ left ++ [x], rank z ≤ rank y := by
      intro z mem
      rcases List.mem_append.1 mem with mem | mem
      · exact Nat.le_trans (greatest z mem) (Nat.not_lt.1 higher)
      · exact List.mem_singleton.1 mem ▸ Nat.not_lt.1 higher
    refine ⟨ascending_concat.2 ⟨rest.ascending, fun z mem => ?_⟩, ?_⟩
    · rcases List.mem_append.1 (rest.mem_iff.1 mem) with mem | mem
      · exact below z mem
      · exact greatest' z mem
    · rw [← List.append_assoc]
      exact rest.alike.append (.refl [y])

/-- Sorting by merging puts items into stable order. -/
theorem arranged_mergeSort (rank : α → Nat) (items : List α) :
    Arranged rank items (items.mergeSort fun x y => rank x ≤ rank y) := by
  have perm := List.mergeSort_perm items fun x y => decide (rank x ≤ rank y)
  have ascending := List.pairwise_mergeSort (rank_trans rank) (rank_total rank) items
  refine ⟨by simpa [Ascending] using ascending, fun n => ?_⟩
  have one : (items.filter (rank · = n)).Pairwise fun x y => decide (rank x ≤ rank y) = true := by
    refine List.pairwise_of_forall_mem_list fun x mem y mem' => ?_
    have first : rank x = n := by simpa using (List.mem_filter.1 mem).2
    have second : rank y = n := by simpa using (List.mem_filter.1 mem').2
    simp [first, second]
  have inside := (List.sublist_mergeSort (rank_trans rank) (rank_total rank) one
    List.filter_sublist).filter (rank · = n)
  rw [List.filter_filter] at inside
  simp only [Bool.and_self] at inside
  exact (inside.eq_of_length (perm.filter _).length_eq.symm).symm

/-- Where the items in stable order stood. -/
theorem Arranged.places (arranged : Arranged rank items out) :
    ∃ places : List Nat, places.Perm (List.range items.length) ∧
      out.map some = places.map (items[·]?) ∧
      places.Pairwise fun i j => ∀ x ∈ items[i]?, ∀ y ∈ items[j]?,
        rank x < rank y ∨ rank x = rank y ∧ i < j := by
  let le (x y : α) : Bool := rank x ≤ rank y
  let placed := items.zipIdx.mergeSort (List.zipIdxLE le)
  have sorted : placed.map Prod.fst = out :=
    List.mergeSort_zipIdx.trans ((arranged_mergeSort rank items).unique arranged)
  have perm : placed.Perm items.zipIdx := List.mergeSort_perm _ _
  have places : (placed.map Prod.snd).Perm (List.range items.length) := by
    simpa [List.range_eq_range'] using perm.map Prod.snd
  have there (e) (mem : e ∈ placed) : items[e.2]? = some e.1 :=
    List.mem_zipIdx_iff_getElem?.1 (perm.mem_iff.1 mem)
  refine ⟨placed.map Prod.snd, places, ?_, ?_⟩
  · rw [← sorted, List.map_map, List.map_map]
    exact List.map_congr_left fun e mem => (there e mem).symm
  · have ordered := List.pairwise_mergeSort (List.zipIdxLE_trans (rank_trans rank))
      (List.zipIdxLE_total (rank_total rank)) items.zipIdx
    have apart := List.pairwise_map.1 (places.nodup_iff.2 List.nodup_range)
    rw [List.pairwise_map]
    refine (ordered.and apart).imp_of_mem fun {e f} mem mem' ⟨le, differ⟩ => ?_
    rw [there e mem, there f mem']
    rintro _ ⟨⟩ _ ⟨⟩
    simp only [List.zipIdxLE, decide_eq_true_eq] at le
    split_ifs at le with below above
    · rw [decide_eq_true_eq] at le
      exact .inr ⟨Nat.le_antisymm below above, Nat.lt_of_le_of_ne le differ⟩
    · exact .inl (Nat.lt_of_not_le above)

end

variable {before : α → α → Except ε Bool} {items out : List α}

/-- The test tells two items apart by their ranks, whichever of them it is asked about first. If they
have one rank, it also says that neither goes before itself. -/
structure Told (before : α → α → Except ε Bool) (rank : α → Nat) (x y : α) : Prop where
  forth : before x y = .ok (rank x < rank y)
  back : before y x = .ok (rank y < rank x)
  alone : rank x = rank y → before x x = .ok false ∧ before y y = .ok false

theorem Told.symm (told : Told before rank x y) : Told before rank y x :=
  ⟨told.back, told.forth, fun same => (told.alone same.symm).symm⟩

/-- The test tells any two of the items apart. -/
abbrev AllTold (before : α → α → Except ε Bool) (rank : α → Nat) (items : List α) : Prop :=
  items.Pairwise (Told before rank)

theorem AllTold.perm (told : AllTold before rank items) (perm : out.Perm items) :
    AllTold before rank out :=
  List.Pairwise.perm told perm.symm .symm

/-- Something comes out, and it has the property. -/
def Gives (Q : β → Prop) (r : Except ε β) : Prop := ∃ b, r = .ok b ∧ Q b

@[simp] theorem ok_bind {γ : Type} (b : β) (f : β → Except ε γ) : (Except.ok b >>= f) = f b := rfl

namespace Gives

variable {γ : Type} {Q : β → Prop} {Q' : γ → Prop} {r : Except ε β} {f : β → Except ε γ}

theorem ok {b : β} (value : Q b) : Gives Q (.ok b : Except ε β) := ⟨b, rfl, value⟩

theorem pure {b : β} (value : Q b) : Gives Q (Pure.pure b : Except ε β) := ok value

theorem bind (first : Gives Q r) (next : ∀ b, Q b → Gives Q' (f b)) : Gives Q' (r >>= f) := by
  obtain ⟨b, rfl, value⟩ := first
  exact next b value

theorem mono {Q'' : β → Prop} (gives : Gives Q r) (weaker : ∀ b, Q b → Q'' b) : Gives Q'' r := by
  obtain ⟨b, same, value⟩ := gives
  exact ⟨b, same, weaker b value⟩

/-- Two ways to the same rest. -/
theorem ite_bind {c : Prop} [Decidable c] {r' : Except ε β} (first : Gives Q r) (second : Gives Q r')
    (next : ∀ b, Q b → Gives Q' (f b)) : Gives Q' (if c then r >>= f else r' >>= f) := by
  split
  · exact first.bind next
  · exact second.bind next

end Gives

end Console.Sorting
