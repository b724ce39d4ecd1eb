import Console.Builtin.Call
import Console.Proofs.Machine
import Console.Text

/-!
# Finding, splitting and replacing

Splitting, counting, replacing and finding all go by the same cuts: at the first occurrence of the
separator, and again in what stands behind it. So the pieces joined with the separator are the text
again, and joined with something else they are the text with the separator replaced.
-/

namespace Console

namespace Text

variable {sep new s before after : List Char} {n : Nat}

theorem cutFrom_eq (sep seen s : List Char) :
    cutFrom sep seen s = (cut? sep s).map fun cut => (seen.reverse ++ cut.1, cut.2) := by
  induction s generalizing seen with
  | nil =>
    rw [cut?, cutFrom, cutFrom]
    split <;> simp
  | cons c s ih =>
    rw [cut?, cutFrom, cutFrom]
    split
    · simp
    · rw [ih, ih [c], Option.map_map]
      refine congrArg (Option.map · _) (funext fun cut => ?_)
      simp

/-- What is cut off, the separator and the rest make up the text. -/
theorem append_of_cut? (found : cut? sep s = some (before, after)) : before ++ sep ++ after = s := by
  induction s generalizing before with
  | nil =>
    rw [cut?, cutFrom] at found
    split at found
    · next starts =>
      cases found
      simp_all
    · cases found
  | cons c s ih =>
    rw [cut?, cutFrom] at found
    split at found
    · next starts =>
      cases found
      exact List.prefix_iff_eq_append.1 (List.isPrefixOf_iff_prefix.1 starts)
    · rw [cutFrom_eq] at found
      obtain ⟨cut, later, same⟩ := Option.map_eq_some_iff.1 found
      cases same
      exact congrArg (c :: ·) (ih later)

theorem length_lt_of_cut? (nonempty : sep ≠ []) (found : cut? sep s = some (before, after)) :
    after.length < s.length := by
  have long := List.length_pos_iff.2 nonempty
  have whole := congrArg List.length (append_of_cut? found)
  simp only [List.length_append] at whole
  omega

theorem splitAtMost_ne_nil (sep : List Char) (n : Nat) (s : List Char) : splitAtMost sep n s ≠ [] := by
  cases n with
  | zero => exact List.cons_ne_nil _ _
  | succ n =>
    rw [splitAtMost]
    split <;> exact List.cons_ne_nil _ _

theorem length_splitAtMost_le (sep : List Char) (n : Nat) (s : List Char) :
    (splitAtMost sep n s).length ≤ n + 1 := by
  induction n generalizing s with
  | zero => exact Nat.le_refl 1
  | succ n ih =>
    rw [splitAtMost]
    split
    · exact Nat.le_add_left ..
    · exact Nat.succ_le_succ (ih _)

/-- There is one piece more than there are occurrences. -/
theorem length_splitAtMost (sep : List Char) (n : Nat) (s : List Char) :
    (splitAtMost sep n s).length = countUpTo sep n s + 1 := by
  induction n generalizing s with
  | zero => rfl
  | succ n ih =>
    rw [splitAtMost, countUpTo]
    split
    · rfl
    · rw [List.length_cons, ih]

/-- The pieces joined with something else. -/
theorem intercalate_splitAtMost (sep new : List Char) (n : Nat) (s : List Char) :
    new.intercalate (splitAtMost sep n s) = replaceUpTo sep new n s := by
  induction n generalizing s with
  | zero => exact List.intercalate_singleton
  | succ n ih =>
    rw [splitAtMost, replaceUpTo]
    split
    · exact List.intercalate_singleton
    · rw [List.intercalate_cons_of_ne_nil (splitAtMost_ne_nil _ _ _), ih]

theorem replaceUpTo_self (sep : List Char) (n : Nat) (s : List Char) : replaceUpTo sep sep n s = s := by
  induction n generalizing s with
  | zero => rfl
  | succ n ih =>
    rw [replaceUpTo]
    split
    · rfl
    · next found => rw [ih, append_of_cut? found]

/-- No text is cut more often than it has characters. -/
theorem splitAtMost_succ (nonempty : sep ≠ []) (enough : s.length ≤ n) :
    splitAtMost sep (n + 1) s = splitAtMost sep n s := by
  induction n generalizing s with
  | zero =>
    rw [splitAtMost, splitAtMost]
    split
    · rfl
    · next found => exact absurd (length_lt_of_cut? nonempty found) (by omega)
  | succ n ih =>
    rw [splitAtMost, splitAtMost]
    split
    · rfl
    · next found =>
      have shorter := length_lt_of_cut? nonempty found
      rw [ih (by omega)]

theorem splitAtMost_length_succ (nonempty : sep ≠ []) (s : List Char) :
    splitAtMost sep (s.length + 1) s = split sep s := splitAtMost_succ nonempty (Nat.le_refl _)

theorem intercalate_split (nonempty : sep ≠ []) (new s : List Char) :
    new.intercalate (split sep s) = replace sep new s := by
  rw [replace, replaceAtMost, if_neg (by simpa using nonempty), ← intercalate_splitAtMost,
    splitAtMost_length_succ nonempty]

theorem length_split (nonempty : sep ≠ []) (s : List Char) :
    (split sep s).length = count sep s + 1 := by
  rw [split, length_splitAtMost, count, if_neg (by simpa using nonempty)]

/-- The first piece stands before the first occurrence, if there is one. -/
theorem find?_eq (nonempty : sep ≠ []) (s : List Char) :
    find? sep s = match split sep s with
      | first :: _ :: _ => some first.length
      | _ => none := by
  rw [← splitAtMost_length_succ nonempty, splitAtMost, find?]
  cases found : cut? sep s with
  | none => rfl
  | some cut =>
    obtain ⟨first, rest, pieces⟩ := List.exists_cons_of_ne_nil (splitAtMost_ne_nil sep s.length cut.2)
    simp [pieces]

end Text

namespace StrMethod

open Eval

variable {caller : Caller} {m : Machine} {r : Ref .list} {s sep new : String} {k : Int64}
  {pieces : List String}

/-- The list holds these texts. -/
def Lists (m : Machine) (r : Ref .list) (pieces : List String) : Prop :=
  m.heap.list r = (pieces.map Value.str).toArray

theorem Lists.unique {others : List String} (lists : Lists m r pieces) (lists' : Lists m r others) :
    pieces = others := by
  have same := List.toArray_inj (lists.symm.trans lists')
  exact (List.map_injective_iff.2 fun _ _ => Value.str.inj) same

theorem run_texts (all : List (List Char)) (m : Machine) :
    ∃ r m', texts all m = .ok (.list r) m' ∧ Lists m' r (all.map String.ofList) := by
  refine ⟨⟨m.heap.lists.size⟩, _, rfl, ?_⟩
  simp [Lists, Heap.list, text, Function.comp_def]

theorem joinable_texts (place : Nat) (pieces : List String) :
    joinable place (pieces.map Value.str) = .ok pieces := by
  induction pieces generalizing place with
  | nil => rfl
  | cons piece pieces ih =>
    rw [List.map_cons, joinable, ih]
    rfl

theorem run_join (lists : Lists m r pieces) (caller : Caller) (new : String) :
    call caller new .join ⟨[.list r], []⟩ m = .ok (.str (new.intercalate pieces)) m := by
  have one : (⟨[.list r], []⟩ : Arguments).one "join" = .ok (.list r) := rfl
  rw [call, callJoin, one, ofFault, pure_bind, items, run_ask, lists, joinable_texts]
  rfl

theorem run_len (lists : Lists m r pieces) (caller : Caller) :
    Builtin.call caller .len ⟨[.list r], []⟩ m = .ok (.int (.ofNat pieces.length)) m := by
  change EStateM.Result.ok (Value.int (.ofNat (m.heap.list r).size)) m = _
  rw [lists, List.size_toArray, List.length_map]

theorem intercalate_ofList (new : String) (pieces : List (List Char)) :
    new.intercalate (pieces.map String.ofList) = String.ofList (new.toList.intercalate pieces) := by
  refine String.toList_inj.1 ?_
  rw [String.toList_intercalate, String.toList_ofList, List.map_map]
  simp [Function.comp_def]

theorem intercalate_splitAround (sep : List Char) (limit : Option Nat) (s : List Char) :
    sep.intercalate (splitAround sep limit s) = s := by
  cases limit with
  | none => exact (Text.intercalate_splitAtMost ..).trans (Text.replaceUpTo_self ..)
  | some n => exact (Text.intercalate_splitAtMost ..).trans (Text.replaceUpTo_self ..)

/-- The text cut at a separator that is not empty; a list of the pieces joins to the text again. -/
theorem run_split (nonempty : sep ≠ "") (caller : Caller) (s : String) (k : Option Int64)
    {limit : Option Nat} (limits : splitLimit (k.map .int) = .ok limit) (m : Machine) :
    ∃ r m', call caller s .split ⟨.str sep :: (k.map Value.int).toList, []⟩ m = .ok (.list r) m' ∧
      Lists m' r ((splitAround sep.toList limit s.toList).map String.ofList) ∧
      call caller sep .join ⟨[.list r], []⟩ m' = .ok (.str s) m' := by
  have given : (⟨.str sep :: (k.map Value.int).toList, []⟩ : Arguments).upToTwo "split" =
      .ok (some (.str sep), k.map .int) := by cases k <;> rfl
  have filled : sep.toList.isEmpty = false := by simpa using nonempty
  obtain ⟨r, m', run, lists⟩ := run_texts (splitAround sep.toList limit s.toList) m
  refine ⟨r, m', ?_, lists, ?_⟩
  · rw [call, callSplit, given, ofFault, pure_bind]
    dsimp only
    rw [limits, ofFault, pure_bind]
    change (if sep.toList.isEmpty then _ else texts _) m = _
    rw [filled]
    exact run
  · rw [run_join lists, intercalate_ofList, intercalate_splitAround, String.ofList_toList]

/-- For a separator that is not empty, splitting, joining, counting, replacing and finding agree. -/
theorem search_methods_agree (caller : Caller) (m : Machine) (s sep new : String) (k : Int64)
    (nonempty : sep ≠ "") :
    ∃ pieces few r r' m' m'',
      call caller s .split ⟨[.str sep], []⟩ m = .ok (.list r) m' ∧ Lists m' r pieces ∧
      call caller s .split ⟨[.str sep, .int k], []⟩ m = .ok (.list r') m'' ∧ Lists m'' r' few ∧
      call caller sep .join ⟨[.list r], []⟩ m' = .ok (.str s) m' ∧
      call caller sep .join ⟨[.list r'], []⟩ m'' = .ok (.str s) m'' ∧
      (0 ≤ k → (few.length : Int) ≤ k.toInt + 1) ∧ (k < 0 → few = pieces) ∧
      (∃ n, call caller s .count ⟨[.str sep], []⟩ m = .ok (.int (.ofNat n)) m ∧
        Builtin.call caller .len ⟨[.list r], []⟩ m' = .ok (.int (.ofNat (n + 1))) m' ∧
        pieces.length = n + 1) ∧
      (∃ t, call caller s .replace ⟨[.str sep, .str new], []⟩ m = .ok (.str t) m ∧
        call caller new .join ⟨[.list r], []⟩ m' = .ok (.str t) m') ∧
      call caller s .find ⟨[.str sep], []⟩ m = .ok (.int (match pieces with
        | first :: _ :: _ => .ofNat first.length
        | _ => -1)) m := by
  have filled : sep.toList ≠ [] := by simpa using nonempty
  have limits : splitLimit (some (.int k)) = .ok (if k < 0 then none else some k.toInt.toNat) := rfl
  obtain ⟨r, m', run, lists, joined⟩ := run_split nonempty caller s none rfl m
  obtain ⟨r', m'', run', lists', joined'⟩ := run_split nonempty caller s (some k) limits m
  refine ⟨_, _, r, r', m', m'', run, lists, run', lists', joined, joined', fun counts => ?_,
    fun negative => ?_, ?_, ?_, ?_⟩
  · have few := Text.length_splitAtMost_le sep.toList k.toInt.toNat s.toList
    rw [List.length_map, if_neg (Int64.not_lt.2 counts), splitAround]
    rw [Int64.le_iff_toInt_le] at counts
    have zero : (0 : Int64).toInt = 0 := rfl
    omega
  · rw [if_pos negative]
  · have size := Text.length_split filled s.toList
    refine ⟨_, rfl, ?_, (List.length_map _).trans size⟩
    rw [run_len lists, List.length_map, splitAround, size]
  · refine ⟨_, rfl, ?_⟩
    rw [run_join lists, intercalate_ofList, splitAround, Text.intercalate_split filled]
  · change EStateM.Result.ok (Value.int ((Text.find? sep.toList s.toList).elim (-1) .ofNat)) m = _
    rw [Text.find?_eq filled, splitAround]
    rcases Text.split sep.toList s.toList with _ | ⟨first, _ | ⟨second, others⟩⟩
    · rfl
    · rfl
    · simp

theorem overlapping_separators_are_cut_from_the_left :
    let caller : Caller := ⟨fun _ _ => exhausted, 0⟩
    "aa" ≠ "" ∧ ∃ pieces few r r' m' m'',
      call caller "éaaab" .split ⟨[.str "aa"], []⟩ .fresh = .ok (.list r) m' ∧ Lists m' r pieces ∧
      call caller "éaaab" .split ⟨[.str "aa", .int 0], []⟩ .fresh = .ok (.list r') m'' ∧
      Lists m'' r' few ∧ pieces = ["é", "ab"] ∧ few = ["éaaab"] ∧
      call caller "aa" .join ⟨[.list r], []⟩ m' = .ok (.str "éaaab") m' := by
  intro caller
  have nonempty : "aa" ≠ "" := by decide
  obtain ⟨pieces, few, r, r', m', m'', run, lists, run', lists', joined, -⟩ :=
    search_methods_agree caller .fresh "éaaab" "aa" "-" 0 nonempty
  obtain ⟨m₁, cut, all⟩ : ∃ m₁, call caller "éaaab" .split ⟨[.str "aa"], []⟩ .fresh =
      .ok (.list ⟨0⟩) m₁ ∧ Lists m₁ ⟨0⟩ ["é", "ab"] := ⟨_, rfl, rfl⟩
  obtain ⟨m₂, cut', all'⟩ : ∃ m₂, call caller "éaaab" .split ⟨[.str "aa", .int 0], []⟩ .fresh =
      .ok (.list ⟨0⟩) m₂ ∧ Lists m₂ ⟨0⟩ ["éaaab"] := ⟨_, rfl, rfl⟩
  cases cut.symm.trans run
  cases cut'.symm.trans run'
  exact ⟨nonempty, pieces, few, _, _, _, _, run, lists, run', lists', lists.unique all,
    lists'.unique all', joined⟩

end StrMethod

end Console
