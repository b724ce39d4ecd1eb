import Console.Proofs.Heap.Questions
import Mathlib.Data.List.Forall2
import Mathlib.Data.List.Pairwise

/-!
# Equality of values without cycles

Equality looks into lists, tuples and dicts. Without floats it is transitive. On plain data it is an
equivalence; there the keys of a dict differ, so that as many entries as another dict has, each with an
equal one in it, leave none of the other's over.
-/

namespace Console

theorem Value.isContainer_eq_of_plainEqual (a : Value) {b : Value} (same : a.plainEqual b = true) :
    a.isContainer = b.isContainer := by
  cases a <;> cases b <;> first | rfl | cases same

/-- What plain data is made of. -/
def Value.isPlain : Value → Bool
  | .none | .bool _ | .int _ | .str _ | .list _ | .tuple _ | .dict _ => true
  | _ => false

namespace Heap

variable {h : Heap} {a b c v : Value}

/-- Equality finds the values equal. -/
def Same (h : Heap) (a b : Value) : Prop := h.equals a b = some true

section

variable {α : Type} {test : α → Option Bool} {items : List α}

theorem holdsForAll_iff : holdsForAll test items = some true ↔ ∀ a ∈ items, test a = some true := by
  induction items with
  | nil => simp [holdsForAll]
  | cons a items ih =>
    rw [List.forall_mem_cons, holdsForAll]
    rcases test a with _ | _ | _ <;> simp [ih]

theorem findEqual_iff (answers : ∀ a ∈ items, ∃ answer, test a = some answer) :
    findEqual test items = some true ↔ ∃ a ∈ items, test a = some true := by
  induction items with
  | nil => simp [findEqual]
  | cons a items ih =>
    obtain ⟨⟨answer, here⟩, others⟩ := List.forall_mem_cons.1 answers
    rw [findEqual, here]
    cases answer <;> simp [here, ih others]

end

theorem equalAll_iff {test : Value → Value → Option Bool} {as bs : List Value}
    (length : as.length = bs.length) :
    equalAll test as bs = some true ↔ List.Forall₂ (fun a b => test a b = some true) as bs := by
  induction as generalizing bs with
  | nil => simp [equalAll, (List.length_eq_zero_iff.1 length.symm)]
  | cons a as ih =>
    obtain _ | ⟨b, bs⟩ := bs
    · cases length
    rw [List.forall₂_cons, equalAll, ← ih (Nat.succ.inj length)]
    rcases test a b with _ | _ | _ <;> simp

variable {r s : Ref .list} {t u : Ref .tuple} {d e : Ref .dict}

/-- Sequences of equal length are equal if their items are. -/
theorem sequences_iff {as bs : Array Value} :
    (if as.size ≠ bs.size then some false else equalAll h.equals as.toList bs.toList) = some true ↔
      List.Forall₂ h.Same as.toList bs.toList := by
  split
  · next differ => exact ⟨nofun, fun same => absurd (by simpa using same.length_eq) differ⟩
  · next length =>
    rw [equalAll_iff (by simpa using length)]
    rfl

theorem same_list_iff : h.Same (.list r) (.list s) ↔
    r = s ∨ List.Forall₂ h.Same (h.list r).toList (h.list s).toList := by
  rw [Same, equals_list]
  split
  · simp_all
  · next differ =>
    rw [sequences_iff]
    exact (or_iff_right differ).symm

theorem same_tuple_iff :
    h.Same (.tuple t) (.tuple u) ↔ List.Forall₂ h.Same (h.tuple t).toList (h.tuple u).toList := by
  rw [Same, equals_tuple]
  exact sequences_iff

theorem Acyclic.same_dict_iff (acyclic : h.Acyclic (.dict d)) : h.Same (.dict d) (.dict e) ↔
    (h.dict d).size = (h.dict e).size ∧
      ∀ x ∈ (h.dict d).toList, ∃ y ∈ (h.dict e).toList, h.Same x.1 y.1 ∧ h.Same x.2 y.2 := by
  rw [Same, equals_dict]
  split
  · next differ => simp [differ]
  next size =>
  rw [holdsForAll_iff, and_iff_right (not_not.1 size)]
  refine forall₂_congr fun x mem => ?_
  have key (y : Value) := Acyclic.equals_answers (acyclic.part (key_mem_parts mem)) y
  have value (y : Value) := Acyclic.equals_answers (acyclic.part (value_mem_parts mem)) y
  rw [findEqual_iff fun y mem' => ?_]
  · refine exists_congr fun y => and_congr_right fun mem' => ?_
    obtain ⟨_ | _, found⟩ := key y.1 <;> simp [Same, found]
  · obtain ⟨_ | _, found⟩ := key y.1
    · exact ⟨false, by simp [found]⟩
    · obtain ⟨answer, found'⟩ := value y.2
      exact ⟨answer, by simp [found, found']⟩

/-- Two values are lists, tuples or dicts, or equality does not look into them. -/
theorem equal_cases (h : Heap) (a b : Value) :
    (∃ r s, a = .list r ∧ b = .list s) ∨ (∃ r s, a = .tuple r ∧ b = .tuple s) ∨
      (∃ r s, a = .dict r ∧ b = .dict s) ∨
        (∀ depth, h.equal (depth + 1) a b = some (a.plainEqual b)) ∧
          (a.isContainer = false ∨ a.plainEqual b = false) := by
  cases a with
  | list r =>
    cases b with
    | list s => exact .inl ⟨r, s, rfl, rfl⟩
    | _ => exact .inr (.inr (.inr ⟨fun _ => rfl, .inr rfl⟩))
  | tuple r =>
    cases b with
    | tuple s => exact .inr (.inl ⟨r, s, rfl, rfl⟩)
    | _ => exact .inr (.inr (.inr ⟨fun _ => rfl, .inr rfl⟩))
  | dict r =>
    cases b with
    | dict s => exact .inr (.inr (.inl ⟨r, s, rfl, rfl⟩))
    | _ => exact .inr (.inr (.inr ⟨fun _ => rfl, .inr rfl⟩))
  | _ => exact .inr (.inr (.inr ⟨fun _ => rfl, .inl rfl⟩))

/-- Equal values are both lists, tuples or dicts, or neither is a container. -/
theorem Same.cases (same : h.Same a b) :
    (∃ r s, a = .list r ∧ b = .list s) ∨ (∃ t u, a = .tuple t ∧ b = .tuple u) ∨
      (∃ d e, a = .dict d ∧ b = .dict e) ∨
        a.isContainer = false ∧ b.isContainer = false ∧ a.plainEqual b = true := by
  rcases h.equal_cases a b with lists | tuples | dicts | ⟨plain, single⟩
  · exact .inl lists
  · exact .inr (.inl tuples)
  · exact .inr (.inr (.inl dicts))
  · rw [Same, equals, depth, plain, Option.some_inj] at same
    have single : a.isContainer = false := single.resolve_right (by simp [same])
    exact .inr (.inr (.inr ⟨single, (a.isContainer_eq_of_plainEqual same).symm.trans single, same⟩))

theorem Same.exists_list (same : h.Same (.list r) b) : ∃ s, b = .list s := by
  obtain ⟨_, s, -, rfl⟩ | ⟨_, _, ⟨⟩, -⟩ | ⟨_, _, ⟨⟩, -⟩ | ⟨⟨⟩, -⟩ := same.cases
  exact ⟨s, rfl⟩

theorem Same.exists_tuple (same : h.Same (.tuple t) b) : ∃ u, b = .tuple u := by
  obtain ⟨_, _, ⟨⟩, -⟩ | ⟨_, u, -, rfl⟩ | ⟨_, _, ⟨⟩, -⟩ | ⟨⟨⟩, -⟩ := same.cases
  exact ⟨u, rfl⟩

theorem Same.exists_dict (same : h.Same (.dict d) b) : ∃ e, b = .dict e := by
  obtain ⟨_, _, ⟨⟩, -⟩ | ⟨_, _, ⟨⟩, -⟩ | ⟨_, e, -, rfl⟩ | ⟨⟨⟩, -⟩ := same.cases
  exact ⟨e, rfl⟩

theorem same_single_iff (single : a.isContainer = false ∨ b.isContainer = false) :
    h.Same a b ↔ a.plainEqual b = true := by
  rw [Same, equals, depth, equal_of_single _ single, Option.some_inj]

/-- A value without cycles and without floats in it. -/
structure Exact (h : Heap) (v : Value) : Prop where
  acyclic : h.Acyclic v
  floatFree : h.Throughout (fun w => ∀ x, w ≠ .float x) v

theorem Exact.part (exact : h.Exact v) {w : Value} (mem : w ∈ h.parts v) : h.Exact w :=
  ⟨exact.acyclic.part mem, exact.floatFree.part mem⟩

theorem forall₂_trans {R : Value → Value → Prop} {as bs cs : List Value}
    (each : ∀ a ∈ as, ∀ b ∈ bs, ∀ c ∈ cs, R a b → R b c → R a c) (first : List.Forall₂ R as bs)
    (second : List.Forall₂ R bs cs) : List.Forall₂ R as cs := by
  induction first generalizing cs with
  | nil => exact second
  | cons here _ ih =>
    cases second with
    | cons here' rest' =>
      refine .cons (each _ (by simp) _ (by simp) _ (by simp) here here') (ih ?_ rest')
      exact fun a mem b mem' c mem'' =>
        each a (.tail _ mem) b (.tail _ mem') c (.tail _ mem'')

/-- Equality without floats is transitive. -/
theorem Same.trans (exact : h.Exact a) (exact' : h.Exact b) (exact'' : h.Exact c)
    (first : h.Same a b) (second : h.Same b c) : h.Same a c := by
  have acyclic := exact.acyclic
  induction acyclic using Acyclic.induction generalizing b c with
  | step a acyclic ih =>
    have inside {v w x : Value} (mem : v ∈ h.parts a) (mem' : w ∈ h.parts b) (mem'' : x ∈ h.parts c) :=
      ih v mem (exact.part mem) (exact'.part mem') (exact''.part mem'')
    rcases first.cases with ⟨r, s, rfl, rfl⟩ | ⟨t, u, rfl, rfl⟩ | ⟨d, e, rfl, rfl⟩ |
      ⟨single, single', plain⟩
    · obtain ⟨q, rfl⟩ := second.exists_list
      rcases same_list_iff.1 first with rfl | each
      · exact second
      rcases same_list_iff.1 second with rfl | each'
      · exact first
      · refine same_list_iff.2 (.inr ?_)
        exact forall₂_trans (fun _ mem _ mem' _ => inside mem mem') each each'
    · obtain ⟨q, rfl⟩ := second.exists_tuple
      rw [same_tuple_iff] at first second ⊢
      exact forall₂_trans (fun _ mem _ mem' _ => inside mem mem') first second
    · obtain ⟨q, rfl⟩ := second.exists_dict
      rw [acyclic.same_dict_iff] at first
      rw [exact'.acyclic.same_dict_iff] at second
      rw [acyclic.same_dict_iff]
      refine ⟨first.1.trans second.1, fun x mem => ?_⟩
      obtain ⟨y, mem', key, value⟩ := first.2 x mem
      obtain ⟨z, mem'', key', value'⟩ := second.2 y mem'
      refine ⟨z, mem'', ?_, ?_⟩
      · exact inside (key_mem_parts mem) (key_mem_parts mem') (key_mem_parts mem'') key key'
      · exact inside (value_mem_parts mem) (value_mem_parts mem') (value_mem_parts mem'') value value'
    · rw [same_single_iff (.inl single')] at second
      rw [same_single_iff (.inl single)]
      exact Value.plainEqual_trans exact.floatFree.here exact'.floatFree.here exact''.floatFree.here
        plain second

/-- No two keys of a dict are equal. -/
def KeysDiffer (h : Heap) : Value → Prop
  | .dict d => (h.dict d).toList.Pairwise fun x y => ¬ h.Same x.1 y.1
  | _ => True

/-- A value without cycles and floats where every dict is a map. -/
structure WellKeyed (h : Heap) (v : Value) : Prop extends h.Exact v where
  keysDiffer : h.Throughout h.KeysDiffer v

theorem WellKeyed.part (keyed : h.WellKeyed v) {w : Value} (mem : w ∈ h.parts v) : h.WellKeyed w :=
  ⟨keyed.toExact.part mem, keyed.keysDiffer.part mem⟩

section

variable {α β : Type} {R : α → β → Prop} {as : List α} {bs : List β}

theorem partner_elsewhere {a : α} {b : β} {before after : List β} (alone : ¬ R a b)
    (partner : ∃ b' ∈ before ++ b :: after, R a b') : ∃ b' ∈ before ++ after, R a b' := by
  obtain ⟨b', mem, there⟩ := partner
  have other : b' ≠ b := fun same => alone (same ▸ there)
  exact ⟨b', by simpa [other] using mem, there⟩

/-- Where each item has a partner, and no two have the same, there are as many partners as items. -/
theorem length_le_of_partners (each : ∀ a ∈ as, ∃ b ∈ bs, R a b)
    (apart : as.Pairwise fun a a' => ∀ b ∈ bs, R a b → ¬ R a' b) : as.length ≤ bs.length := by
  induction as generalizing bs with
  | nil => exact Nat.zero_le _
  | cons a as ih =>
    obtain ⟨⟨b, mem, here⟩, others⟩ := List.forall_mem_cons.1 each
    obtain ⟨differ, apart⟩ := List.pairwise_cons.1 apart
    obtain ⟨before, after, rfl⟩ := List.append_of_mem mem
    have fewer : as.length ≤ (before ++ after).length := by
      refine ih (fun a' mem' => ?_) (apart.imp fun differ b' mem' => ?_)
      · exact partner_elsewhere (differ a' mem' b mem here) (others a' mem')
      · exact differ b' (by simp at mem' ⊢; tauto)
    simp only [List.length_append, List.length_cons] at fewer ⊢
    omega

/-- If the partners are no more than the items, none is left over. -/
theorem exists_partner (length : bs.length ≤ as.length) (each : ∀ a ∈ as, ∃ b ∈ bs, R a b)
    (apart : as.Pairwise fun a a' => ∀ b ∈ bs, R a b → ¬ R a' b) : ∀ b ∈ bs, ∃ a ∈ as, R a b := by
  intro b mem
  by_contra alone
  obtain ⟨before, after, rfl⟩ := List.append_of_mem mem
  have fewer : as.length ≤ (before ++ after).length := by
    refine length_le_of_partners (R := R) (fun a mem' => ?_) (apart.imp fun differ b' mem' => ?_)
    · exact partner_elsewhere (fun there => alone ⟨a, mem', there⟩) (each a mem')
    · exact differ b' (by simp at mem' ⊢; tauto)
  simp only [List.length_append, List.length_cons] at fewer length
  omega

end

theorem forall₂_symm {R : Value → Value → Prop} {as bs : List Value}
    (each : ∀ a ∈ as, ∀ b ∈ bs, R a b → R b a) (all : List.Forall₂ R as bs) :
    List.Forall₂ R bs as := by
  induction all with
  | nil => exact .nil
  | cons here _ ih =>
    refine .cons (each _ (by simp) _ (by simp) here) (ih ?_)
    exact fun a mem b mem' => each a (.tail _ mem) b (.tail _ mem')

/-- Two entries of a dict have no key of another dict in common. -/
theorem WellKeyed.apart (keyed : h.WellKeyed (.dict d)) (keyed' : h.WellKeyed (.dict e))
    (symm : ∀ x ∈ (h.dict d).toList, ∀ y ∈ (h.dict e).toList, h.Same x.1 y.1 → h.Same y.1 x.1) :
    (h.dict d).toList.Pairwise fun x x' =>
      ∀ y ∈ (h.dict e).toList, h.Same x.1 y.1 → ¬ h.Same x'.1 y.1 := by
  refine List.Pairwise.imp_of_mem (fun {x x'} mem mem' differ y mem'' here there => ?_)
    keyed.keysDiffer.here
  refine differ (here.trans ?_ ?_ ?_ (symm x' mem' y mem'' there))
  · exact (keyed.part (key_mem_parts mem)).toExact
  · exact (keyed'.part (key_mem_parts mem'')).toExact
  · exact (keyed.part (key_mem_parts mem')).toExact

/-- Entries that are all found among as many others leave none of the others alone. -/
theorem exists_same_entry {entries entries' : List (Value × Value)}
    (size : entries.length = entries'.length)
    (each : ∀ x ∈ entries, ∃ y ∈ entries', h.Same x.1 y.1 ∧ h.Same x.2 y.2)
    (apart : entries.Pairwise fun x x' => ∀ y ∈ entries', h.Same x.1 y.1 → ¬ h.Same x'.1 y.1) :
    ∀ y ∈ entries', ∃ x ∈ entries, h.Same x.1 y.1 ∧ h.Same x.2 y.2 :=
  exists_partner (Nat.le_of_eq size.symm) each <| apart.imp fun differ y mem here there =>
    differ y mem here.1 there.1

theorem Same.symm (keyed : h.WellKeyed a) (keyed' : h.WellKeyed b) (same : h.Same a b) : h.Same b a := by
  have acyclic := keyed.acyclic
  induction acyclic using Acyclic.induction generalizing b with
  | step a acyclic ih =>
    have inside {v w : Value} (mem : v ∈ h.parts a) (mem' : w ∈ h.parts b) (same : h.Same v w) :=
      ih v mem (keyed.part mem) (keyed'.part mem') same
    rcases same.cases with ⟨r, s, rfl, rfl⟩ | ⟨t, u, rfl, rfl⟩ | ⟨d, e, rfl, rfl⟩ |
      ⟨single, single', plain⟩
    · rcases same_list_iff.1 same with rfl | each
      · exact same
      · refine same_list_iff.2 (.inr ?_)
        exact forall₂_symm (fun _ mem _ mem' => inside mem mem') each
    · rw [same_tuple_iff] at same ⊢
      exact forall₂_symm (fun _ mem _ mem' => inside mem mem') same
    · rw [acyclic.same_dict_iff] at same
      rw [keyed'.acyclic.same_dict_iff]
      obtain ⟨size, each⟩ := same
      have keys := keyed.apart keyed' fun x mem y mem' =>
        inside (key_mem_parts mem) (key_mem_parts mem')
      refine ⟨size.symm, fun y mem' => ?_⟩
      obtain ⟨x, mem, key, value⟩ := exists_same_entry size each keys y mem'
      refine ⟨x, mem, ?_, ?_⟩
      · exact inside (key_mem_parts mem) (key_mem_parts mem') key
      · exact inside (value_mem_parts mem) (value_mem_parts mem') value
    · rw [same_single_iff (.inl single'), Value.plainEqual_comm]
      exact plain

/-- Dicts are equal if they have the same keys, and the same values under them. -/
theorem WellKeyed.same_dict_iff (keyed : h.WellKeyed (.dict d)) (keyed' : h.WellKeyed (.dict e)) :
    h.Same (.dict d) (.dict e) ↔
      (∀ x ∈ (h.dict d).toList, ∃ y ∈ (h.dict e).toList, h.Same x.1 y.1) ∧
        (∀ y ∈ (h.dict e).toList, ∃ x ∈ (h.dict d).toList, h.Same y.1 x.1) ∧
          ∀ x ∈ (h.dict d).toList, ∀ y ∈ (h.dict e).toList, h.Same x.1 y.1 → h.Same x.2 y.2 := by
  have key {d : Ref .dict} (keyed : h.WellKeyed (.dict d)) {x} (mem : x ∈ (h.dict d).toList) :=
    keyed.part (key_mem_parts mem)
  have keys := keyed.apart keyed' fun x mem y mem' same => same.symm (key keyed mem) (key keyed' mem')
  have keys' := keyed'.apart keyed fun y mem x mem' same => same.symm (key keyed' mem) (key keyed mem')
  rw [keyed.acyclic.same_dict_iff]
  constructor
  · intro ⟨size, each⟩
    have partner := exists_same_entry size each keys
    refine ⟨fun x mem => ?_, fun y mem' => ?_, fun x mem y mem' same => ?_⟩
    · obtain ⟨y, mem', same, -⟩ := each x mem
      exact ⟨y, mem', same⟩
    · obtain ⟨x, mem, same, -⟩ := partner y mem'
      exact ⟨x, mem, same.symm (key keyed mem) (key keyed' mem')⟩
    · -- The partner of `y` has the key of `x`, so it is `x`.
      obtain ⟨x', mem'', same', value⟩ := partner y mem'
      by_cases here : x' = x
      · exact here ▸ value
      · have apart : Std.Symm fun x x' : Value × Value =>
            ∀ y ∈ (h.dict e).toList, h.Same x.1 y.1 → ¬ h.Same x'.1 y.1 :=
          ⟨fun _ _ differ y mem there here => differ y mem here there⟩
        exact absurd same (keys.forall mem'' mem here y mem' same')
  · intro ⟨forth, back, values⟩
    refine ⟨Nat.le_antisymm ?_ ?_, fun x mem => ?_⟩
    · simpa using length_le_of_partners forth keys
    · simpa using length_le_of_partners back keys'
    · obtain ⟨y, mem', same⟩ := forth x mem
      exact ⟨y, mem', same, values x mem y mem' same⟩

/-- Nothing, truth values, whole numbers and texts, and lists, tuples and dicts of such, without cycles
and with different keys in each dict. -/
structure PlainData (h : Heap) (v : Value) : Prop where
  acyclic : h.Acyclic v
  plain : h.Throughout (fun w => w.isPlain = true) v
  keysDiffer : h.Throughout h.KeysDiffer v

namespace PlainData

theorem part (data : h.PlainData v) {w : Value} (mem : w ∈ h.parts v) : h.PlainData w :=
  ⟨data.acyclic.part mem, data.plain.part mem, data.keysDiffer.part mem⟩

theorem of_parts (plain : v.isPlain = true) (keysDiffer : h.KeysDiffer v)
    (parts : ∀ w ∈ h.parts v, h.PlainData w) : h.PlainData v where
  acyclic := .of_parts fun w mem => (parts w mem).acyclic
  plain := .of_parts plain fun w mem => (parts w mem).plain
  keysDiffer := .of_parts keysDiffer fun w mem => (parts w mem).keysDiffer

theorem of_single (single : v.isContainer = false) (plain : v.isPlain = true) : h.PlainData v :=
  of_parts plain (by cases v <;> trivial)
    (by simp [parts_of_single single])

theorem wellKeyed (data : h.PlainData v) : h.WellKeyed v where
  acyclic := data.acyclic
  floatFree := data.plain.mono fun w plain x float => by simp [float, Value.isPlain] at plain
  keysDiffer := data.keysDiffer

theorem same_self (data : h.PlainData v) : h.Same v v := by
  have acyclic := data.acyclic
  induction acyclic using Acyclic.induction with
  | step v acyclic ih =>
    have inside (w) (mem : w ∈ h.parts v) := ih w mem (data.part mem)
    have plain := data.plain.here
    cases v with
    | list r => exact same_list_iff.2 (.inl rfl)
    | tuple t => exact same_tuple_iff.2 (List.forall₂_same.2 inside)
    | dict d =>
      refine (acyclic.same_dict_iff).2 ⟨rfl, fun x mem => ⟨x, mem, ?_, ?_⟩⟩
      · exact inside x.1 (key_mem_parts mem)
      · exact inside x.2 (value_mem_parts mem)
    | none => rfl
    | bool b | int n | str s =>
      rw [same_single_iff (.inl rfl)]
      exact beq_self_eq_true _
    | _ => cases plain

end PlainData

/-- On plain data equality always answers and is an equivalence; dicts are equal if they have the same
keys, in whatever order they came, and the same values under them. -/
theorem equality_of_plain_data (data : h.PlainData a) (data' : h.PlainData b)
    (data'' : h.PlainData c) :
    (∃ answer, h.equals a b = some answer) ∧
      h.equals a a = some true ∧
      h.equals a b = h.equals b a ∧
      (h.equals a b = some true → h.equals b c = some true → h.equals a c = some true) ∧
      ∀ d e, a = .dict d → b = .dict e →
        (h.equals a b = some true ↔
          (∀ x ∈ h.dict d, ∃ y ∈ h.dict e, h.equals x.1 y.1 = some true) ∧
          (∀ y ∈ h.dict e, ∃ x ∈ h.dict d, h.equals y.1 x.1 = some true) ∧
          ∀ x ∈ h.dict d, ∀ y ∈ h.dict e,
            h.equals x.1 y.1 = some true → h.equals x.2 y.2 = some true) := by
  obtain ⟨answer, found⟩ := data.acyclic.equals_answers b
  refine ⟨⟨answer, found⟩, data.same_self, ?_, ?_, ?_⟩
  · obtain ⟨answer', found'⟩ := data'.acyclic.equals_answers a
    have forth : answer = true → answer' = true := by
      rintro rfl
      simpa [Same, found'] using Same.symm data.wellKeyed data'.wellKeyed found
    have back : answer' = true → answer = true := by
      rintro rfl
      simpa [Same, found] using Same.symm data'.wellKeyed data.wellKeyed found'
    rw [found, found', Bool.eq_iff_iff.2 ⟨forth, back⟩]
  · exact Same.trans data.wellKeyed.toExact data'.wellKeyed.toExact data''.wellKeyed.toExact
  · rintro d e rfl rfl
    simpa only [Same, Array.mem_toList_iff] using data.wellKeyed.same_dict_iff data'.wellKeyed

theorem reordered_dicts_are_equal :
    let h : Heap := { Heap.empty with
      lists := #[#[.int 1], #[.bool true]]
      dicts := #[#[(.int 1, .list ⟨0⟩), (.str "a", .none)],
        #[(.str "a", .none), (.bool true, .list ⟨1⟩)]] }
    h.PlainData (.dict ⟨0⟩) ∧ h.PlainData (.dict ⟨1⟩) ∧
      h.equals (.dict ⟨0⟩) (.dict ⟨1⟩) = some true ∧
      h.equals (.dict ⟨1⟩) (.dict ⟨0⟩) = some true := by
  intro h
  have single (v : Value) (single : v.isContainer = false) (plain : v.isPlain = true) :=
    PlainData.of_single (h := h) single plain
  have one : h.PlainData (.list ⟨0⟩) :=
    .of_parts rfl trivial (List.forall_mem_singleton.2 (single (.int 1) rfl rfl))
  have truth : h.PlainData (.list ⟨1⟩) :=
    .of_parts rfl trivial (List.forall_mem_singleton.2 (single (.bool true) rfl rfl))
  have differ (d : Ref .dict) (keys : (h.dict d).toList.Pairwise fun (x y : Value × Value) =>
      ¬ h.equals x.1 y.1 = some true) : h.KeysDiffer (.dict d) := keys
  have data : h.PlainData (.dict ⟨0⟩) := by
    have inside : ∀ w ∈ [.int 1, .list ⟨0⟩, .str "a", .none], h.PlainData w := by
      simp [one, single (.int 1) rfl rfl, single (.str "a") rfl rfl, single .none rfl rfl]
    exact .of_parts rfl (differ _ (by decide +kernel)) inside
  have data' : h.PlainData (.dict ⟨1⟩) := by
    have inside : ∀ w ∈ [.str "a", .none, .bool true, .list ⟨1⟩], h.PlainData w := by
      simp [truth, single (.str "a") rfl rfl, single .none rfl rfl, single (.bool true) rfl rfl]
    exact .of_parts rfl (differ _ (by decide +kernel)) inside
  obtain ⟨-, -, symmetric, -, dicts⟩ := equality_of_plain_data data data' data
  have same : h.equals (.dict ⟨0⟩) (.dict ⟨1⟩) = some true := by
    refine (dicts _ _ rfl rfl).2 ?_
    decide +kernel
  exact ⟨data, data', same, symmetric ▸ same⟩

end Heap

end Console
