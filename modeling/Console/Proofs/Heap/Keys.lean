import Console.Proofs.Heap.References

/-!
# Keys of dicts

A key is no list or dict and has none in it. As tuples do not change, what a key is equal to never
does either; and as a tuple is younger than its items, equality of keys is found out at a depth that
every heap allows. Where no floats are about it is a partial equivalence: symmetric and transitive.
-/

namespace Console

namespace Value

def isContainer : Value → Bool
  | .list _ | .tuple _ | .dict _ => true
  | _ => false

/-- A bound on how many tuples stand in one another. -/
def nesting : Value → Nat
  | .tuple r => r.index + 1
  | _ => 0

/-- What a value counts as where it is compared: a truth value counts as a number. -/
def counted : Value → Value
  | .bool b => .int (if b then 1 else 0)
  | v => v

/-- Whether a value is equal to itself, not-a-number aside. -/
def hasEquality : Value → Bool
  | .listMethod _ _ | .strMethod _ _ | .dictMethod _ _ | .boundMethod _ _ => false
  | _ => true

theorem float_beq_comm (x y : Float) : (x == y) = (y == x) := by
  have sizes (e f : Int) (m n : Nat) : (compare e f).then (compare m n) =
      ((compare f e).then (compare n m)).swap := by
    rw [Ordering.swap_then, ← Std.OrientedCmp.eq_swap, ← Std.OrientedCmp.eq_swap]
  have swapped (a b : Float.Model.UnpackedFloat) : a.compare b = (b.compare a).map Ordering.swap := by
    rcases a with (_ | _) | _ | (_ | _) | ⟨_ | _, m, e, p⟩ <;>
      rcases b with (_ | _) | _ | (_ | _) | ⟨_ | _, n, f, q⟩ <;>
        first
        | rfl
        | exact congrArg some (sizes e f m n)
        | exact congrArg (some ·.swap) (sizes e f m n)
  change (_ == some Ordering.eq) = (_ == some Ordering.eq)
  rw [swapped]
  cases y.toModel.unpack.compare x.toModel.unpack with
  | none => rfl
  | some o => cases o <;> rfl

theorem identical_comm (a b : Value) : a.identical b = b.identical a := by
  cases a <;> cases b <;> first | rfl | simp [identical, eq_comm]

theorem plainEqual_comm (a b : Value) : a.plainEqual b = b.plainEqual a := by
  cases a <;> cases b <;> first | rfl | simp [plainEqual, identical_comm, eq_comm, float_beq_comm]

theorem plainEqual_iff {a b : Value} (noFloat : ∀ x, a ≠ .float x) (noFloat' : ∀ x, b ≠ .float x) :
    a.plainEqual b = true ↔ a.counted = b.counted ∧ a.hasEquality = true := by
  cases a <;> cases b <;> simp_all [plainEqual, identical, counted, hasEquality]
  -- A truth value and a number, or two truth values, are left.
  all_goals grind

theorem plainEqual_trans {a b c : Value} (noFloat : ∀ x, a ≠ .float x)
    (noFloat' : ∀ x, b ≠ .float x) (noFloat'' : ∀ x, c ≠ .float x)
    (first : a.plainEqual b = true) (second : b.plainEqual c = true) : a.plainEqual c = true := by
  rw [plainEqual_iff noFloat noFloat'] at first
  rw [plainEqual_iff noFloat' noFloat''] at second
  rw [plainEqual_iff noFloat noFloat'']
  exact ⟨first.1.trans second.1, first.2⟩

end Value

section

variable {test test' : Value → Value → Option Bool} {as bs cs : List Value}

/-- Two tests that answer the same of the items do so of the sequences. -/
theorem equalAll_answers
    (each : ∀ a ∈ as, ∀ b ∈ bs, ∃ answer, test a b = some answer ∧ test' a b = some answer) :
    ∃ answer, equalAll test as bs = some answer ∧ equalAll test' as bs = some answer := by
  induction as generalizing bs with
  | nil => exact ⟨true, rfl, rfl⟩
  | cons a as ih =>
    cases bs with
    | nil => exact ⟨true, rfl, rfl⟩
    | cons b bs =>
      obtain ⟨answer, here, here'⟩ := each a (by simp) b (by simp)
      rw [equalAll, equalAll, here, here']
      cases answer with
      | false => exact ⟨false, rfl, rfl⟩
      | true =>
        exact ih fun a mem b mem' =>
          each a (List.mem_cons_of_mem _ mem) b (List.mem_cons_of_mem _ mem')

theorem equalAll_comm (each : ∀ a ∈ as, ∀ b ∈ bs, test a b = test b a) :
    equalAll test as bs = equalAll test bs as := by
  induction as generalizing bs with
  | nil => cases bs <;> rfl
  | cons a as ih =>
    cases bs with
    | nil => rfl
    | cons b bs =>
      rw [equalAll, equalAll, each a (by simp) b (by simp), ih fun a mem b mem' =>
        each a (List.mem_cons_of_mem _ mem) b (List.mem_cons_of_mem _ mem')]

theorem equalAll_cons {a b : Value} (same : equalAll test (a :: as) (b :: bs) = some true) :
    test a b = some true ∧ equalAll test as bs = some true := by
  rw [equalAll] at same
  cases answer : test a b with
  | none => simp [answer] at same
  | some first =>
    cases first with
    | false => simp [answer] at same
    | true => exact ⟨rfl, by simpa [answer] using same⟩

theorem equalAll_trans (length : as.length = bs.length) (length' : bs.length = cs.length)
    (each : ∀ a ∈ as, ∀ b ∈ bs, ∀ c ∈ cs, test a b = some true → test b c = some true →
      test a c = some true)
    (first : equalAll test as bs = some true) (second : equalAll test bs cs = some true) :
    equalAll test as cs = some true := by
  induction as generalizing bs cs with
  | nil => cases cs <;> rfl
  | cons a as ih =>
    obtain _ | ⟨b, bs⟩ := bs
    · cases length
    obtain _ | ⟨c, cs⟩ := cs
    · cases length'
    obtain ⟨here, rest⟩ := equalAll_cons first
    obtain ⟨here', rest'⟩ := equalAll_cons second
    rw [equalAll, each a (by simp) b (by simp) c (by simp) here here']
    exact ih (Nat.succ.inj length) (Nat.succ.inj length') (fun a mem b mem' c mem'' =>
      each a (List.mem_cons_of_mem _ mem) b (List.mem_cons_of_mem _ mem') c
        (List.mem_cons_of_mem _ mem'')) rest rest'

end

namespace Heap

variable {h h' : Heap} {P : Value → Prop} {v a b c : Value}

/-- The value has a property, or is a tuple of such values. -/
inductive MadeOf (h : Heap) (P : Value → Prop) : Value → Prop
  | single {v : Value} (single : ∀ r, v ≠ .tuple r) (property : P v) : MadeOf h P v
  | tuple {r : Ref .tuple} (items : ∀ v ∈ h.tuple r, MadeOf h P v) : MadeOf h P (.tuple r)

/-- A value that can be a key. -/
abbrev Hashable (h : Heap) : Value → Prop := h.MadeOf fun v => v.isContainer = false

/-- No float occurs in the value. -/
abbrev FloatFree (h : Heap) : Value → Prop := h.MadeOf fun v => ∀ x, v ≠ .float x

theorem MadeOf.items {r : Ref .tuple} (made : h.MadeOf P (.tuple r)) :
    ∀ v ∈ h.tuple r, h.MadeOf P v := by
  cases made with
  | single single _ => exact absurd rfl (single r)
  | tuple items => exact items

/-- A key is a tuple of keys, or no container. -/
theorem Hashable.cases (key : h.Hashable v) :
    (∃ r, v = .tuple r ∧ ∀ item ∈ h.tuple r, h.Hashable item) ∨ v.isContainer = false := by
  cases key with
  | single _ property => exact .inr property
  | tuple items => exact .inl ⟨_, rfl, items⟩

theorem FloatFree.ne_float (free : h.FloatFree v) (x : Float) : v ≠ .float x := by
  cases free with
  | single _ property => exact property x
  | tuple => nofun

/-- A tuple is younger than the tuples in it. -/
def Layered (h : Heap) : Prop := ∀ r s : Ref .tuple, .tuple s ∈ h.tuple r → s.index < r.index

theorem Layered.nesting_le (layered : h.Layered) {r : Ref .tuple} (mem : v ∈ h.tuple r) :
    v.nesting ≤ r.index := by
  cases v with
  | tuple s => exact layered r s mem
  | _ => exact Nat.zero_le _

theorem Holds.nesting_le (held : h.Holds v) : v.nesting ≤ h.tuples.size := by
  cases v with
  | tuple r => exact held
  | _ => exact Nat.zero_le _

theorem MadeOf.aged (made : h.MadeOf P v) (layered : h.Layered) (ages : h.Ages h')
    (inside : v.nesting ≤ h.tuples.size) : h'.MadeOf P v := by
  induction made with
  | single single property => exact .single single property
  | tuple items ih =>
    refine .tuple fun v mem => ?_
    rw [ages.tuples _ inside] at mem
    exact ih v mem (Nat.le_trans (layered.nesting_le mem) (Nat.le_of_succ_le inside))

theorem Hashable.unhashableIn?_eq (key : h.Hashable v) (steps : Nat) :
    h.unhashableIn? steps v = none := by
  induction key generalizing steps with
  | @single v single property =>
    cases steps with
    | zero => rfl
    | succ steps => cases v <;> first | rfl | cases property
  | tuple items ih =>
    cases steps with
    | zero => rfl
    | succ steps =>
      exact List.findSome?_eq_none_iff.2 fun v mem => ih v (Array.mem_toList_iff.1 mem) steps

theorem hashable_of_unhashableIn? (layered : h.Layered) {steps : Nat} (enough : v.nesting < steps)
    (found : h.unhashableIn? steps v = none) : h.Hashable v := by
  induction steps generalizing v with
  | zero => exact absurd enough (Nat.not_lt_zero _)
  | succ steps ih =>
    cases v with
    | tuple r =>
      refine .tuple fun v mem => ih ?_ ?_
      · exact Nat.lt_of_le_of_lt (layered.nesting_le mem) (Nat.lt_of_succ_lt_succ enough)
      · exact List.findSome?_eq_none_iff.1 found v (Array.mem_toList_iff.2 mem)
    | list r => cases found
    | dict r => cases found
    | _ => exact .single nofun rfl

theorem unhashable?_eq_none_iff (layered : h.Layered) (held : h.Holds v) :
    h.unhashable? v = none ↔ h.Hashable v := by
  constructor
  · exact hashable_of_unhashableIn? layered (Nat.lt_succ_of_le held.nesting_le)
  · exact fun key => key.unhashableIn?_eq _

theorem equal_of_single (depth : Nat) (single : a.isContainer = false ∨ b.isContainer = false) :
    h.equal (depth + 1) a b = some (a.plainEqual b) := by
  rw [equal] <;> rintro r s rfl rfl <;> simp [Value.isContainer] at single

/-- Equality of keys is the same at any depth beyond their nesting, also when the heap has aged. -/
theorem Hashable.equal_answers (key : h.Hashable a) (key' : h.Hashable b) (layered : h.Layered)
    (ages : h.Ages h') (inside : a.nesting ≤ h.tuples.size) (inside' : b.nesting ≤ h.tuples.size)
    {depth depth' : Nat} (deep : a.nesting < depth) (deep' : a.nesting < depth') :
    ∃ answer, h.equal depth a b = some answer ∧ h'.equal depth' a b = some answer := by
  induction depth generalizing a b depth' with
  | zero => exact absurd deep (Nat.not_lt_zero _)
  | succ depth ih =>
    obtain ⟨depth', rfl⟩ : ∃ n, depth' = n + 1 := ⟨depth' - 1, by omega⟩
    rcases key.cases with ⟨r, rfl, items⟩ | single
    · rcases key'.cases with ⟨s, rfl, items'⟩ | single'
      · rw [equal, equal, ages.tuples r inside, ages.tuples s inside']
        split
        · exact ⟨false, rfl, rfl⟩
        · refine equalAll_answers fun v mem w mem' => ?_
          rw [Array.mem_toList_iff] at mem mem'
          have below := layered.nesting_le mem
          have below' := layered.nesting_le mem'
          simp only [Value.nesting] at deep deep' inside inside'
          exact ih (items v mem) (items' w mem') (by omega) (by omega) (by omega) (by omega)
      · exact ⟨_, equal_of_single depth (.inr single'), equal_of_single depth' (.inr single')⟩
    · exact ⟨_, equal_of_single depth (.inl single), equal_of_single depth' (.inl single)⟩

theorem Hashable.equal_comm (key : h.Hashable a) (key' : h.Hashable b) (depth : Nat) :
    h.equal depth a b = h.equal depth b a := by
  induction depth generalizing a b with
  | zero => rfl
  | succ depth ih =>
    rcases key.cases with ⟨r, rfl, items⟩ | single
    · rcases key'.cases with ⟨s, rfl, items'⟩ | single'
      · rw [equal, equal]
        simp only [ne_comm (a := (h.tuple s).size)]
        split
        · rfl
        · exact equalAll_comm fun v mem w mem' =>
            ih (items v (Array.mem_toList_iff.1 mem)) (items' w (Array.mem_toList_iff.1 mem'))
      · rw [equal_of_single depth (.inr single'), equal_of_single depth (.inl single'),
          Value.plainEqual_comm]
    · rw [equal_of_single depth (.inl single), equal_of_single depth (.inr single),
        Value.plainEqual_comm]

/-- A tuple is equal to tuples only. -/
theorem Hashable.isContainer_eq (key : h.Hashable a) (key' : h.Hashable b) {depth : Nat}
    (same : h.equal depth a b = some true) : a.isContainer = b.isContainer := by
  obtain _ | depth := depth
  · cases same
  rcases key.cases with ⟨r, rfl, items⟩ | single
  · rcases key'.cases with ⟨s, rfl, items'⟩ | single'
    · rfl
    · rw [equal_of_single depth (.inr single')] at same
      cases b <;> simp_all [Value.isContainer, Value.plainEqual, Value.identical]
  · rcases key'.cases with ⟨s, rfl, items'⟩ | single'
    · rw [equal_of_single depth (.inl single)] at same
      cases a <;> simp_all [Value.isContainer, Value.plainEqual, Value.identical]
    · rw [single, single']

/-- Equality of keys without floats is transitive. -/
theorem Hashable.equal_trans (key : h.Hashable a) (key' : h.Hashable b) (key'' : h.Hashable c)
    (free : h.FloatFree a) (free' : h.FloatFree b) (free'' : h.FloatFree c) {depth : Nat}
    (first : h.equal depth a b = some true) (second : h.equal depth b c = some true) :
    h.equal depth a c = some true := by
  induction depth generalizing a b c with
  | zero => cases first
  | succ depth ih =>
    have like := key.isContainer_eq key' first
    have like' := key'.isContainer_eq key'' second
    rcases key.cases with ⟨r, rfl, items⟩ | single
    · rcases key'.cases with ⟨s, rfl, items'⟩ | single'
      · rcases key''.cases with ⟨t, rfl, items''⟩ | single''
        · rw [equal] at first second ⊢
          by_cases length : (h.tuple r).size = (h.tuple s).size
          · by_cases length' : (h.tuple s).size = (h.tuple t).size
            · rw [if_neg (not_not.2 length)] at first
              rw [if_neg (not_not.2 length')] at second
              rw [if_neg (not_not.2 (length.trans length'))]
              refine equalAll_trans (by simpa using length) (by simpa using length')
                (fun v mem w mem' x mem'' => ?_) first second
              rw [Array.mem_toList_iff] at mem mem' mem''
              exact ih (items v mem) (items' w mem') (items'' x mem'') (free.items v mem)
                (free'.items w mem') (free''.items x mem'')
            · rw [if_pos length'] at second
              cases second
          · rw [if_pos length] at first
            cases first
        · rw [single''] at like'
          cases like'
      · rw [single'] at like
        cases like
    · have single' := like.symm.trans single
      rw [equal_of_single depth (.inl single)] at first ⊢
      rw [equal_of_single depth (.inl single')] at second
      rw [Option.some_inj] at first second ⊢
      exact Value.plainEqual_trans free.ne_float free'.ne_float free''.ne_float first second

end Heap

end Console
