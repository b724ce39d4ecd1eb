import Console.Proofs.Heap.Equality
import Console.Proofs.Machine
import Mathlib.Order.Compare

/-!
# Order of values without cycles

Not all values have an order, and of two sequences only the first unequal items need one. Where order
is found it is that of a total preorder whose equivalence is equality: these laws hold of numbers and of
texts, are passed on from items to sequences, and so hold of all values without cycles and floats.
-/

namespace Console

namespace Heap

/-! ## Laws of partial orders -/

/-- What holds of a partial order of the values with a property, and of what counts as equal there:
where order is found it could be that of a total preorder. -/
structure Laws {α : Type} (P : α → Prop) (same : α → α → Prop) (order : α → α → Ordered) : Prop where
  alone {a o} : P a → order a a = .order o → o = .eq
  same_of_eq {a b} : P a → P b → order a b = .order .eq → same a b
  eq_of_same {a b o} : P a → P b → same a b → order a b = .order o → o = .eq
  symm {a b o} : P a → P b → same a b → order b a = .order o → same b a
  left {a b c o} : P a → P b → P c → o ≠ .eq → same a b → order b c = .order o → order a c = .order o
  right {a b c o} : P a → P b → P c → o ≠ .eq → order a b = .order o → same b c → order a c = .order o
  trans {a b c o} : P a → P b → P c → order a b = .order o → order b c = .order o →
    order a c = .order o
  swap {a b o o'} : P a → P b → order a b = .order o → order b a = .order o' → o' = o.swap

namespace Laws

variable {α β : Type} {P : α → Prop} {same same' : α → α → Prop} {order : α → α → Ordered}

/-- A total order. -/
theorem total (cmp : α → α → Ordering) [Std.TransCmp cmp] [Std.LawfulEqCmp cmp] :
    Laws (fun _ => True) Eq fun a b => .order (cmp a b) where
  alone _ found := by
    cases found
    exact Std.ReflCmp.compare_self
  same_of_eq _ _ found := Std.LawfulEqCmp.eq_of_compare (Ordered.order.inj found)
  eq_of_same _ _ same found := by
    cases found
    cases same
    exact Std.ReflCmp.compare_self
  symm _ _ same _ := same.symm
  left _ _ _ _ same found := same ▸ found
  right _ _ _ _ found same := same ▸ found
  trans {a b c o} _ _ _ first second := by
    rw [Ordered.order.injEq] at *
    cases o with
    | lt => exact Std.TransCmp.lt_trans first second
    | eq => exact Std.TransCmp.eq_trans first second
    | gt => exact Std.TransCmp.gt_trans first second
  swap {a b _ _} _ _ first second := by
    cases first
    cases second
    exact Std.OrientedCmp.eq_swap

/-- An order that goes by something else. -/
theorem comap {Q : β → Prop} {same' : β → β → Prop} {order' : β → β → Ordered}
    (laws : Laws Q same' order') (f : α → β) (inside : ∀ {a}, P a → Q (f a))
    (equal : ∀ {a b}, P a → P b → (same a b ↔ same' (f a) (f b)))
    (ordered : ∀ {a b}, P a → P b → order a b = order' (f a) (f b)) : Laws P same order where
  alone p found := laws.alone (inside p) (ordered p p ▸ found)
  same_of_eq p q found :=
    (equal p q).2 (laws.same_of_eq (inside p) (inside q) (ordered p q ▸ found))
  eq_of_same p q same found :=
    laws.eq_of_same (inside p) (inside q) ((equal p q).1 same) (ordered p q ▸ found)
  symm p q same found :=
    (equal q p).2 (laws.symm (inside p) (inside q) ((equal p q).1 same) (ordered q p ▸ found))
  left p q r differ same found := by
    rw [ordered p r]
    rw [ordered q r] at found
    exact laws.left (inside p) (inside q) (inside r) differ ((equal p q).1 same) found
  right p q r differ found same := by
    rw [ordered p r]
    rw [ordered p q] at found
    exact laws.right (inside p) (inside q) (inside r) differ found ((equal q r).1 same)
  trans p q r first second := by
    rw [ordered p r]
    rw [ordered p q] at first
    rw [ordered q r] at second
    exact laws.trans (inside p) (inside q) (inside r) first second
  swap p q first second :=
    laws.swap (inside p) (inside q) (ordered p q ▸ first) (ordered q p ▸ second)

/-- One after the other: the first that is strict decides. -/
theorem andThen {a b c : α} {o o' : Ordering} (laws : Laws P same order) (p : P a) (q : P b) (r : P c)
    (first : order a b = .order o) (second : order b c = .order o') (less : o.isLE) (less' : o'.isLE) :
    order a c = .order (o.then o') := by
  cases o with
  | lt =>
    cases o' with
    | lt => exact laws.trans p q r first second
    | eq => exact laws.right p q r nofun first (laws.same_of_eq q r second)
    | gt => cases less'
  | eq =>
    cases o' with
    | lt => exact laws.left p q r nofun (laws.same_of_eq p q first) second
    | eq => exact laws.trans p q r first second
    | gt => cases less'
  | gt => cases less

/-- What is the same may count as equal whatever is in it. -/
theorem orSelf (laws : Laws P same order) : Laws P (fun a b => a = b ∨ same a b) order where
  alone := laws.alone
  same_of_eq p q found := .inr (laws.same_of_eq p q found)
  eq_of_same p q same found := by
    rcases same with rfl | same
    · exact laws.alone p found
    · exact laws.eq_of_same p q same found
  symm p q same found := same.imp Eq.symm fun same => laws.symm p q same found
  left p q r differ same found := by
    rcases same with rfl | same
    · exact found
    · exact laws.left p q r differ same found
  right p q r differ found same := by
    rcases same with rfl | same
    · exact found
    · exact laws.right p q r differ found same
  trans := laws.trans
  swap := laws.swap

/-- It suffices to look at each scale where only values of one scale are ordered or equal. -/
theorem of_scales {κ : Type} (scale? : α → Option κ)
    (each : ∀ k, Laws (fun a => P a ∧ scale? a = some k) same order)
    (equal : ∀ {a b}, P a → P b → same a b → scale? a = scale? b)
    (ordered : ∀ {a b o}, P a → P b → order a b = .order o →
      ∃ k, scale? a = some k ∧ scale? b = some k) : Laws P same order where
  alone p found := by
    obtain ⟨k, scale, -⟩ := ordered p p found
    exact (each k).alone ⟨p, scale⟩ found
  same_of_eq p q found := by
    obtain ⟨k, scale, scale'⟩ := ordered p q found
    exact (each k).same_of_eq ⟨p, scale⟩ ⟨q, scale'⟩ found
  eq_of_same p q same found := by
    obtain ⟨k, scale, scale'⟩ := ordered p q found
    exact (each k).eq_of_same ⟨p, scale⟩ ⟨q, scale'⟩ same found
  symm p q same found := by
    obtain ⟨k, scale, scale'⟩ := ordered q p found
    exact (each k).symm ⟨p, scale'⟩ ⟨q, scale⟩ same found
  left p q r differ same found := by
    obtain ⟨k, scale, scale'⟩ := ordered q r found
    exact (each k).left ⟨p, (equal p q same).trans scale⟩ ⟨q, scale⟩ ⟨r, scale'⟩ differ same found
  right p q r differ found same := by
    obtain ⟨k, scale, scale'⟩ := ordered p q found
    exact (each k).right ⟨p, scale⟩ ⟨q, scale'⟩ ⟨r, (equal q r same).symm.trans scale'⟩ differ found
      same
  trans p q r first second := by
    obtain ⟨k, scale, scale'⟩ := ordered p q first
    obtain ⟨l, same, scale''⟩ := ordered q r second
    obtain rfl := Option.some.inj (scale'.symm.trans same)
    exact (each k).trans ⟨p, scale⟩ ⟨q, scale'⟩ ⟨r, scale''⟩ first second
  swap p q first second := by
    obtain ⟨k, scale, scale'⟩ := ordered p q first
    exact (each k).swap ⟨p, scale⟩ ⟨q, scale'⟩ first second

end Laws

/-! ## Order of sequences -/

/-- The order of two sequences of values. -/
abbrev sequenceOrder (h : Heap) : List Value → List Value → Ordered := orderItems h.equals h.orders

variable {h : Heap} {P : Value → Prop} {a b c v : Value} {as bs cs : List Value} {o : Ordering}

/-- Equal items are passed over, and unequal ones decide. -/
theorem sequenceOrder_cons (acyclic : h.Acyclic a) (b : Value) (as bs : List Value) :
    h.Same a b ∧ h.sequenceOrder (a :: as) (b :: bs) = h.sequenceOrder as bs ∨
      ¬ h.Same a b ∧ h.sequenceOrder (a :: as) (b :: bs) = h.orders a b := by
  obtain ⟨_ | _, found⟩ := acyclic.equals_answers b
  · exact .inr (by simp [Same, orderItems, found])
  · exact .inl (by simp [Same, orderItems, found])

theorem sequenceOrder_cons_same (same : h.Same a b) (as bs : List Value) :
    h.sequenceOrder (a :: as) (b :: bs) = h.sequenceOrder as bs := by
  rw [Same] at same
  simp [orderItems, same]

theorem sequenceOrder_of_same (same : List.Forall₂ h.Same as bs) :
    h.sequenceOrder as bs = .order .eq := by
  induction same with
  | nil => rfl
  | cons here _ ih => rw [sequenceOrder_cons_same here, ih]

namespace Laws

/-- Items that are apart decide. -/
theorem cons_eq (laws : Laws P h.Same h.orders) (exact : ∀ {v}, P v → h.Exact v) (p : P a) (q : P b)
    (differ : o ≠ .eq) (found : h.orders a b = .order o) (as bs : List Value) :
    h.sequenceOrder (a :: as) (b :: bs) = .order o := by
  rcases sequenceOrder_cons (exact p).acyclic b as bs with ⟨same, -⟩ | ⟨-, decided⟩
  · exact absurd (laws.eq_of_same p q same found) differ
  · exact decided.trans found

variable (laws : Laws P h.Same h.orders) (exact : ∀ {v}, P v → h.Exact v)
include laws exact

theorem items_alone (p : ∀ a ∈ as, P a) (found : h.sequenceOrder as as = .order o) : o = .eq := by
  induction as with
  | nil => exact (Ordered.order.inj found).symm
  | cons a as ih =>
    obtain ⟨here, others⟩ := List.forall_mem_cons.1 p
    rcases sequenceOrder_cons (exact here).acyclic a as as with ⟨-, decided⟩ | ⟨-, decided⟩
    · exact ih others (decided ▸ found)
    · exact laws.alone here (decided ▸ found)

theorem items_same_of_eq (p : ∀ a ∈ as, P a) (q : ∀ b ∈ bs, P b)
    (found : h.sequenceOrder as bs = .order .eq) : List.Forall₂ h.Same as bs := by
  induction as generalizing bs with
  | nil =>
    cases bs with
    | nil => exact .nil
    | cons b bs => cases found
  | cons a as ih =>
    cases bs with
    | nil => cases found
    | cons b bs =>
      obtain ⟨here, others⟩ := List.forall_mem_cons.1 p
      obtain ⟨here', others'⟩ := List.forall_mem_cons.1 q
      rcases sequenceOrder_cons (exact here).acyclic b as bs with
        ⟨same, decided⟩ | ⟨differ, decided⟩
      · exact .cons same (ih others others' (decided ▸ found))
      · exact absurd (laws.same_of_eq here here' (decided ▸ found)) differ

theorem items_symm (p : ∀ a ∈ as, P a) (q : ∀ b ∈ bs, P b) (same : List.Forall₂ h.Same as bs)
    (found : h.sequenceOrder bs as = .order o) : List.Forall₂ h.Same bs as := by
  induction same with
  | nil => exact .nil
  | @cons a b as bs here _ ih =>
    obtain ⟨first, others⟩ := List.forall_mem_cons.1 p
    obtain ⟨first', others'⟩ := List.forall_mem_cons.1 q
    rcases sequenceOrder_cons (exact first').acyclic a bs as with
      ⟨back, decided⟩ | ⟨differ, decided⟩
    · exact .cons back (ih others others' (decided ▸ found))
    · exact absurd (laws.symm first first' here (decided ▸ found)) differ

theorem items_left (p : ∀ a ∈ as, P a) (q : ∀ b ∈ bs, P b) (r : ∀ c ∈ cs, P c) (apart : o ≠ .eq)
    (same : List.Forall₂ h.Same as bs) (found : h.sequenceOrder bs cs = .order o) :
    h.sequenceOrder as cs = .order o := by
  induction same generalizing cs with
  | nil => exact found
  | @cons a b as bs here _ ih =>
    cases cs with
    | nil => exact found
    | cons c cs =>
      obtain ⟨first, others⟩ := List.forall_mem_cons.1 p
      obtain ⟨first', others'⟩ := List.forall_mem_cons.1 q
      obtain ⟨first'', others''⟩ := List.forall_mem_cons.1 r
      rcases sequenceOrder_cons (exact first').acyclic c bs cs with
        ⟨same, decided⟩ | ⟨-, decided⟩
      · rw [sequenceOrder_cons_same (here.trans (exact first) (exact first') (exact first'') same)]
        exact ih others others' others'' (decided ▸ found)
      · exact laws.cons_eq exact first first'' apart
          (laws.left first first' first'' apart here (decided ▸ found)) as cs

theorem items_right (p : ∀ a ∈ as, P a) (q : ∀ b ∈ bs, P b) (r : ∀ c ∈ cs, P c) (apart : o ≠ .eq)
    (found : h.sequenceOrder as bs = .order o) (same : List.Forall₂ h.Same bs cs) :
    h.sequenceOrder as cs = .order o := by
  induction same generalizing as with
  | nil => exact found
  | @cons b c bs cs here _ ih =>
    cases as with
    | nil => exact found
    | cons a as =>
      obtain ⟨first, others⟩ := List.forall_mem_cons.1 p
      obtain ⟨first', others'⟩ := List.forall_mem_cons.1 q
      obtain ⟨first'', others''⟩ := List.forall_mem_cons.1 r
      rcases sequenceOrder_cons (exact first).acyclic b as bs with
        ⟨same, decided⟩ | ⟨-, decided⟩
      · rw [sequenceOrder_cons_same (same.trans (exact first) (exact first') (exact first'') here)]
        exact ih others others' others'' (decided ▸ found)
      · exact laws.cons_eq exact first first'' apart
          (laws.right first first' first'' apart (decided ▸ found) here) as cs

theorem items_trans (p : ∀ a ∈ as, P a) (q : ∀ b ∈ bs, P b) (r : ∀ c ∈ cs, P c)
    (found : h.sequenceOrder as bs = .order o) (found' : h.sequenceOrder bs cs = .order o) :
    h.sequenceOrder as cs = .order o := by
  by_cases apart : o = .eq
  · subst apart
    refine sequenceOrder_of_same (forall₂_trans (fun a mem b mem' c mem'' => ?_)
      (laws.items_same_of_eq exact p q found) (laws.items_same_of_eq exact q r found'))
    exact Same.trans (exact (p a mem)) (exact (q b mem')) (exact (r c mem''))
  induction bs generalizing as cs with
  | nil =>
    rcases as with _ | ⟨a, as⟩ <;> rcases cs with _ | ⟨c, cs⟩
    · exact found
    · exact found'
    · exact found
    · cases found
      cases found'
  | cons b bs ih =>
    rcases as with _ | ⟨a, as⟩ <;> rcases cs with _ | ⟨c, cs⟩
    · cases found
      cases found'
    · exact found
    · exact found'
    obtain ⟨first, others⟩ := List.forall_mem_cons.1 p
    obtain ⟨first', others'⟩ := List.forall_mem_cons.1 q
    obtain ⟨first'', others''⟩ := List.forall_mem_cons.1 r
    have decides (here : h.orders a c = .order o) := laws.cons_eq exact first first'' apart here as cs
    rcases sequenceOrder_cons (exact first).acyclic b as bs with
      ⟨same, decided⟩ | ⟨-, decided⟩ <;>
      rcases sequenceOrder_cons (exact first').acyclic c bs cs with
        ⟨same', decided'⟩ | ⟨-, decided'⟩ <;>
      rw [decided] at found <;> rw [decided'] at found'
    · rw [sequenceOrder_cons_same (same.trans (exact first) (exact first') (exact first'') same')]
      exact ih others others' others'' found found'
    · exact decides (laws.left first first' first'' apart same found')
    · exact decides (laws.right first first' first'' apart found same')
    · exact decides (laws.trans first first' first'' found found')

theorem items_swap {o' : Ordering} (p : ∀ a ∈ as, P a) (q : ∀ b ∈ bs, P b)
    (found : h.sequenceOrder as bs = .order o) (found' : h.sequenceOrder bs as = .order o') :
    o' = o.swap := by
  induction as generalizing bs with
  | nil =>
    cases bs with
    | nil | cons =>
      cases found
      cases found'
      rfl
  | cons a as ih =>
    cases bs with
    | nil =>
      cases found
      cases found'
      rfl
    | cons b bs =>
      obtain ⟨first, others⟩ := List.forall_mem_cons.1 p
      obtain ⟨first', others'⟩ := List.forall_mem_cons.1 q
      rcases sequenceOrder_cons (exact first).acyclic b as bs with
        ⟨same, decided⟩ | ⟨differ, decided⟩ <;>
        rcases sequenceOrder_cons (exact first').acyclic a bs as with
          ⟨same', decided'⟩ | ⟨differ', decided'⟩ <;>
        rw [decided] at found <;> rw [decided'] at found'
      · exact ih others others' found found'
      · exact absurd (laws.symm first first' same found') differ'
      · exact absurd (laws.symm first' first same' found) differ
      · exact laws.swap first first' found found'

/-- The order of sequences of such values is lawful too. -/
theorem items : Laws (fun as => ∀ a ∈ as, P a) (List.Forall₂ h.Same) h.sequenceOrder where
  alone := laws.items_alone exact
  same_of_eq := laws.items_same_of_eq exact
  eq_of_same _ _ same found := by
    rw [sequenceOrder_of_same same] at found
    exact (Ordered.order.inj found).symm
  symm := laws.items_symm exact
  left := laws.items_left exact
  right := laws.items_right exact
  trans := laws.items_trans exact
  swap := laws.items_swap exact

end Laws

/-! ## Order of values -/

/-- The scales on which values are ordered. -/
inductive Scale
  | numbers
  | texts
  | lists
  | tuples

def scale? : Value → Option Scale
  | .bool _ | .int _ | .float _ => some .numbers
  | .str _ => some .texts
  | .list _ => some .lists
  | .tuple _ => some .tuples
  | _ => none

/-- Equal values are on one scale, or on none. -/
theorem Same.scale_eq (same : h.Same a b) : scale? a = scale? b := by
  rcases same.cases with ⟨r, s, rfl, rfl⟩ | ⟨t, u, rfl, rfl⟩ | ⟨d, e, rfl, rfl⟩ | ⟨-, -, plain⟩
  · rfl
  · rfl
  · rfl
  · cases a <;> cases b <;> first | rfl | cases plain

theorem scale_of_orders (found : h.orders a b = .order o) :
    ∃ scale, scale? a = some scale ∧ scale? b = some scale := by
  rcases h.order_cases a b with ⟨m, n, number, number'⟩ | ⟨s, t, rfl, rfl⟩ | ⟨r, s, rfl, rfl⟩ |
    ⟨r, s, rfl, rfl⟩ | unorderable
  · refine ⟨.numbers, ?_, ?_⟩
    · cases a <;> first | rfl | cases number
    · cases b <;> first | rfl | cases number'
  · exact ⟨.texts, rfl, rfl⟩
  · exact ⟨.lists, rfl, rfl⟩
  · exact ⟨.tuples, rfl, rfl⟩
  · rw [orders, depth, unorderable] at found
    cases found

/-- The whole number that a value counts as. -/
def wholeNumber (v : Value) : Int := (v.asInt?.getD 0).toInt

def text : Value → String
  | .str s => s
  | _ => ""

theorem orders_numbers {m n : Int64} (number : a.asInt? = some m) (number' : b.asInt? = some n) :
    h.orders a b = .order (compare m.toInt n.toInt) := by
  have whole {v : Value} {k : Int64} (number : v.asInt? = some k) : v.asNumber? = some (.int k) := by
    cases v <;> cases number <;> rfl
  exact order_numbers (whole number) (whole number') _

theorem same_numbers {m n : Int64} (number : a.asInt? = some m) (number' : b.asInt? = some n) :
    h.Same a b ↔ m = n := by
  have whole {v : Value} {k : Int64} (number : v.asInt? = some k) :
      v.isContainer = false ∧ v.counted = .int k ∧ v.hasEquality = true ∧ ∀ x, v ≠ .float x := by
    cases v <;> cases number <;> exact ⟨rfl, rfl, rfl, nofun⟩
  obtain ⟨single, counted, equality, noFloat⟩ := whole number
  obtain ⟨-, counted', -, noFloat'⟩ := whole number'
  rw [same_single_iff (.inl single), Value.plainEqual_iff noFloat noFloat', counted, counted',
    Value.int.injEq]
  exact and_iff_left equality

/-- The numbers are whole where there are no floats. -/
theorem Exact.exists_asInt? (exact : h.Exact v) (scale : scale? v = some .numbers) :
    ∃ n, v.asInt? = some n := by
  cases v with
  | bool | int => exact ⟨_, rfl⟩
  | float x => exact absurd rfl (exact.floatFree.here x)
  | _ => cases scale

theorem numbers_laws : Laws (fun v => h.Exact v ∧ scale? v = some .numbers) h.Same h.orders := by
  refine (Laws.total (compare (α := Int))).comap wholeNumber (fun _ => trivial) ?_ ?_
  · intro a b p q
    obtain ⟨m, number⟩ := p.1.exists_asInt? p.2
    obtain ⟨n, number'⟩ := q.1.exists_asInt? q.2
    rw [same_numbers number number', wholeNumber, wholeNumber, number, number', Option.getD_some,
      Option.getD_some, Int64.toInt_inj]
  · intro a b p q
    obtain ⟨m, number⟩ := p.1.exists_asInt? p.2
    obtain ⟨n, number'⟩ := q.1.exists_asInt? q.2
    rw [orders_numbers number number', wholeNumber, wholeNumber, number, number', Option.getD_some,
      Option.getD_some]

theorem texts_laws : Laws (fun v => h.Exact v ∧ scale? v = some .texts) h.Same h.orders := by
  refine (Laws.total (compare (α := String))).comap text (fun _ => trivial) ?_ ?_
  · rintro a b ⟨-, scale⟩ ⟨-, scale'⟩
    cases a <;> cases scale
    cases b <;> cases scale'
    simp [same_single_iff, Value.isContainer, Value.plainEqual, Value.identical, text]
  · rintro a b ⟨-, scale⟩ ⟨-, scale'⟩
    cases a <;> cases scale
    cases b <;> cases scale'
    rfl

/-- Where the parts of values are ordered lawfully, so are the values. -/
theorem laws_of_parts (laws : Laws P h.Same h.orders) (exact : ∀ {v}, P v → h.Exact v) :
    Laws (fun v => h.Exact v ∧ ∀ w ∈ h.parts v, P w) h.Same h.orders := by
  have items := laws.items exact
  refine .of_scales scale? (fun scale => ?_) (fun _ _ same => same.scale_eq)
    (fun _ _ found => scale_of_orders found)
  cases scale with
  | numbers => exact numbers_laws.comap id (fun p => ⟨p.1.1, p.2⟩) (fun _ _ => .rfl) (fun _ _ => rfl)
  | texts => exact texts_laws.comap id (fun p => ⟨p.1.1, p.2⟩) (fun _ _ => .rfl) (fun _ _ => rfl)
  | lists =>
    have within : Laws (fun v => (h.Exact v ∧ ∀ w ∈ h.parts v, P w) ∧ scale? v = some .lists)
        (fun a b => List.Forall₂ h.Same (h.parts a) (h.parts b)) h.orders := by
      refine items.comap h.parts (fun p => p.1.2) (fun _ _ => .rfl) ?_
      rintro a b ⟨-, scale⟩ ⟨-, scale'⟩
      cases a <;> cases scale
      cases b <;> cases scale'
      exact h.orders_list _ _
    refine within.orSelf.comap id id ?_ (fun _ _ => rfl)
    rintro a b ⟨-, scale⟩ ⟨-, scale'⟩
    cases a <;> cases scale
    cases b <;> cases scale'
    rw [id, id, Value.list.injEq]
    exact same_list_iff
  | tuples =>
    refine items.comap h.parts (fun p => p.1.2) ?_ ?_
    · rintro a b ⟨-, scale⟩ ⟨-, scale'⟩
      cases a <;> cases scale
      cases b <;> cases scale'
      exact same_tuple_iff
    · rintro a b ⟨-, scale⟩ ⟨-, scale'⟩
      cases a <;> cases scale
      cases b <;> cases scale'
      exact h.orders_tuple _ _

/-- The order of values without cycles and floats is lawful. -/
theorem orders_laws (h : Heap) : Laws h.Exact h.Same h.orders := by
  have upTo (n : Nat) : Laws (fun v => h.Exact v ∧ h.Shallow n v) h.Same h.orders := by
    induction n with
    | zero =>
      exact (numbers_laws (h := h)).comap id (fun p => p.2.elim) (fun p => p.2.elim)
        (fun p => p.2.elim)
    | succ n ih =>
      refine (laws_of_parts ih And.left).comap id ?_ (fun _ _ => .rfl) (fun _ _ => rfl)
      exact fun p => ⟨p.1, fun w mem => ⟨p.1.part mem, p.2 w mem⟩⟩
  refine (upTo (h.containers + 1)).comap id ?_ (fun _ _ => .rfl) (fun _ _ => rfl)
  exact fun exact => ⟨exact, exact.acyclic.shallow⟩

theorem sequenceOrder_ne_unordered (acyclic : ∀ a ∈ as, h.Acyclic a)
    (each : ∀ a ∈ as, ∀ b ∈ bs, h.orders a b ≠ .unordered) : h.sequenceOrder as bs ≠ .unordered := by
  induction as generalizing bs with
  | nil => cases bs <;> nofun
  | cons a as ih =>
    cases bs with
    | nil => nofun
    | cons b bs =>
      obtain ⟨here, others⟩ := List.forall_mem_cons.1 acyclic
      rcases sequenceOrder_cons here b as bs with ⟨-, decided⟩ | ⟨-, decided⟩ <;> rw [decided]
      · refine ih others fun a mem b mem' => ?_
        exact each a (List.mem_cons_of_mem _ mem) b (List.mem_cons_of_mem _ mem')
      · exact each a (by simp) b (by simp)

/-- Only what is not a number is in no order with the values of its type. -/
theorem orders_ne_unordered (exact : h.Exact a) (exact' : h.Exact b) : h.orders a b ≠ .unordered := by
  have acyclic := exact.acyclic
  induction acyclic using Acyclic.induction generalizing b with
  | step a acyclic ih =>
    have inside (v) (mem : v ∈ h.parts a) (w) (mem' : w ∈ h.parts b) :=
      ih v mem (exact.part mem) (exact'.part mem')
    rcases h.order_cases a b with ⟨x, y, number, number'⟩ | ⟨s, t, rfl, rfl⟩ | ⟨r, s, rfl, rfl⟩ |
      ⟨t, u, rfl, rfl⟩ | unorderable
    · obtain ⟨m, whole⟩ := exact.exists_asInt? (by cases a <;> first | rfl | cases number)
      obtain ⟨n, whole'⟩ := exact'.exists_asInt? (by cases b <;> first | rfl | cases number')
      simp [orders_numbers whole whole']
    · simp [orders, depth, order, Value.asNumber?]
    · rw [orders_list]
      exact sequenceOrder_ne_unordered (fun _ => acyclic.part) inside
    · rw [orders_tuple]
      exact sequenceOrder_ne_unordered (fun _ => acyclic.part) inside
    · simp [orders, depth, unorderable]

/-- There is an order, or the types have none. -/
theorem orders_of_exact (exact : h.Exact a) (exact' : h.Exact b) :
    (∃ o, h.orders a b = .order o) ∨ ∃ left right, h.orders a b = .unorderable left right := by
  cases found : h.orders a b with
  | order o => exact .inl ⟨o, rfl⟩
  | unordered => exact absurd found (orders_ne_unordered exact exact')
  | unorderable left right => exact .inr ⟨left, right, rfl⟩
  | tooDeep => exact absurd found (exact.acyclic.orders_ne_tooDeep b)

/-! ## The other way round -/

/-- Sequences of maps have the reverse order the other way round, if their items do. -/
theorem sequenceOrder_swap (keyed : ∀ a ∈ as, h.WellKeyed a) (keyed' : ∀ b ∈ bs, h.WellKeyed b)
    (each : ∀ a ∈ as, ∀ b ∈ bs, ∀ o, h.orders a b = .order o → h.orders b a = .order o.swap)
    (found : h.sequenceOrder as bs = .order o) : h.sequenceOrder bs as = .order o.swap := by
  induction as generalizing bs with
  | nil =>
    cases bs with
    | nil | cons =>
      cases found
      rfl
  | cons a as ih =>
    cases bs with
    | nil =>
      cases found
      rfl
    | cons b bs =>
      obtain ⟨here, others⟩ := List.forall_mem_cons.1 keyed
      obtain ⟨here', others'⟩ := List.forall_mem_cons.1 keyed'
      rcases sequenceOrder_cons here.acyclic b as bs with
        ⟨same, decided⟩ | ⟨differ, decided⟩
      · rw [sequenceOrder_cons_same (same.symm here here')]
        refine ih others others' (fun a mem b mem' => ?_) (decided ▸ found)
        exact each a (List.mem_cons_of_mem _ mem) b (List.mem_cons_of_mem _ mem')
      · rcases sequenceOrder_cons here'.acyclic a bs as with ⟨same, -⟩ | ⟨-, decided'⟩
        · exact absurd (same.symm here' here) differ
        · exact decided'.trans (each a (by simp) b (by simp) o (decided ▸ found))

theorem orders_swap (keyed : h.WellKeyed a) (keyed' : h.WellKeyed b) (found : h.orders a b = .order o) :
    h.orders b a = .order o.swap := by
  have acyclic := keyed.acyclic
  induction acyclic using Acyclic.induction generalizing b o with
  | step a acyclic ih =>
    obtain ⟨scale, here, there⟩ := scale_of_orders found
    have inside (v) (mem : v ∈ h.parts a) (w) (mem' : w ∈ h.parts b) (o)
        (found : h.orders v w = .order o) :=
      ih v mem (keyed.part mem) (keyed'.part mem') found
    cases scale with
    | numbers =>
      obtain ⟨m, number⟩ := keyed.exists_asInt? here
      obtain ⟨n, number'⟩ := keyed'.exists_asInt? there
      rw [orders_numbers number number'] at found
      rw [orders_numbers number' number]
      cases found
      exact congrArg Ordered.order Std.OrientedOrd.eq_swap
    | texts =>
      cases a <;> cases here
      cases b <;> cases there
      cases found
      exact congrArg Ordered.order (Std.OrientedOrd.eq_swap (α := String))
    | lists =>
      cases a <;> cases here
      cases b <;> cases there
      rw [orders_list] at found
      rw [orders_list]
      exact sequenceOrder_swap (fun _ => keyed.part) (fun _ => keyed'.part) inside found
    | tuples =>
      cases a <;> cases here
      cases b <;> cases there
      rw [orders_tuple] at found
      rw [orders_tuple]
      exact sequenceOrder_swap (fun _ => keyed.part) (fun _ => keyed'.part) inside found

end Heap

/-! ## Comparisons -/

namespace Eval

variable {m m' : Machine} {a b c : Value} {o : Ordering} {found : Option Ordering}

theorem run_order (ordered : m.heap.orders a b = .order o) : order a b m = .ok (some o) m := by
  rw [order, run_ask, ordered]
  rfl

/-- Where order succeeds without floats, one value is less or they are equal. -/
theorem orders_of_order (exact : m.heap.Exact a) (exact' : m.heap.Exact b)
    (run : order a b m = .ok found m') :
    ∃ o, found = some o ∧ m' = m ∧ m.heap.orders a b = .order o := by
  rcases Heap.orders_of_exact exact exact' with ⟨o, ordered⟩ | ⟨left, right, unorderable⟩
  · rw [run_order ordered] at run
    cases run
    exact ⟨o, rfl, rfl, ordered⟩
  · rw [order, run_ask, unorderable] at run
    cases run

theorem run_equals {answer : Bool} (equal : m.heap.equals a b = some answer) :
    equals a b m = .ok answer m := by
  rw [equals, run_ask, equal]
  rfl

/-- Of values without cycles and floats whose dicts are maps: if they have an order, it is equality that
order finds equal, the order is the reverse the other way round, and one comparison holds; and orders
one after the other make one, which is strict if one of them is. -/
theorem comparison_is_a_total_order (keyed : m.heap.WellKeyed a) (keyed' : m.heap.WellKeyed b)
    (keyed'' : m.heap.WellKeyed c) :
    (∀ found m', order a b m = .ok found m' → ∃ o, found = some o ∧ m' = m ∧
      (o = .eq ↔ equals a b m = .ok true m) ∧
      order b a m = .ok (some o.swap) m ∧
      compare .lt a b m = .ok (o == .lt) m ∧
      compare .eq a b m = .ok (o == .eq) m ∧
      compare .gt a b m = .ok (o == .gt) m ∧
      compare .le a b m = .ok (o == .lt || o == .eq) m) ∧
    ∀ o o', order a b m = .ok (some o) m → order b c m = .ok (some o') m → o.isLE → o'.isLE →
      ∃ o'', order a c m = .ok (some o'') m ∧ o''.isLE ∧ (o = .lt ∨ o' = .lt → o'' = .lt) := by
  have exact := keyed.toExact
  have exact' := keyed'.toExact
  have exact'' := keyed''.toExact
  have laws := m.heap.orders_laws
  constructor
  · intro found m' run
    obtain ⟨o, rfl, rfl, ordered⟩ := orders_of_order exact exact' run
    have compared (test : Ordering → Bool) :
        (do return (← order a b).any test) m' = .ok (test o) m' := by
      rw [run_bind (run_order ordered)]
      rfl
    have equal : m'.heap.equals a b = some (o == .eq) := by
      obtain ⟨answer, answered⟩ := exact.acyclic.equals_answers b
      rw [answered, Option.some_inj, Bool.eq_iff_iff, beq_iff_eq]
      constructor
      · rintro rfl
        exact laws.eq_of_same exact exact' answered ordered
      · rintro rfl
        exact Option.some.inj (answered.symm.trans (laws.same_of_eq exact exact' ordered))
    refine ⟨o, rfl, rfl, ?_, run_order (Heap.orders_swap keyed keyed' ordered), ?_, ?_, ?_, ?_⟩
    · rw [run_equals equal]
      cases o <;> simp
    · exact (compared _).trans (by cases o <;> rfl)
    · exact run_equals equal
    · exact (compared _).trans (by cases o <;> rfl)
    · exact (compared _).trans (by cases o <;> rfl)
  · intro o o' first second less less'
    obtain ⟨_, ⟨⟩, -, ordered⟩ := orders_of_order exact exact' first
    obtain ⟨_, ⟨⟩, -, ordered'⟩ := orders_of_order exact' exact'' second
    refine ⟨o.then o', run_order (laws.andThen exact exact' exact'' ordered ordered' less less'), ?_, ?_⟩
    · cases o with
      | lt | gt => exact less
      | eq => exact less'
    · rintro (rfl | rfl)
      · rfl
      · cases o with
        | lt | eq => rfl
        | gt => cases less

theorem pairs_are_ordered :
    let m : Machine := { Machine.fresh with heap := { Heap.empty with
      lists := #[#[.int 1, .int 2], #[.bool true, .int 3], #[.int 1, .int 3]] } }
    compare .lt (.list ⟨0⟩) (.list ⟨1⟩) m = .ok true m ∧
      compare .eq (.list ⟨0⟩) (.list ⟨1⟩) m = .ok false m ∧
      order (.list ⟨1⟩) (.list ⟨0⟩) m = .ok (some .gt) m ∧
      ∃ o, order (.list ⟨0⟩) (.list ⟨2⟩) m = .ok (some o) m ∧ o = .lt := by
  intro m
  have pair (i : Nat) (v w : Value) (parts : m.heap.parts (.list ⟨i⟩) = [v, w])
      (first : v.isContainer = false ∧ v.isPlain = true)
      (second : w.isContainer = false ∧ w.isPlain = true) : m.heap.WellKeyed (.list ⟨i⟩) := by
    refine Heap.PlainData.wellKeyed (.of_parts rfl trivial (parts ▸ ?_))
    exact List.forall_mem_cons.2 ⟨.of_single first.1 first.2,
      List.forall_mem_singleton.2 (.of_single second.1 second.2)⟩
  obtain ⟨first, later⟩ := comparison_is_a_total_order
    (pair 0 (.int 1) (.int 2) rfl ⟨rfl, rfl⟩ ⟨rfl, rfl⟩)
    (pair 1 (.bool true) (.int 3) rfl ⟨rfl, rfl⟩ ⟨rfl, rfl⟩)
    (pair 2 (.int 1) (.int 3) rfl ⟨rfl, rfl⟩ ⟨rfl, rfl⟩)
  obtain ⟨_, ⟨⟩, -, -, reverse, less, equal, -, -⟩ := first (some .lt) m rfl
  obtain ⟨o, run, -, strict⟩ := later .lt .eq rfl rfl rfl rfl
  exact ⟨less, equal, reverse, o, run, strict (.inl rfl)⟩

end Eval

end Console
