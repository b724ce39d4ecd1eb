import Console.Proofs.Heap.Acyclic
import Mathlib.Data.Finset.Prod

/-!
# What comparisons ask

Whether two values are equal, or how they are ordered, is found by asking the same of what is in them,
one question after the other; which is asked next depends on the answers so far. A comparison never ends
if it comes to a question again that it is still about, and only then: there are no more questions about
containers than two for each pair of them, so any other comparison is done at the depth that a heap
allows.
-/

namespace Console

/-- What a comparison finds out about two values. -/
inductive Question
  | equal (a b : Value)
  | order (a b : Value)

namespace Question

abbrev Answer : Question → Type
  | equal _ _ => Bool
  | order _ _ => Ordered

def left : Question → Value
  | equal a _ | order a _ => a

def right : Question → Value
  | equal _ b | order _ b => b

def isOrder : Question → Bool
  | equal .. => false
  | order .. => true

theorem ext {q q' : Question} (kind : q.isOrder = q'.isOrder) (left : q.left = q'.left)
    (right : q.right = q'.right) : q = q' := by
  cases q <;> cases q' <;> cases kind <;> cases left <;> cases right <;> rfl

end Question

/-- A search for an answer, which asks questions as long as it has none. -/
inductive Inquiry (α : Type)
  | done (a : α)
  | ask (q : Question) (next : q.Answer → Inquiry α)

namespace Inquiry

variable {α β γ : Type}

def bind : Inquiry α → (α → Inquiry β) → Inquiry β
  | done a, f => f a
  | ask q next, f => ask q fun a => (next a).bind f

instance : Monad Inquiry where
  pure := done
  bind := bind

def equal (a b : Value) : Inquiry Bool := ask (.equal a b) done

def order (a b : Value) : Inquiry Ordered := ask (.order a b) done

/-- Whether two sequences have equal items. -/
def sameItems : List Value → List Value → Inquiry Bool
  | a :: as, b :: bs => do if ← equal a b then sameItems as bs else return false
  | _, _ => return true

/-- Whether some item satisfies a test. -/
def exists? (test : γ → Inquiry Bool) : List γ → Inquiry Bool
  | [] => return false
  | c :: cs => do if ← test c then return true else exists? test cs

/-- Whether every item satisfies a test. -/
def forall? (test : γ → Inquiry Bool) : List γ → Inquiry Bool
  | [] => return true
  | c :: cs => do if ← test c then forall? test cs else return false

/-- Whether the entries of one dict are all found in another. -/
def sameEntries (entries entries' : List (Value × Value)) : Inquiry Bool :=
  forall? (fun e => exists? (fun e' => do if ← equal e.1 e'.1 then equal e.2 e'.2 else return false)
    entries') entries

/-- How two sequences are ordered. -/
def orderItems : List Value → List Value → Inquiry Ordered
  | a :: as, b :: bs => do if ← equal a b then orderItems as bs else order a b
  | [], [] => return .order .eq
  | [], _ :: _ => return .order .lt
  | _ :: _, [] => return .order .gt

/-! ## Answers -/

/-- What is found where questions are answered like that, if they are. -/
def find (answer : (q : Question) → Option q.Answer) : Inquiry α → Option α
  | done a => some a
  | ask q next => (answer q).bind fun a => (next a).find answer

/-- The question is asked where questions have these answers. -/
inductive Asks (Answers : (q : Question) → q.Answer → Prop) : Inquiry α → Question → Prop
  | here {q : Question} {next : q.Answer → Inquiry α} : Asks Answers (ask q next) q
  | later {q q' : Question} {next : q.Answer → Inquiry α} {a : q.Answer} (known : Answers q a)
    (asks : Asks Answers (next a) q') : Asks Answers (ask q next) q'

section

variable {answer answer' : (q : Question) → Option q.Answer} {x : Inquiry α}

@[simp] theorem find_pure (a : α) : (pure a : Inquiry α).find answer = some a := rfl

@[simp] theorem find_bind (f : α → Inquiry β) :
    (x >>= f).find answer = x.find answer >>= fun a => (f a).find answer := by
  induction x with
  | done a => rfl
  | ask q next ih =>
    change ((answer q).bind fun a => (next a >>= f).find answer) = _
    simp only [ih, find]
    exact (Option.bind_assoc ..).symm

@[simp] theorem find_ite (c : Bool) (y z : Inquiry α) :
    (if c then y else z).find answer = if c then y.find answer else z.find answer := by
  cases c <;> rfl

@[simp] theorem find_equal (a b : Value) : (equal a b).find answer = answer (.equal a b) :=
  Option.bind_fun_some _

theorem find_mono (more : ∀ q a, answer q = some a → answer' q = some a) {a : α}
    (found : x.find answer = some a) : x.find answer' = some a := by
  induction x with
  | done => exact found
  | ask q next ih =>
    obtain ⟨b, known, found⟩ := Option.bind_eq_some_iff.1 found
    exact Option.bind_eq_some_iff.2 ⟨b, more q b known, ih b found⟩

/-- Something is found if all is answered that is asked. -/
theorem exists_find_iff {Answers : (q : Question) → q.Answer → Prop}
    (answers : ∀ q a, answer q = some a → ∀ a', Answers q a' ↔ a' = a) :
    (∃ a, x.find answer = some a) ↔ ∀ q, x.Asks Answers q → ∃ a, answer q = some a := by
  induction x with
  | done a => exact ⟨fun _ _ asks => (nomatch asks), fun _ => ⟨a, rfl⟩⟩
  | ask q next ih =>
    constructor
    · rintro ⟨a, found⟩ q' asks
      obtain ⟨b, known, found⟩ := Option.bind_eq_some_iff.1 found
      cases asks with
      | here => exact ⟨b, known⟩
      | later known' asks =>
        obtain rfl := (answers q b known _).1 known'
        exact (ih _).1 ⟨a, found⟩ q' asks
    · intro each
      obtain ⟨b, known⟩ := each q .here
      obtain ⟨a, found⟩ := (ih b).2 fun q' asks => each q' (.later ((answers q b known b).2 rfl) asks)
      exact ⟨a, Option.bind_eq_some_iff.2 ⟨b, known, found⟩⟩

theorem find_sameItems (as bs : List Value) :
    (sameItems as bs).find answer = equalAll (fun a b => answer (.equal a b)) as bs := by
  induction as generalizing bs with
  | nil => rfl
  | cons a as ih =>
    cases bs with
    | nil => rfl
    | cons b bs => simp only [sameItems, equalAll, find_bind, find_equal, find_ite, find_pure, ih]; rfl

theorem find_exists? (test : γ → Inquiry Bool) (cs : List γ) :
    (exists? test cs).find answer = findEqual (fun c => (test c).find answer) cs := by
  induction cs with
  | nil => rfl
  | cons c cs ih => simp only [exists?, findEqual, find_bind, find_ite, find_pure, ih]; rfl

theorem find_forall? (test : γ → Inquiry Bool) (cs : List γ) :
    (forall? test cs).find answer = holdsForAll (fun c => (test c).find answer) cs := by
  induction cs with
  | nil => rfl
  | cons c cs ih => simp only [forall?, holdsForAll, find_bind, find_ite, find_pure, ih]; rfl

theorem find_sameEntries (entries entries' : List (Value × Value)) :
    (sameEntries entries entries').find answer = holdsForAll (fun e => findEqual (fun e' => do
      if ← answer (.equal e.1 e'.1) then answer (.equal e.2 e'.2) else return false) entries')
        entries := by
  simp only [sameEntries, find_forall?, find_exists?, find_bind, find_equal, find_ite, find_pure]
  rfl

end

/-! ## What is asked -/

section

variable {Answers : (q : Question) → q.Answer → Prop} {q : Question} {a b : Value}
  {as bs : List Value} {cs : List γ} {x : Inquiry α} {y z : Inquiry β} {f : α → Inquiry β}
  {test : γ → Inquiry Bool}

theorem not_asks_pure (a : α) : ¬(pure a : Inquiry α).Asks Answers q := nofun

theorem asks_equal (asks : (equal a b).Asks Answers q) : q = .equal a b := by
  cases asks with
  | here => rfl
  | later _ asks => cases asks

theorem asks_order (asks : (order a b).Asks Answers q) : q = .order a b := by
  cases asks with
  | here => rfl
  | later _ asks => cases asks

theorem asks_bind (asks : (x >>= f).Asks Answers q) :
    x.Asks Answers q ∨ ∃ a, (f a).Asks Answers q := by
  induction x with
  | done a => exact .inr ⟨a, asks⟩
  | ask q' next ih =>
    cases asks with
    | here => exact .inl .here
    | later known asks => exact (ih _ asks).imp_left (.later known)

theorem asks_ite {c : Bool} (asks : (if c then y else z).Asks Answers q) :
    y.Asks Answers q ∨ z.Asks Answers q := by
  cases c with
  | true => exact .inl asks
  | false => exact .inr asks

theorem asks_sameItems (asks : (sameItems as bs).Asks Answers q) : q.left ∈ as ∧ q.right ∈ bs := by
  induction as generalizing bs with
  | nil => exact absurd asks (not_asks_pure _)
  | cons a as ih =>
    cases bs with
    | nil => exact absurd asks (not_asks_pure _)
    | cons b bs =>
      rcases asks_bind asks with here | ⟨answer, later⟩
      · obtain rfl := asks_equal here
        exact ⟨.head _, .head _⟩
      rcases asks_ite later with later | done
      · exact (ih later).imp (.tail _) (.tail _)
      · exact absurd done (not_asks_pure _)

theorem asks_orderItems (asks : (orderItems as bs).Asks Answers q) : q.left ∈ as ∧ q.right ∈ bs := by
  induction as generalizing bs with
  | nil => cases bs <;> exact absurd asks (not_asks_pure _)
  | cons a as ih =>
    cases bs with
    | nil => exact absurd asks (not_asks_pure _)
    | cons b bs =>
      rcases asks_bind asks with here | ⟨answer, later⟩
      · obtain rfl := asks_equal here
        exact ⟨.head _, .head _⟩
      rcases asks_ite later with later | last
      · exact (ih later).imp (.tail _) (.tail _)
      · obtain rfl := asks_order last
        exact ⟨.head _, .head _⟩

theorem asks_exists? (asks : (exists? test cs).Asks Answers q) :
    ∃ c ∈ cs, (test c).Asks Answers q := by
  induction cs with
  | nil => exact absurd asks (not_asks_pure _)
  | cons c cs ih =>
    rcases asks_bind asks with here | ⟨answer, later⟩
    · exact ⟨c, .head _, here⟩
    rcases asks_ite later with done | later
    · exact absurd done (not_asks_pure _)
    · obtain ⟨c, mem, asks⟩ := ih later
      exact ⟨c, .tail _ mem, asks⟩

theorem asks_forall? (asks : (forall? test cs).Asks Answers q) :
    ∃ c ∈ cs, (test c).Asks Answers q := by
  induction cs with
  | nil => exact absurd asks (not_asks_pure _)
  | cons c cs ih =>
    rcases asks_bind asks with here | ⟨answer, later⟩
    · exact ⟨c, .head _, here⟩
    rcases asks_ite later with later | done
    · obtain ⟨c, mem, asks⟩ := ih later
      exact ⟨c, .tail _ mem, asks⟩
    · exact absurd done (not_asks_pure _)

theorem asks_sameEntries {entries entries' : List (Value × Value)}
    (asks : (sameEntries entries entries').Asks Answers q) :
    ∃ e ∈ entries, ∃ e' ∈ entries', q = .equal e.1 e'.1 ∨ q = .equal e.2 e'.2 := by
  obtain ⟨e, mem, asks⟩ := asks_forall? asks
  obtain ⟨e', mem', asks⟩ := asks_exists? asks
  refine ⟨e, mem, e', mem', ?_⟩
  rcases asks_bind asks with key | ⟨answer, later⟩
  · exact .inl (asks_equal key)
  rcases asks_ite later with value | done
  · exact .inr (asks_equal value)
  · exact absurd done (not_asks_pure _)

end

end Inquiry

/-! ## Questions about a heap -/

/-- The order that was found, if it was found. -/
def Ordered.found? : Ordered → Option Ordered
  | .tooDeep => none
  | o => some o

theorem Ordered.found?_of_ne {o : Ordered} (found : o ≠ .tooDeep) : o.found? = some o := by
  cases o <;> first | rfl | exact absurd rfl found

theorem Ordered.found?_injective : Function.Injective Ordered.found? := by
  intro o o' same
  cases o <;> cases o' <;> cases same <;> rfl

namespace Heap

open Relation

variable {h : Heap} {q q' : Question} {depth depth' : Nat} {a b v w : Value}

/-- The answer to a question, as far as it is found at a depth. -/
def answer (h : Heap) (depth : Nat) : (q : Question) → Option q.Answer
  | .equal a b => h.equal depth a b
  | .order a b => (h.order depth a b).found?

/-- How equality is found out. -/
def equalInquiry (h : Heap) : Value → Value → Inquiry Bool
  | .list r, .list s =>
    if r = s then .done true
    else if (h.list r).size ≠ (h.list s).size then .done false
    else .sameItems (h.list r).toList (h.list s).toList
  | .tuple r, .tuple s =>
    if (h.tuple r).size ≠ (h.tuple s).size then .done false
    else .sameItems (h.tuple r).toList (h.tuple s).toList
  | .dict r, .dict s =>
    if (h.dict r).size ≠ (h.dict s).size then .done false
    else .sameEntries (h.dict r).toList (h.dict s).toList
  | a, b => .done (a.plainEqual b)

/-- How order is found out. -/
def orderInquiry (h : Heap) : Value → Value → Inquiry Ordered
  | .list r, .list s => .orderItems (h.list r).toList (h.list s).toList
  | .tuple r, .tuple s => .orderItems (h.tuple r).toList (h.tuple s).toList
  | a, b => .done (h.order 1 a b)

def inquiry (h : Heap) : (q : Question) → Inquiry q.Answer
  | .equal a b => h.equalInquiry a b
  | .order a b => h.orderInquiry a b

/-- The answer to a question, at whatever depth it is found. -/
def Answers (h : Heap) (q : Question) (a : q.Answer) : Prop := ∃ depth, h.answer depth q = some a

/-- A question is asked while another one is answered. -/
def Asks (h : Heap) (q q' : Question) : Prop := (h.inquiry q).Asks h.Answers q'

/-- While the question is answered, it comes to a question that is asked again before it is answered. -/
def Recurs (h : Heap) : Question → Prop := Descent.Recurs h.Asks

/-! ### Step by step -/

theorem find_orderItems (as bs : List Value) : (Inquiry.orderItems as bs).find (h.answer depth) =
    (orderItems (h.equal depth) (h.order depth) as bs).found? := by
  induction as generalizing bs with
  | nil => cases bs <;> rfl
  | cons a as ih =>
    cases bs with
    | nil => rfl
    | cons b bs =>
      rw [Inquiry.orderItems, orderItems, Inquiry.find_bind, Inquiry.find_equal]
      change (h.equal depth a b).bind _ = _
      rcases h.equal depth a b with _ | _ | _
      · rfl
      · exact Option.bind_fun_some _
      · exact ih bs

/-- Two values are numbers, texts, lists or tuples, or they have no order. -/
theorem order_cases (h : Heap) (a b : Value) :
    (∃ m n, a.asNumber? = some m ∧ b.asNumber? = some n) ∨ (∃ s t, a = .str s ∧ b = .str t) ∨
      (∃ r s, a = .list r ∧ b = .list s) ∨ (∃ r s, a = .tuple r ∧ b = .tuple s) ∨
        ∀ depth, h.order (depth + 1) a b = .unorderable a.typeName b.typeName := by
  cases a with
  | bool | int | float =>
    cases b with
    | bool | int | float => exact .inl ⟨_, _, rfl, rfl⟩
    | _ => exact .inr (.inr (.inr (.inr fun _ => rfl)))
  | str s =>
    cases b with
    | str t => exact .inr (.inl ⟨s, t, rfl, rfl⟩)
    | _ => exact .inr (.inr (.inr (.inr fun _ => rfl)))
  | list r =>
    cases b with
    | list s => exact .inr (.inr (.inl ⟨r, s, rfl, rfl⟩))
    | _ => exact .inr (.inr (.inr (.inr fun _ => rfl)))
  | tuple r =>
    cases b with
    | tuple s => exact .inr (.inr (.inr (.inl ⟨r, s, rfl, rfl⟩)))
    | _ => exact .inr (.inr (.inr (.inr fun _ => rfl)))
  | _ => exact .inr (.inr (.inr (.inr fun _ => rfl)))

theorem order_numbers {m n : Number} (number : a.asNumber? = some m) (number' : b.asNumber? = some n)
    (depth : Nat) : h.order (depth + 1) a b = compareNumbers m n := by
  rw [order.eq_def]
  simp only [number, number']

theorem compareNumbers_ne_tooDeep (m n : Number) : compareNumbers m n ≠ .tooDeep := by
  unfold compareNumbers compareFloats
  split
  · nofun
  · split_ifs <;> nofun

/-- Values that are not looked into are ordered at any depth. -/
theorem order_of_no_sequence (lists : ∀ r s, a = .list r → b = .list s → False)
    (tuples : ∀ r s, a = .tuple r → b = .tuple s → False) (depth : Nat) :
    (h.order (depth + 1) a b).found? = some (h.order 1 a b) := by
  rcases h.order_cases a b with ⟨m, n, number, number'⟩ | ⟨s, t, rfl, rfl⟩ | ⟨r, s, list, list'⟩ |
    ⟨r, s, tuple, tuple'⟩ | unorderable
  · rw [order_numbers number number', order_numbers number number']
    exact Ordered.found?_of_ne (compareNumbers_ne_tooDeep m n)
  · rfl
  · exact (lists r s list list').elim
  · exact (tuples r s tuple tuple').elim
  · rw [unorderable, unorderable]
    rfl

theorem equal_succ (h : Heap) (depth : Nat) (a b : Value) :
    h.equal (depth + 1) a b = (h.equalInquiry a b).find (h.answer depth) := by
  unfold equalInquiry
  split
  · rw [equal]
    split
    · rfl
    split
    · rfl
    · rw [Inquiry.find_sameItems]
      rfl
  · rw [equal]
    split
    · rfl
    · rw [Inquiry.find_sameItems]
      rfl
  · rw [equal]
    split
    · rfl
    · rw [Inquiry.find_sameEntries]
      rfl
  · next lists tuples dicts =>
    rw [equal]
    · rfl
    · exact lists
    · exact tuples
    · exact dicts

theorem order_succ (h : Heap) (depth : Nat) (a b : Value) :
    (h.order (depth + 1) a b).found? = (h.orderInquiry a b).find (h.answer depth) := by
  unfold orderInquiry
  split
  · exact (find_orderItems _ _).symm
  · exact (find_orderItems _ _).symm
  · next lists tuples => exact order_of_no_sequence lists tuples depth

/-- What is found at a depth rests on the answers found one step less deep. -/
theorem answer_succ (h : Heap) (depth : Nat) (q : Question) :
    h.answer (depth + 1) q = (h.inquiry q).find (h.answer depth) := by
  cases q with
  | equal a b => exact h.equal_succ depth a b
  | order a b => exact h.order_succ depth a b

/-- No answer is found without depth. -/
theorem answer_zero (h : Heap) (q : Question) : h.answer 0 q = none := by
  cases q with
  | equal a b => rfl
  | order a b => rfl

theorem answer_add {a : q.Answer} (found : h.answer depth q = some a) (more : Nat) :
    h.answer (depth + more) q = some a := by
  induction depth generalizing q with
  | zero => rw [answer_zero] at found; cases found
  | succ depth ih =>
    rw [Nat.succ_add, answer_succ]
    rw [answer_succ] at found
    exact Inquiry.find_mono (fun q a => ih) found

/-- Whatever depth it is found at, the answer is the same. -/
theorem Answers.unique {a a' : q.Answer} (found : h.Answers q a) (found' : h.Answers q a') :
    a = a' := by
  obtain ⟨depth, found⟩ := found
  obtain ⟨depth', found'⟩ := found'
  have both := answer_add found' depth
  rw [Nat.add_comm, answer_add found depth'] at both
  exact Option.some.inj both

theorem answers_iff {a : q.Answer} (found : h.answer depth q = some a) (a' : q.Answer) :
    h.Answers q a' ↔ a' = a :=
  ⟨fun found' => found'.unique ⟨depth, found⟩, fun same => same ▸ ⟨depth, found⟩⟩

/-! ### Depth -/

/-- An answer is found at a depth if no longer chain of questions comes up on the way to it. -/
theorem exists_answer_iff (h : Heap) (depth : Nat) (q : Question) :
    (∃ a, h.answer depth q = some a) ↔ Descent.Within h.Asks depth q := by
  induction depth generalizing q with
  | zero => simp [answer_zero, Descent.Within]
  | succ depth ih =>
    rw [answer_succ, Inquiry.exists_find_iff fun q a => answers_iff]
    exact forall₂_congr fun q' _ => ih q'

/-- Whatever is asked about two values is about what is in them. -/
theorem Asks.inside (asks : h.Asks q q') :
    q'.left ∈ h.parts q.left ∧ q'.right ∈ h.parts q.right := by
  cases q with
  | equal a b =>
    change (h.equalInquiry a b).Asks h.Answers q' at asks
    unfold equalInquiry at asks
    split at asks
    · split at asks
      · cases asks
      split at asks
      · cases asks
      · exact Inquiry.asks_sameItems asks
    · split at asks
      · cases asks
      · exact Inquiry.asks_sameItems asks
    · split at asks
      · cases asks
      · obtain ⟨e, mem, e', mem', rfl | rfl⟩ := Inquiry.asks_sameEntries asks
        · exact ⟨key_mem_parts mem, key_mem_parts mem'⟩
        · exact ⟨value_mem_parts mem, value_mem_parts mem'⟩
    · cases asks
  | order a b =>
    change (h.orderInquiry a b).Asks h.Answers q' at asks
    unfold orderInquiry at asks
    split at asks
    · exact Inquiry.asks_orderItems asks
    · exact Inquiry.asks_orderItems asks
    · cases asks

/-- What tells apart the questions that anything is asked about. -/
def site (h : Heap) (q : Question) : Bool × Nat × Nat :=
  (q.isOrder, h.place q.left, h.place q.right)

def sites (h : Heap) : Finset (Bool × Nat × Nat) :=
  {false, true} ×ˢ Finset.range h.containers ×ˢ Finset.range h.containers

theorem card_sites (h : Heap) : h.sites.card = h.comparisons := by
  rw [sites, Finset.card_product, Finset.card_product, Finset.card_range]
  rfl

theorem sited_asks (h : Heap) : Descent.Sited h.Asks h.site h.sites where
  mem {q q'} asks := by
    obtain ⟨left, right⟩ := asks.inside
    simp [sites, site, place_lt left, place_lt right]
  injective {q q' r r'} asks asks' same := by
    obtain ⟨left, right⟩ := asks.inside
    obtain ⟨left', right'⟩ := asks'.inside
    obtain ⟨kind, here⟩ := Prod.ext_iff.1 same
    obtain ⟨first, second⟩ := Prod.ext_iff.1 here
    exact Question.ext kind (eq_of_place_eq left left' first) (eq_of_place_eq right right' second)

/-- What recurs is never answered. -/
theorem Recurs.answer_eq_none (recurs : h.Recurs q) (depth : Nat) : h.answer depth q = none := by
  cases found : h.answer depth q with
  | none => rfl
  | some a => exact absurd recurs ((h.exists_answer_iff depth q).1 ⟨a, found⟩).not_recurs

/-- At the depth that a heap allows all is answered that does not recur. -/
theorem exists_answer_depth_iff (h : Heap) (q : Question) :
    (∃ a, h.answer h.depth q = some a) ↔ ¬h.Recurs q := by
  rw [exists_answer_iff]
  constructor
  · exact Descent.Within.not_recurs
  · intro onward
    refine (Descent.within_of_not_recurs h.sited_asks onward).mono ?_
    rw [card_sites]
    exact Nat.le_succ _

/-- What is found at any depth is found at that one. -/
theorem Answers.at_depth {a : q.Answer} (found : h.Answers q a) : h.answer h.depth q = some a := by
  have ⟨depth, here⟩ := found
  have within := (h.exists_answer_iff depth q).1 ⟨a, here⟩
  obtain ⟨a', found'⟩ := (h.exists_answer_depth_iff q).2 within.not_recurs
  rw [found', found.unique ⟨h.depth, found'⟩]

/-- At the depth that a heap allows, what is found rests on the answers found at that same depth. -/
theorem answer_depth (h : Heap) (q : Question) :
    h.answer h.depth q = (h.inquiry q).find (h.answer h.depth) := by
  rw [← answer_succ]
  refine Option.ext fun a => ⟨fun found => answer_add found 1, fun found => ?_⟩
  exact Answers.at_depth ⟨h.depth + 1, found⟩

theorem equals_list (h : Heap) (r s : Ref .list) : h.equals (.list r) (.list s) =
    if r = s then some true
    else if (h.list r).size ≠ (h.list s).size then some false
    else equalAll h.equals (h.list r).toList (h.list s).toList := by
  refine (h.answer_depth (.equal (.list r) (.list s))).trans ?_
  rw [inquiry, equalInquiry]
  split
  · rfl
  split
  · rfl
  · exact Inquiry.find_sameItems ..

theorem equals_tuple (h : Heap) (r s : Ref .tuple) : h.equals (.tuple r) (.tuple s) =
    if (h.tuple r).size ≠ (h.tuple s).size then some false
    else equalAll h.equals (h.tuple r).toList (h.tuple s).toList := by
  refine (h.answer_depth (.equal (.tuple r) (.tuple s))).trans ?_
  rw [inquiry, equalInquiry]
  split
  · rfl
  · exact Inquiry.find_sameItems ..

theorem equals_dict (h : Heap) (r s : Ref .dict) : h.equals (.dict r) (.dict s) =
    if (h.dict r).size ≠ (h.dict s).size then some false
    else holdsForAll (fun e => findEqual (fun e' => do
      if ← h.equals e.1 e'.1 then h.equals e.2 e'.2 else return false) (h.dict s).toList)
        (h.dict r).toList := by
  refine (h.answer_depth (.equal (.dict r) (.dict s))).trans ?_
  rw [inquiry, equalInquiry]
  split
  · rfl
  · exact Inquiry.find_sameEntries ..

theorem orders_list (h : Heap) (r s : Ref .list) : h.orders (.list r) (.list s) =
    orderItems h.equals h.orders (h.list r).toList (h.list s).toList := by
  refine Ordered.found?_injective ((h.answer_depth (.order (.list r) (.list s))).trans ?_)
  exact find_orderItems ..

theorem orders_tuple (h : Heap) (r s : Ref .tuple) : h.orders (.tuple r) (.tuple s) =
    orderItems h.equals h.orders (h.tuple r).toList (h.tuple s).toList := by
  refine Ordered.found?_injective ((h.answer_depth (.order (.tuple r) (.tuple s))).trans ?_)
  exact find_orderItems ..

theorem answers_equal_iff {answer : Bool} :
    h.Answers (.equal v w) answer ↔ h.equals v w = some answer :=
  ⟨Answers.at_depth, fun found => ⟨h.depth, found⟩⟩

theorem exists_equals_iff : (∃ answer, h.equals v w = some answer) ↔ ¬h.Recurs (.equal v w) :=
  h.exists_answer_depth_iff (.equal v w)

theorem orders_eq_tooDeep_iff : h.orders v w = .tooDeep ↔ h.Recurs (.order v w) := by
  rw [← not_iff_not, ← h.exists_answer_depth_iff (.order v w)]
  change _ ↔ ∃ o, (h.orders v w).found? = some o
  cases h.orders v w <;> simp [Ordered.found?]

/-- What recurs is about two values with cycles in them. -/
theorem Recurs.cyclic (recurs : h.Recurs q) : ¬h.Acyclic q.left ∧ ¬h.Acyclic q.right :=
  ⟨fun acyclic => acyclic.not_recurs (recurs.map fun _ _ asks => asks.inside.1),
    fun acyclic => acyclic.not_recurs (recurs.map fun _ _ asks => asks.inside.2)⟩

theorem Acyclic.equals_answers (acyclic : h.Acyclic a) (b : Value) :
    ∃ answer, h.equals a b = some answer :=
  exists_equals_iff.2 fun recurs => recurs.cyclic.1 acyclic

theorem Acyclic.orders_ne_tooDeep (acyclic : h.Acyclic a) (b : Value) : h.orders a b ≠ .tooDeep :=
  fun tooDeep => (orders_eq_tooDeep_iff.1 tooDeep).cyclic.1 acyclic

end Heap

end Console
