import Mathlib.Data.List.Forall2
import Console.Printing
import Console.Proofs.Decimal

/-!
# Plain data

A datum is a finite tree of nothing, truth values, whole numbers and texts under lists, tuples and
dicts. A value of the heap holds a datum if following its references spells out the tree; a value
with a container inside itself holds none.
-/

namespace Console

inductive Datum
  | none
  | bool (b : Bool)
  | int (n : Int64)
  | str (s : String)
  | list (items : List Datum)
  | tuple (items : List Datum)
  | dict (entries : List (Datum × Datum))

namespace Datum

/-- Whatever passes from the parts of a container to the container holds of all data. -/
@[induction_eliminator]
theorem induct {P : Datum → Prop} (none : P .none) (bool : ∀ b, P (.bool b))
    (int : ∀ n, P (.int n)) (str : ∀ s, P (.str s))
    (list : ∀ items, (∀ d ∈ items, P d) → P (.list items))
    (tuple : ∀ items, (∀ d ∈ items, P d) → P (.tuple items))
    (dict : ∀ entries, (∀ e ∈ entries, P e.1 ∧ P e.2) → P (.dict entries)) (d : Datum) : P d := by
  refine @Datum.rec P (fun items => ∀ d ∈ items, P d) (fun entries => ∀ e ∈ entries, P e.1 ∧ P e.2)
    (fun e => P e.1 ∧ P e.2) none bool int str list tuple dict ?_ ?_ ?_ ?_ ?_ d
  · exact List.forall_mem_nil _
  · exact fun d items first others => List.forall_mem_cons.2 ⟨first, others⟩
  · exact List.forall_mem_nil _
  · exact fun e entries first others => List.forall_mem_cons.2 ⟨first, others⟩
  · exact fun key value first second => ⟨first, second⟩

mutual

/-- How a datum is written. -/
def text : Datum → String
  | .none => "None"
  | .bool b => if b then "True" else "False"
  | .int n => toString n.toInt
  | .str s => Eval.quoted s
  | .list items => "[" ++ ", ".intercalate (texts items) ++ "]"
  | .tuple items => Eval.parenthesised (texts items)
  | .dict entries => "\x7b" ++ ", ".intercalate (entryTexts entries) ++ "\x7d"

def texts : List Datum → List String
  | [] => []
  | d :: items => d.text :: texts items

def entryTexts : List (Datum × Datum) → List String
  | [] => []
  | (key, value) :: entries => (key.text ++ ": " ++ value.text) :: entryTexts entries

end

mutual

/-- The expression that stands for a datum; a number below zero is the negative of its magnitude. -/
def expr : Datum → Expr
  | .none => .none
  | .bool b => .bool b
  | .int n => if n.toInt < 0 then .unary .neg (.int (Decimal.magnitude n)) else .int n
  | .str s => .str s
  | .list items => .list (exprs items)
  | .tuple items => .tuple (exprs items)
  | .dict entries => .dict (entryExprs entries)

def exprs : List Datum → List Expr
  | [] => []
  | d :: items => d.expr :: exprs items

def entryExprs : List (Datum × Datum) → List (Expr × Expr)
  | [] => []
  | (key, value) :: entries => (key.expr, value.expr) :: entryExprs entries

end

@[simp] theorem texts_eq (items : List Datum) : texts items = items.map text := by
  induction items with
  | nil => rfl
  | cons d items ih => rw [texts, ih, List.map_cons]

@[simp] theorem entryTexts_eq (entries : List (Datum × Datum)) :
    entryTexts entries = entries.map fun e => e.1.text ++ ": " ++ e.2.text := by
  induction entries with
  | nil => rfl
  | cons e entries ih => rw [entryTexts, ih, List.map_cons]

@[simp] theorem exprs_eq (items : List Datum) : exprs items = items.map expr := by
  induction items with
  | nil => rfl
  | cons d items ih => rw [exprs, ih, List.map_cons]

@[simp] theorem entryExprs_eq (entries : List (Datum × Datum)) :
    entryExprs entries = entries.map fun e => (e.1.expr, e.2.expr) := by
  induction entries with
  | nil => rfl
  | cons e entries ih => rw [entryExprs, ih, List.map_cons]

mutual

/-- How many containers stand in one another. -/
def layers : Datum → Nat
  | .list items | .tuple items => itemLayers items + 1
  | .dict entries => entryLayers entries + 1
  | _ => 0

def itemLayers : List Datum → Nat
  | [] => 0
  | d :: items => max d.layers (itemLayers items)

def entryLayers : List (Datum × Datum) → Nat
  | [] => 0
  | (key, value) :: entries => max (max key.layers value.layers) (entryLayers entries)

end

variable {d d' : Datum} {items : List Datum} {entries : List (Datum × Datum)}

theorem layers_le_itemLayers (mem : d ∈ items) : d.layers ≤ itemLayers items := by
  induction items with
  | nil => cases mem
  | cons d' items ih =>
    rw [itemLayers]
    rcases List.mem_cons.1 mem with rfl | mem
    · exact Nat.le_max_left _ _
    · exact Nat.le_trans (ih mem) (Nat.le_max_right _ _)

theorem layers_le_entryLayers {e : Datum × Datum} (mem : e ∈ entries) :
    e.1.layers ≤ entryLayers entries ∧ e.2.layers ≤ entryLayers entries := by
  induction entries with
  | nil => cases mem
  | cons e' entries ih =>
    rw [entryLayers]
    rcases List.mem_cons.1 mem with rfl | mem
    · omega
    · have := ih mem
      omega

mutual

/-- Lists and dicts can not be keys, alone or in tuples. -/
def hashable : Datum → Bool
  | .list _ | .dict _ => false
  | .tuple items => allHashable items
  | _ => true

def allHashable : List Datum → Bool
  | [] => true
  | d :: items => d.hashable && allHashable items

end

mutual

/-- What a datum counts as when it is a key: a truth value counts as a number. -/
def asKey : Datum → Datum
  | .bool b => .int (if b then 1 else 0)
  | .tuple items => .tuple (allAsKeys items)
  | d => d

def allAsKeys : List Datum → List Datum
  | [] => []
  | d :: items => d.asKey :: allAsKeys items

end

@[simp] theorem allHashable_eq (items : List Datum) : allHashable items = items.all hashable := by
  induction items with
  | nil => rfl
  | cons d items ih => rw [allHashable, ih, List.all_cons]

@[simp] theorem allAsKeys_eq (items : List Datum) : allAsKeys items = items.map asKey := by
  induction items with
  | nil => rfl
  | cons d items ih => rw [allAsKeys, ih, List.map_cons]

mutual

/-- The least number, which has no magnitude, does not occur; the keys of a dict can be keys, and no
two of them count as the same. -/
def WellFormed : Datum → Prop
  | .int n => n ≠ Int64.minValue
  | .list items | .tuple items => AllWellFormed items
  | .dict entries => EntriesWellFormed entries ∧ (entries.map fun e => e.1.asKey).Nodup
  | _ => True

def AllWellFormed : List Datum → Prop
  | [] => True
  | d :: items => d.WellFormed ∧ AllWellFormed items

def EntriesWellFormed : List (Datum × Datum) → Prop
  | [] => True
  | (key, value) :: entries =>
    key.hashable = true ∧ key.WellFormed ∧ value.WellFormed ∧ EntriesWellFormed entries

end

@[simp] theorem allWellFormed_iff (items : List Datum) :
    AllWellFormed items ↔ ∀ d ∈ items, d.WellFormed := by
  induction items with
  | nil => simp [AllWellFormed]
  | cons d items ih => rw [AllWellFormed, ih, List.forall_mem_cons]

@[simp] theorem entriesWellFormed_iff (entries : List (Datum × Datum)) :
    EntriesWellFormed entries ↔
      ∀ e ∈ entries, e.1.hashable = true ∧ e.1.WellFormed ∧ e.2.WellFormed := by
  induction entries with
  | nil => simp [EntriesWellFormed]
  | cons e entries ih => rw [EntriesWellFormed, ih, List.forall_mem_cons, and_assoc, and_assoc]

theorem forall₂_of_mem {α β : Type} {R R' : α → β → Prop} {as : List α} {bs : List β}
    (all : List.Forall₂ R as bs) (each : ∀ a ∈ as, ∀ b, R a b → R' a b) : List.Forall₂ R' as bs :=
  ((List.forall₂_and_left _ _).2 ⟨each, all⟩).imp fun _ b part => part.1 b part.2

theorem forall_of_forall₂ {α β : Type} {R : α → β → Prop} {P : β → Prop} {as : List α}
    {bs : List β} (all : List.Forall₂ R as bs) (each : ∀ a ∈ as, ∀ b, R a b → P b) :
    ∀ b ∈ bs, P b := by
  induction all with
  | nil => exact List.forall_mem_nil _
  | cons first _ others =>
    refine List.forall_mem_cons.2 ⟨each _ (by simp) _ first, others fun a mem => each a ?_⟩
    exact List.mem_cons_of_mem _ mem

/-- The value, with the objects that it refers to, spells out the datum. -/
inductive HeldBy (h : Heap) : Datum → Value → Prop
  | none : HeldBy h .none .none
  | bool (b : Bool) : HeldBy h (.bool b) (.bool b)
  | int (n : Int64) : HeldBy h (.int n) (.int n)
  | str (s : String) : HeldBy h (.str s) (.str s)
  | list {items : List Datum} {r : Ref .list} {vs : Array Value}
      (found : h.lists[r.index]? = some vs) (each : List.Forall₂ (HeldBy h) items vs.toList) :
      HeldBy h (.list items) (.list r)
  | tuple {items : List Datum} {r : Ref .tuple} {vs : Array Value}
      (found : h.tuples[r.index]? = some vs) (each : List.Forall₂ (HeldBy h) items vs.toList) :
      HeldBy h (.tuple items) (.tuple r)
  | dict {entries : List (Datum × Datum)} {r : Ref .dict} {es : Array (Value × Value)}
      (found : h.dicts[r.index]? = some es)
      (keys : List.Forall₂ (HeldBy h) (entries.map Prod.fst) (es.toList.map Prod.fst))
      (values : List.Forall₂ (HeldBy h) (entries.map Prod.snd) (es.toList.map Prod.snd)) :
      HeldBy h (.dict entries) (.dict r)

/-- Keys with keys and values with values. -/
def EntryHeldBy (h : Heap) (e : Datum × Datum) (p : Value × Value) : Prop :=
  HeldBy h e.1 p.1 ∧ HeldBy h e.2 p.2

section

variable {h : Heap} {v : Value}

theorem entriesHeldBy_iff {es : List (Value × Value)} :
    List.Forall₂ (EntryHeldBy h) entries es ↔
      List.Forall₂ (HeldBy h) (entries.map Prod.fst) (es.map Prod.fst) ∧
        List.Forall₂ (HeldBy h) (entries.map Prod.snd) (es.map Prod.snd) := by
  simp only [List.forall₂_map_left_iff, List.forall₂_map_right_iff]
  induction entries generalizing es with
  | nil => cases es <;> simp
  | cons e entries ih =>
    cases es with
    | nil => simp
    | cons p es =>
      simp only [List.forall₂_cons, ih, EntryHeldBy]
      tauto

theorem heldBy_list : HeldBy h (.list items) v ↔ ∃ r vs, v = .list r ∧
    h.lists[r.index]? = some vs ∧ List.Forall₂ (HeldBy h) items vs.toList := by
  constructor
  · rintro (_ | _ | _ | _ | ⟨found, each⟩)
    exact ⟨_, _, rfl, found, each⟩
  · rintro ⟨r, vs, rfl, found, each⟩
    exact .list found each

theorem heldBy_tuple : HeldBy h (.tuple items) v ↔ ∃ r vs, v = .tuple r ∧
    h.tuples[r.index]? = some vs ∧ List.Forall₂ (HeldBy h) items vs.toList := by
  constructor
  · rintro (_ | _ | _ | _ | _ | ⟨found, each⟩)
    exact ⟨_, _, rfl, found, each⟩
  · rintro ⟨r, vs, rfl, found, each⟩
    exact .tuple found each

theorem heldBy_dict : HeldBy h (.dict entries) v ↔ ∃ r es, v = .dict r ∧
    h.dicts[r.index]? = some es ∧ List.Forall₂ (EntryHeldBy h) entries es.toList := by
  simp only [entriesHeldBy_iff]
  constructor
  · rintro (_ | _ | _ | _ | _ | _ | ⟨found, keys, values⟩)
    exact ⟨_, _, rfl, found, keys, values⟩
  · rintro ⟨r, es, rfl, found, keys, values⟩
    exact .dict found keys values

end

/-! ## Data as keys

Of values that hold data which can be keys, two are equal where their data count as the same key; no
more depth is needed than either datum has layers.
-/

section

variable {h : Heap} {d d' : Datum} {v v' : Value} {items items' : List Datum}

/-- A test that answers whether two things are the same. -/
def Answers (answer : Option Bool) (same : Prop) : Prop := ∃ b, answer = some b ∧ (b = true ↔ same)

/-- A datum that can be a key is one as a value, however far one looks. -/
theorem unhashableIn_eq (held : HeldBy h d v) (key : d.hashable = true) (steps : Nat) :
    h.unhashableIn? steps v = Option.none := by
  induction d generalizing v steps with
  | none | bool | int | str => cases held; cases steps <;> rfl
  | list | dict => cases key
  | tuple items ih =>
    obtain ⟨r, vs, rfl, found, each⟩ := heldBy_tuple.1 held
    cases steps with
    | zero => rfl
    | succ steps =>
      rw [hashable, allHashable_eq, List.all_eq_true] at key
      rw [Heap.unhashableIn?, Heap.tuple, found]
      exact List.findSome?_eq_none_iff.2
        (forall_of_forall₂ each fun d mem v held => ih d mem held (key d mem) steps)

/-- Sequences are equal where they have the same keys. -/
theorem equalAll_answers {test : Value → Value → Option Bool} {vs vs' : List Value}
    (length : vs.length = vs'.length) (each : List.Forall₂ (HeldBy h) items vs)
    (each' : List.Forall₂ (HeldBy h) items' vs')
    (answers : ∀ d ∈ items, ∀ d' ∈ items', ∀ v v', HeldBy h d v → HeldBy h d' v' →
      Answers (test v v') (d.asKey = d'.asKey)) :
    Answers (equalAll test vs vs') (items.map asKey = items'.map asKey) := by
  induction each generalizing items' vs' with
  | nil =>
    cases each' with
    | nil => exact ⟨true, rfl, by simp⟩
    | cons => cases length
  | cons first _ ih =>
    cases each' with
    | nil => cases length
    | cons first' others' =>
      obtain ⟨same, answer, meaning⟩ := answers _ (by simp) _ (by simp) _ _ first first'
      obtain ⟨rest, answer', meaning'⟩ := ih (Nat.succ.inj length) others' fun d mem d' mem' =>
        answers d (List.mem_cons_of_mem _ mem) d' (List.mem_cons_of_mem _ mem')
      refine ⟨same && rest, ?_, ?_⟩
      · rw [equalAll, answer]
        cases same
        · rfl
        · exact answer'
      · simp [meaning, meaning']

/-- Equality of values is that of their data as keys. -/
theorem equal_answers {depth : Nat} (held : HeldBy h d v) (held' : HeldBy h d' v')
    (key : d.hashable = true) (key' : d'.hashable = true) (deep : d'.layers ≤ depth) :
    Answers (h.equal (depth + 1) v v') (d.asKey = d'.asKey) := by
  induction d generalizing v d' v' depth with
  | list | dict => cases key
  | none | bool | int | str =>
    cases held
    cases d' with
    | list | dict => cases key'
    | none | bool | int | str | tuple =>
      cases held'
      refine ⟨_, rfl, ?_⟩
      -- A truth value and a number, or two truth values, are compared as numbers.
      simp [Value.plainEqual, Value.identical, asKey] <;> grind
  | tuple items ih =>
    obtain ⟨r, vs, rfl, found, each⟩ := heldBy_tuple.1 held
    cases d' with
    | list | dict => cases key'
    | none | bool | int | str =>
      cases held'
      exact ⟨false, rfl, by simp [asKey]⟩
    | tuple items' =>
      obtain ⟨r', vs', rfl, found', each'⟩ := heldBy_tuple.1 held'
      rw [hashable, allHashable_eq, List.all_eq_true] at key key'
      rw [layers] at deep
      obtain ⟨depth, rfl⟩ : ∃ n, depth = n + 1 := ⟨depth - 1, by omega⟩
      rw [Heap.equal, Heap.tuple, Heap.tuple, found, found']
      simp only [Option.getD_some, asKey, allAsKeys_eq, tuple.injEq]
      by_cases length : vs.size = vs'.size
      · rw [if_neg (not_not.2 length)]
        refine equalAll_answers (by simpa using length) each each'
          fun d mem d' mem' v v' held held' => ih d mem held held' (key d mem) (key' d' mem') ?_
        exact Nat.le_trans (layers_le_itemLayers mem') (Nat.le_of_succ_le_succ deep)
      · rw [if_pos length]
        refine ⟨false, rfl, nofun, fun same => absurd ?_ length⟩
        have lengths : items.length = items'.length := by simpa using congrArg List.length same
        rwa [each.length_eq, each'.length_eq] at lengths

end

end Datum

end Console
