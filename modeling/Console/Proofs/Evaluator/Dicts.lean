import Console.Proofs.Evaluator.SafeEvaluator

/-!
# Dicts are maps

In all machines that come up the keys of a dict can be keys, and no two of them are equal. Where no
floats are about, storing an item changes what is found under equal keys only, and removing one takes
out one entry only; neither changes the order of the others.
-/

namespace Console

namespace Machine

/-- The keys of a dict, in order. -/
def keys (m : Machine) (r : Ref .dict) : List Value := (m.heap.dict r).toList.map Prod.fst

/-- A value of the heap that passes as a key and has no float in it. -/
structure PlainKey (m : Machine) (key : Value) : Prop where
  held : m.heap.Holds key
  hashable : Eval.checkHashable key m = .ok () m
  free : m.heap.FloatFree key

/-- What is found under other keys is what was found before. -/
def KeepsOthers (m m' : Machine) (r : Ref .dict) (key : Value) : Prop :=
  ∀ other, m.PlainKey other → Eval.compare .eq key other m = .ok false m →
    ∃ found, Eval.lookup? r other m = .ok found m ∧ Eval.lookup? r other m' = .ok found m'

/-- An item has been stored in a dict: the key is in its old place, or the last one. -/
structure Stores (m m' : Machine) (r : Ref .dict) (key v : Value) : Prop where
  found : Eval.compare .eq key key m = .ok true m → Eval.lookup? r key m' = .ok (some v) m'
  others : m.KeepsOthers m' r key
  order : (∃ old, Eval.lookup? r key m = .ok (some old) m ∧ m'.keys r = m.keys r) ∨
    (Eval.lookup? r key m = .ok none m ∧ m'.keys r = m.keys r ++ [key])

/-- A key is not in a dict any more: of the entries those with other keys are left. -/
structure Removes (m m' : Machine) (r : Ref .dict) (key : Value) : Prop where
  absent : Eval.lookup? r key m' = .ok none m'
  others : m.KeepsOthers m' r key
  entries : (m'.heap.dict r).toList =
    (m.heap.dict r).toList.filter fun e => m.heap.equals e.1 key = some false

end Machine

namespace Eval

variable {m : Machine} {r : Ref .dict} {key v : Value}

/-! ## Looking up -/

theorem run_equals_iff {a b : Value} {answer : Bool} :
    Eval.compare .eq a b m = .ok answer m ↔ m.heap.equals a b = some answer := by
  change Eval.ofDepth (m.heap.equals a b) m = .ok answer m ↔ _
  constructor
  · intro run
    cases same : m.heap.equals a b with
    | none =>
      rw [same] at run
      cases run
    | some found =>
      rw [same] at run
      cases run
      rfl
  · intro same
    rw [same]
    rfl

/-- What passes as a key is one. -/
theorem isKey_of_run (layered : m.heap.Layered) (held : m.heap.Holds key)
    (run : Eval.checkHashable key m = .ok () m) : m.heap.IsKey key := by
  refine ⟨held, (Heap.unhashable?_eq_none_iff layered held).1 ?_⟩
  rw [checkHashable, run_ask] at run
  cases found : m.heap.unhashable? key with
  | none => rfl
  | some type =>
    rw [found] at run
    cases run

section

variable (isKey : m.heap.IsKey key)
include isKey

theorem run_checkHashable_of_isKey : Eval.checkHashable key m = .ok () m := by
  rw [checkHashable, run_ask, Heap.unhashable?, isKey.hashable.unhashableIn?_eq]
  rfl

theorem run_lookup?_of_answer {found : Option Value}
    (answer : m.heap.lookupEntry key (m.heap.dict r).toList = some found) :
    Eval.lookup? r key m = .ok found m := by
  rw [lookup?, run_bind (run_checkHashable_of_isKey isKey), run_ask, answer]
  rfl

theorem run_placeOfKey?_of_answer {found : Option Nat}
    (answer : Heap.indexOf (m.heap.equals ·.1 key) (m.heap.dict r).toList = some found) :
    Eval.placeOfKey? r key m = .ok found m := by
  rw [placeOfKey?, run_bind (run_checkHashable_of_isKey isKey), run_ask, answer]
  rfl

end

end Eval

namespace Machine

open Eval

variable {m : Machine} {r : Ref .dict} {key v : Value}
  {change : Array (Value × Value) → Array (Value × Value)}

theorem PlainKey.inHeap (plain : m.PlainKey key) (layered : m.heap.Layered) : m.heap.PlainKey key :=
  ⟨isKey_of_run layered plain.held plain.hashable, plain.free⟩

/-! ## Changing a dict -/

/-- The machine with the entries of a dict changed. -/
def changed (m : Machine) (r : Ref .dict) (change : Array (Value × Value) → Array (Value × Value)) :
    Machine :=
  { m with heap := m.heap.change r change }

theorem changed_dict (held : m.heap.Holds r) : (m.changed r change).heap.dict r =
    change (m.heap.dict r) := by
  have inside : m.heap.dicts[r.index]? = some m.heap.dicts[r.index] := Array.getElem?_eq_getElem held
  change (m.heap.dicts.modify r.index change)[r.index]?.getD #[] =
    change (m.heap.dicts[r.index]?.getD #[])
  rw [Array.getElem?_modify, if_pos rfl, inside]
  rfl

section

variable (layered : m.heap.Layered) (held : m.heap.Holds r)
  (keys : ∀ e ∈ (change (m.heap.dict r)).toList, m.heap.IsKey e.1)
include layered held keys

/-- What is found when the entries have changed. -/
theorem run_lookup?_changed (isKey : m.heap.IsKey key) {found : Option Value}
    (answer : m.heap.lookupEntry key (change (m.heap.dict r)).toList = some found) :
    Eval.lookup? r key (m.changed r change) = .ok found (m.changed r change) := by
  have mutable : Kind.dict ≠ .tuple := nofun
  have ages : m.heap.Ages (m.changed r change).heap := Heap.ages_change mutable r change
  refine run_lookup?_of_answer (isKey.aged layered ages) ?_
  rw [changed_dict held, Heap.lookupEntry_aged layered ages keys isKey, answer]

theorem KeepsOthers.changed (old : ∀ e ∈ (m.heap.dict r).toList, m.heap.IsKey e.1)
    (same : ∀ other, m.heap.PlainKey other → m.heap.equals key other = some false →
      m.heap.lookupEntry other (change (m.heap.dict r)).toList =
        m.heap.lookupEntry other (m.heap.dict r).toList) :
    m.KeepsOthers (m.changed r change) r key := by
  intro other plain differs
  have isKey := plain.inHeap layered
  obtain ⟨found, answer⟩ := Heap.lookupEntry_answers layered old isKey.toIsKey
  refine ⟨found, run_lookup?_of_answer isKey.toIsKey answer, ?_⟩
  refine run_lookup?_changed layered held keys isKey.toIsKey ?_
  rw [same other isKey (run_equals_iff.1 differs), answer]

end

end Machine

namespace Eval

variable {m : Machine} {r : Ref .dict} {caller : Caller} {key v : Value}

/-! ## Running the operations -/

theorem run_setItem (hashable : Eval.checkHashable key m = .ok () m)
    {more : Array (Value × Value)} (put : m.heap.insertEntry (m.heap.dict r) key v = some more) :
    Eval.setItem (.dict r) key v m = .ok () (m.changed r fun _ => more) := by
  have inserted : Eval.insertInto (m.heap.dict r) key v m = .ok more m := by
    rw [insertInto, run_ask, put]
    rfl
  dsimp only [Eval.setItem]
  rw [run_bind hashable, run_ask, run_bind inserted]
  rfl

theorem keyMissing_ne_ok {α : Type} {a : α} {m' : Machine} :
    Eval.keyMissing caller key m ≠ .ok a m' := by
  intro run
  unfold Eval.keyMissing at run
  cases shown : Eval.attempt (Eval.repr caller key) m with
  | error stop m₁ =>
    simp only [bind, EStateM.bind, shown] at run
    cases run
  | ok text m₁ =>
    rw [run_bind shown] at run
    cases text <;> cases run

theorem run_popArguments (key : Value) (default : Option Value) (m : Machine) :
    Eval.ofFault (Arguments.oneOrTwo ⟨key :: default.toList, []⟩ "pop") m = .ok (key, default) m := by
  cases default <;> rfl

section

variable (isKey : m.heap.IsKey key)
include isKey

section

variable (lacks : m.heap.Lacks (m.heap.dict r).toList key)
include lacks

theorem run_deleteItem_of_lacks (caller : Caller) :
    Eval.deleteItem caller (.dict r) key m = Eval.keyMissing caller key m := by
  dsimp only [Eval.deleteItem]
  rw [run_bind (run_placeOfKey?_of_answer isKey (Heap.indexOf_none lacks))]

theorem run_pop_of_lacks (caller : Caller) (default : Option Value) :
    DictMethod.call caller r .pop ⟨key :: default.toList, []⟩ m =
      default.elim (Eval.keyMissing caller key) Pure.pure m := by
  dsimp only [DictMethod.call, DictMethod.callPop]
  rw [run_bind (run_popArguments key default m),
    run_bind (run_placeOfKey?_of_answer isKey (Heap.indexOf_none lacks))]
  cases default <;> rfl

end

section

variable {before after : List (Value × Value)} {k w : Value}
  (split : (m.heap.dict r).toList = before ++ (k, w) :: after) (place : m.heap.HasAt before k key)
include split place

theorem run_lookup?_of_hasAt : Eval.lookup? r key m = .ok (some w) m := by
  refine run_lookup?_of_answer isKey ?_
  rw [split, Heap.lookupEntry_some place.other place.same]

theorem run_placeOfKey?_of_hasAt : Eval.placeOfKey? r key m = .ok (some before.length) m := by
  refine run_placeOfKey?_of_answer isKey ?_
  rw [split, Heap.indexOf_some place.other place.same]

theorem run_deleteItem_of_hasAt (caller : Caller) : Eval.deleteItem caller (.dict r) key m =
    .ok () (m.changed r (·.eraseIdxIfInBounds before.length)) := by
  dsimp only [Eval.deleteItem]
  rw [run_bind (run_placeOfKey?_of_hasAt isKey split place)]
  rfl

theorem run_pop_of_hasAt (caller : Caller) (default : Option Value) :
    DictMethod.call caller r .pop ⟨key :: default.toList, []⟩ m =
      .ok w (m.changed r (·.eraseIdxIfInBounds before.length)) := by
  have there : (m.heap.dict r)[before.length]? = some (k, w) := by
    rw [← Array.getElem?_toList, split]
    simp
  dsimp only [DictMethod.call, DictMethod.callPop]
  rw [run_bind (run_popArguments key default m), run_bind (run_placeOfKey?_of_hasAt isKey split place)]
  dsimp only
  rw [run_ask, there]
  rfl

end

end

end Eval

namespace Machine

open Eval

variable {m : Machine} {r : Ref .dict} {key v : Value}

/-! ## Storing an item -/

theorem plainKey_of_mem (sound : m.heap.Sound) (free : ∀ k ∈ m.keys r, m.heap.FloatFree k)
    {e : Value × Value} (mem : e ∈ (m.heap.dict r).toList) : m.heap.PlainKey e.1 :=
  ⟨(sound.isMap r).key mem, free e.1 (List.mem_map_of_mem mem)⟩

section

variable (sound : m.heap.Sound) (plain : m.PlainKey key)
include sound plain

/-- A key without an equal one in the dict. -/
theorem Removes.nothing (lacks : m.heap.Lacks (m.heap.dict r).toList key) : m.Removes m r key := by
  have layered := sound.layered
  have isKey := (plain.inHeap layered).toIsKey
  refine ⟨run_lookup?_of_answer isKey (Heap.lookupEntry_none lacks), fun other plain' _ => ?_, ?_⟩
  · have isKey' := (plain'.inHeap layered).toIsKey
    obtain ⟨found, answer⟩ := Heap.lookupEntry_answers layered (fun e => (sound.isMap r).key) isKey'
    have run := run_lookup?_of_answer isKey' answer
    exact ⟨found, run, run⟩
  · exact (List.filter_eq_self.2 fun e mem => decide_eq_true (lacks e mem)).symm

variable (held : m.heap.Holds r)
include held

/-- The entry of a new key comes last. -/
theorem Stores.last (lacks : m.heap.Lacks (m.heap.dict r).toList key) :
    m.Stores (m.changed r fun _ => (m.heap.dict r).push (key, v)) r key v := by
  have layered := sound.layered
  have isKey := (plain.inHeap layered).toIsKey
  have old (e : Value × Value) (mem : e ∈ (m.heap.dict r).toList) := (sound.isMap r).key mem
  have entries : ((m.heap.dict r).push (key, v)).toList = (m.heap.dict r).toList ++ [(key, v)] :=
    Array.toList_push
  have keys : ∀ e ∈ ((m.heap.dict r).push (key, v)).toList, m.heap.IsKey e.1 := by
    rw [entries]
    exact List.forall_mem_append.2 ⟨old, List.forall_mem_singleton.2 isKey⟩
  refine ⟨fun same => ?_, .changed layered held keys old fun other _ differs => ?_, .inr ⟨?_, ?_⟩⟩
  · refine run_lookup?_changed layered held keys isKey ?_
    rw [entries, Heap.lookupEntry_some lacks (run_equals_iff.1 same)]
  · rw [entries, Heap.lookupEntry_drop differs, List.append_nil]
  · exact (Removes.nothing sound plain lacks).absent
  · rw [Machine.keys, changed_dict held, entries, List.map_append]
    rfl

variable (free : ∀ k ∈ m.keys r, m.heap.FloatFree k) {before after : List (Value × Value)}
  {k w : Value} (split : (m.heap.dict r).toList = before ++ (k, w) :: after)
  (place : m.heap.HasAt before k key)
include free split place

omit held in
/-- Keys that differ from the given one differ from the equal key in the dict. -/
theorem differs_from_old {other : Value} (other' : m.heap.PlainKey other)
    (differs : m.heap.equals key other = some false) : m.heap.equals k other = some false := by
  have found : m.heap.PlainKey k := plainKey_of_mem sound free (e := (k, w)) (by simp [split])
  exact found.equals_of_ne (plain.inHeap sound.layered) other' sound.layered place.same differs

/-- The entry of an equal key gets the value and stays in its place. -/
theorem Stores.inPlace :
    m.Stores (m.changed r fun _ => (before ++ (k, v) :: after).toArray) r key v := by
  have layered := sound.layered
  have isKey := (plain.inHeap layered).toIsKey
  have old (e : Value × Value) (mem : e ∈ (m.heap.dict r).toList) := (sound.isMap r).key mem
  have keys : ∀ e ∈ before ++ (k, v) :: after, m.heap.IsKey e.1 := by
    rw [split, List.forall_mem_append, List.forall_mem_cons] at old
    exact List.forall_mem_append.2 ⟨old.1, List.forall_mem_cons.2 old.2⟩
  refine ⟨fun _ => ?_, .changed layered held keys old fun other other' differs => ?_, .inl ⟨w, ?_, ?_⟩⟩
  · exact run_lookup?_changed layered held keys isKey (Heap.lookupEntry_some place.other place.same v after)
  · have unlike := differs_from_old sound plain free split place other' differs
    rw [split, Heap.lookupEntry_drop unlike, Heap.lookupEntry_drop unlike]
  · exact run_lookup?_of_hasAt isKey split place
  · rw [Machine.keys, changed_dict held, Machine.keys, split, List.map_append, List.map_append]
    rfl

/-- The entry of an equal key is taken out. -/
theorem Removes.entry : m.Removes (m.changed r (·.eraseIdxIfInBounds before.length)) r key := by
  have layered := sound.layered
  have key' := plain.inHeap layered
  have map := sound.isMap r
  have left : ((m.heap.dict r).eraseIdxIfInBounds before.length).toList = before ++ after := by
    rw [Array.toList_eraseIdxIfInBounds, split, List.eraseIdx_append_of_length_le (Nat.le_refl _),
      Nat.sub_self]
    rfl
  have keys : ∀ e ∈ ((m.heap.dict r).eraseIdxIfInBounds before.length).toList, m.heap.IsKey e.1 := by
    intro e mem
    rw [Array.toList_eraseIdxIfInBounds] at mem
    exact map.key (List.mem_of_mem_eraseIdx mem)
  have rest : m.heap.Lacks (before ++ after) key := by
    have plainKeys (e : Value × Value) (mem : e ∈ (m.heap.dict r).toList) :=
      plainKey_of_mem sound free mem
    rw [split] at map plainKeys
    exact List.forall_mem_append.2 ⟨place.other, map.lacks_after layered plainKeys key' place.same⟩
  refine ⟨?_, .changed layered held keys (fun e => map.key) fun other other' differs => ?_, ?_⟩
  · refine run_lookup?_changed layered held keys key'.toIsKey ?_
    rw [left, Heap.lookupEntry_none rest]
  · have unlike := differs_from_old sound plain free split place other' differs
    rw [left, split, Heap.lookupEntry_drop unlike]
  · rw [changed_dict held, left, split, List.filter_append, List.filter_cons_of_neg (by simp [place.same]),
      ← List.filter_append]
    exact (List.filter_eq_self.2 fun e mem => decide_eq_true (rest e mem)).symm

end

end Machine

namespace Eval

variable {m : Machine} {r : Ref .dict} {caller : Caller} {key : Value}

/-! ## What becomes of a dict -/

section

variable (sound : m.heap.Sound) (held : m.heap.Holds r) (free : ∀ k ∈ m.keys r, m.heap.FloatFree k)
  (plain : m.PlainKey key)
include sound held free plain

theorem setItem_stores (v : Value) :
    ∃ m', Eval.setItem (.dict r) key v m = .ok () m' ∧ m.Stores m' r key v := by
  have isKey := (plain.inHeap sound.layered).toIsKey
  rcases Heap.insertEntry_cases sound.layered (fun e => (sound.isMap r).key) isKey v with
    ⟨lacks, put⟩ | ⟨before, k, w, after, split, place, put⟩
  · exact ⟨_, run_setItem plain.hashable put, .last sound plain held lacks⟩
  · exact ⟨_, run_setItem plain.hashable put, .inPlace sound plain held free split place⟩

/-- Deleting and popping take out the one entry, or find none. -/
theorem lacks_or_removes (caller : Caller) :
    (m.heap.Lacks (m.heap.dict r).toList key ∧ m.Removes m r key) ∨
    ∃ w m', Eval.lookup? r key m = .ok (some w) m ∧
      Eval.deleteItem caller (.dict r) key m = .ok () m' ∧
      (∀ default : Option Value,
        DictMethod.call caller r .pop ⟨key :: default.toList, []⟩ m = .ok w m') ∧ m.Removes m' r key := by
  have isKey := (plain.inHeap sound.layered).toIsKey
  rcases Heap.lacks_or_hasAt sound.layered (fun e => (sound.isMap r).key) isKey with
    lacks | ⟨before, k, w, after, split, place⟩
  · exact .inl ⟨lacks, .nothing sound plain lacks⟩
  · exact .inr ⟨w, _, run_lookup?_of_hasAt isKey split place,
      run_deleteItem_of_hasAt isKey split place caller, run_pop_of_hasAt isKey split place caller,
      .entry sound plain held free split place⟩

theorem deleteItem_removes {m' : Machine} (run : Eval.deleteItem caller (.dict r) key m = .ok () m') :
    m.Removes m' r key := by
  have isKey := (plain.inHeap sound.layered).toIsKey
  rcases lacks_or_removes sound held free plain caller with
    ⟨lacks, -⟩ | ⟨w, m₁, -, deletes, -, removes⟩
  · rw [run_deleteItem_of_lacks isKey lacks] at run
    exact absurd run keyMissing_ne_ok
  · rw [deletes] at run
    cases run
    exact removes

theorem pop_removes {default : Option Value} {v : Value} {m' : Machine}
    (run : DictMethod.call caller r .pop ⟨key :: default.toList, []⟩ m = .ok v m') :
    m.Removes m' r key := by
  have isKey := (plain.inHeap sound.layered).toIsKey
  rcases lacks_or_removes sound held free plain caller with
    ⟨lacks, nothing⟩ | ⟨w, m₁, -, -, pops, removes⟩
  · rw [run_pop_of_lacks isKey lacks] at run
    cases default with
    | none => exact absurd run keyMissing_ne_ok
    | some d =>
      cases run
      exact nothing
  · rw [pops] at run
    cases run
    exact removes

theorem found_is_removed {w : Value} (found : Eval.lookup? r key m = .ok (some w) m) (caller : Caller) :
    ∃ m', Eval.deleteItem caller (.dict r) key m = .ok () m' ∧ ∀ default : Option Value,
      DictMethod.call caller r .pop ⟨key :: default.toList, []⟩ m = .ok w m' := by
  rcases lacks_or_removes sound held free plain caller with
    ⟨-, nothing⟩ | ⟨w', m', found', deletes, pops, -⟩
  · rw [nothing.absent] at found
    cases found
  · rw [found] at found'
    cases found'
    exact ⟨m', deletes, pops⟩

end

/-- In all machines that come up, the keys of a dict can be keys, and no two of them are equal. Where
they are free of floats, as the key is that an item is stored under or taken out from, the item is found
there then, or none is; and under other keys everything is found that was found before, in the same
order. -/
theorem dicts_stay_maps (underway : m.Underway) (caller : Caller) (r : Ref .dict) :
    (∀ k ∈ m.keys r, Eval.checkHashable k m = .ok () m) ∧
    (m.keys r).Pairwise (fun k k' => Eval.compare .eq k k' m = .ok false m ∧
      Eval.compare .eq k' k m = .ok false m) ∧
    (m.heap.Holds r → (∀ k ∈ m.keys r, m.heap.FloatFree k) → ∀ key, m.PlainKey key →
      (∀ v, ∃ m', Eval.setItem (.dict r) key v m = .ok () m' ∧ m.Stores m' r key v) ∧
      (∀ m', Eval.deleteItem caller (.dict r) key m = .ok () m' → m.Removes m' r key) ∧
      (∀ (default : Option Value) v m',
        DictMethod.call caller r .pop ⟨key :: default.toList, []⟩ m = .ok v m' → m.Removes m' r key) ∧
      ∀ w, Eval.lookup? r key m = .ok (some w) m → ∃ m',
        Eval.deleteItem caller (.dict r) key m = .ok () m' ∧ ∀ default : Option Value,
          DictMethod.call caller r .pop ⟨key :: default.toList, []⟩ m = .ok w m') := by
  have sound := underway.sound.heap
  have map := sound.isMap r
  refine ⟨fun k mem => ?_, ?_, fun held free key plain => ⟨?_, ?_, ?_, ?_⟩⟩
  · exact run_checkHashable_of_isKey (map.isKey k mem)
  · refine map.distinct.imp_of_mem fun mem mem' differ => ⟨run_equals_iff.2 differ, run_equals_iff.2 ?_⟩
    rwa [(map.isKey _ mem').equals_comm (map.isKey _ mem)]
  · exact setItem_stores sound held free plain
  · exact fun m' => deleteItem_removes sound held free plain
  · exact fun default v m' => pop_removes sound held free plain
  · exact fun w found => found_is_removed sound held free plain found caller

theorem equal_key_keeps_its_place :
    ∃ m m' m'' : Machine,
      m = (Evaluator.exec 5 (.module false) (.simple 1 (.assign [.name "d"] (.dict
        [(.int 1, .str "a"), (.tuple [.bool true, .str "k"], .str "b"), (.int 2, .str "c")])))).left
          .fresh ∧
      m.Underway ∧ m.keys ⟨0⟩ = [.int 1, .tuple ⟨0⟩, .int 2] ∧
      Eval.setItem (.dict ⟨0⟩) (.bool true) (.str "z") m = .ok () m' ∧ m'.keys ⟨0⟩ = m.keys ⟨0⟩ ∧
      Eval.lookup? ⟨0⟩ (.bool true) m' = .ok (some (.str "z")) m' ∧
      Eval.lookup? ⟨0⟩ (.tuple ⟨0⟩) m' = .ok (some (.str "b")) m' ∧
      Eval.deleteItem ⟨Evaluator.call 5, 5⟩ (.dict ⟨0⟩) (.tuple ⟨0⟩) m = .ok () m'' ∧
      m''.keys ⟨0⟩ = [.int 1, .int 2] := by
  obtain ⟨m, made⟩ : ∃ m, m = (Evaluator.exec 5 (.module false) (.simple 1 (.assign [.name "d"] (.dict
    [(.int 1, .str "a"), (.tuple [.bool true, .str "k"], .str "b"), (.int 2, .str "c")])))).left
      .fresh := ⟨_, rfl⟩
  have underway : m.Underway := made ▸ .executed _ _ trivial (.between .fresh)
  have tuple : m.heap.tuple ⟨0⟩ = #[.bool true, .str "k"] := made ▸ rfl
  have keys : m.keys ⟨0⟩ = [.int 1, .tuple ⟨0⟩, .int 2] := made ▸ rfl
  have held : m.heap.Holds (⟨0⟩ : Ref .dict) := made ▸ Nat.one_pos
  have int (n : Int64) : m.heap.FloatFree (.int n) := .single nofun nofun
  have bool : m.heap.FloatFree (.bool true) := .single nofun nofun
  have pair : m.heap.FloatFree (.tuple ⟨0⟩) := by
    refine .tuple fun v mem => ?_
    rw [tuple] at mem
    rcases List.mem_cons.1 (List.mem_toArray.1 mem) with rfl | mem
    · exact bool
    · obtain rfl := List.mem_singleton.1 mem
      exact .single nofun nofun
  have free : ∀ k ∈ m.keys ⟨0⟩, m.heap.FloatFree k := by
    rw [keys]
    simp [int, pair]
  obtain ⟨hashable, -, operations⟩ := dicts_stay_maps underway ⟨Evaluator.call 5, 5⟩ ⟨0⟩
  have plain : m.PlainKey (.tuple ⟨0⟩) :=
    ⟨made ▸ Nat.one_pos, hashable _ (by simp [keys]), pair⟩
  have found : Eval.lookup? ⟨0⟩ (.tuple ⟨0⟩) m = .ok (some (.str "b")) m := made ▸ rfl
  obtain ⟨m', stored, stores⟩ := (operations held free (.bool true) ⟨trivial, rfl, bool⟩).1 (.str "z")
  obtain ⟨-, deletes, -, present⟩ := operations held free (.tuple ⟨0⟩) plain
  obtain ⟨m'', deleted, -⟩ := present _ found
  refine ⟨m, m', m'', made, underway, keys, stored, ?_, stores.found rfl, ?_, deleted, ?_⟩
  · rcases stores.order with ⟨old, -, order⟩ | ⟨missing, -⟩
    · exact order
    · have old : Eval.lookup? ⟨0⟩ (.bool true) m = .ok (some (.str "a")) m := made ▸ rfl
      rw [missing] at old
      cases old
  · obtain ⟨same, before, now⟩ := stores.others (.tuple ⟨0⟩) plain rfl
    rw [found] at before
    cases before
    exact now
  · rw [Machine.keys, (deletes m'' deleted).entries]
    subst made
    rfl

end Eval

end Console
