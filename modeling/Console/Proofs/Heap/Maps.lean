import Console.Heap.Equality
import Console.Proofs.Heap.Keys
import Mathlib.Tactic.Common

/-!
# Entries as maps

The keys of a dict are hashable, and no two of them are equal. Putting a value under a key keeps this
whether or not an equal key is there; where no floats are about, it changes what is found under keys
that are equal to this one and under no others.
-/

namespace Console.Heap

section

variable {α : Type} {test : α → Option Bool} {before : List α}

/-- A search passes by what fails its test. -/
theorem indexOf_go_append (fail : ∀ a ∈ before, test a = some false) (rest : List α) (i : Nat) :
    indexOf.go test i (before ++ rest) = indexOf.go test (i + before.length) rest := by
  induction before generalizing i with
  | nil => rfl
  | cons a before ih =>
    obtain ⟨first, others⟩ := List.forall_mem_cons.1 fail
    rw [List.cons_append, indexOf.go, first]
    refine (ih others (i + 1)).trans ?_
    rw [List.length_cons, Nat.add_assoc, Nat.add_comm 1]

theorem indexOf_none (fail : ∀ a ∈ before, test a = some false) :
    indexOf test before = some none := by
  have passed := indexOf_go_append fail [] 0
  rwa [List.append_nil] at passed

theorem indexOf_some (fail : ∀ a ∈ before, test a = some false) {a : α} (found : test a = some true)
    (after : List α) : indexOf test (before ++ a :: after) = some (some before.length) := by
  rw [indexOf, indexOf_go_append fail, indexOf.go, found, Nat.zero_add]
  rfl

end

variable {h : Heap} {key : Value} {before : List (Value × Value)}

theorem lookupEntry_append (other : ∀ e ∈ before, h.equals e.1 key = some false)
    (rest : List (Value × Value)) :
    h.lookupEntry key (before ++ rest) = h.lookupEntry key rest := by
  induction before with
  | nil => rfl
  | cons e before ih =>
    obtain ⟨first, others⟩ := List.forall_mem_cons.1 other
    rw [List.cons_append, lookupEntry, first]
    exact ih others

theorem lookupEntry_none (other : ∀ e ∈ before, h.equals e.1 key = some false) :
    h.lookupEntry key before = some none := by
  have passed := lookupEntry_append other []
  rwa [List.append_nil] at passed

theorem lookupEntry_some (other : ∀ e ∈ before, h.equals e.1 key = some false) {old : Value}
    (same : h.equals old key = some true) (w : Value) (after : List (Value × Value)) :
    h.lookupEntry key (before ++ (old, w) :: after) = some (some w) := by
  rw [lookupEntry_append other, lookupEntry, same]
  rfl

theorem insertEntry_none {entries : Array (Value × Value)}
    (other : ∀ e ∈ entries.toList, h.equals e.1 key = some false) (v : Value) :
    h.insertEntry entries key v = some (entries.push (key, v)) := by
  rw [insertEntry, indexOf_none other]
  rfl

theorem insertEntry_some (other : ∀ e ∈ before, h.equals e.1 key = some false) {old : Value}
    (same : h.equals old key = some true) (v w : Value) (after : List (Value × Value)) :
    h.insertEntry (before ++ (old, w) :: after).toArray key v =
      some (before ++ (old, v) :: after).toArray := by
  have inPlace (e : Value × Value) :
      (before ++ e :: after).modify before.length (fun e => (e.1, v)) =
        before ++ (e.1, v) :: after := by
    rw [List.modify_eq_take_cons_drop (by simp)]
    simp
  rw [insertEntry, indexOf_some other same after]
  simp [inPlace]

end Console.Heap

namespace Console.Heap

variable {h h' : Heap} {a b c k : Value}

/-- A value of the heap that can be a key. -/
structure IsKey (h : Heap) (v : Value) : Prop where
  held : h.Holds v
  hashable : h.Hashable v

namespace IsKey

theorem nesting_lt (key : h.IsKey a) : a.nesting < h.depth := by
  have tuples := key.held.nesting_le
  have fewer := h.containers_le_comparisons
  unfold containers at fewer
  unfold depth
  omega

theorem aged (key : h.IsKey a) (layered : h.Layered) (ages : h.Ages h') : h'.IsKey a :=
  ⟨key.held.aged ages, key.hashable.aged layered ages key.held.nesting_le⟩

theorem equals_aged (key : h.IsKey a) (key' : h.IsKey b) (layered : h.Layered)
    (ages : h.Ages h') : h'.equals a b = h.equals a b := by
  obtain ⟨answer, here, there⟩ := key.hashable.equal_answers key'.hashable layered ages
    key.held.nesting_le key'.held.nesting_le key.nesting_lt (key.aged layered ages).nesting_lt
  exact there.trans here.symm

theorem equals_answers (key : h.IsKey a) (key' : h.IsKey b) (layered : h.Layered) :
    ∃ answer, h.equals a b = some answer := by
  obtain ⟨answer, here, -⟩ := key.hashable.equal_answers key'.hashable layered (.refl h)
    key.held.nesting_le key'.held.nesting_le key.nesting_lt key.nesting_lt
  exact ⟨answer, here⟩

theorem equals_comm (key : h.IsKey a) (key' : h.IsKey b) : h.equals a b = h.equals b a :=
  key.hashable.equal_comm key'.hashable h.depth

end IsKey

/-- A key in which no float occurs. -/
structure PlainKey (h : Heap) (v : Value) : Prop extends h.IsKey v where
  free : h.FloatFree v

namespace PlainKey

theorem equals_trans (key : h.PlainKey a) (key' : h.PlainKey b) (key'' : h.PlainKey c)
    (first : h.equals a b = some true) (second : h.equals b c = some true) :
    h.equals a c = some true :=
  key.hashable.equal_trans key'.hashable key''.hashable key.free key'.free key''.free first second

/-- What is equal to a key differs from what the key differs from. -/
theorem equals_of_ne (key : h.PlainKey a) (key' : h.PlainKey b) (key'' : h.PlainKey c)
    (layered : h.Layered) (same : h.equals a b = some true) (other : h.equals b c = some false) :
    h.equals a c = some false := by
  obtain ⟨answer, found⟩ := key.equals_answers key''.toIsKey layered
  cases answer with
  | false => exact found
  | true =>
    rw [key.equals_comm key'.toIsKey] at same
    rw [key'.equals_trans key key'' same found] at other
    cases other

end PlainKey

/-- Keys of which no two are equal. -/
structure DistinctKeys (h : Heap) (keys : List Value) : Prop where
  isKey : ∀ k ∈ keys, h.IsKey k
  distinct : keys.Pairwise fun k k' => h.equals k k' = some false

namespace DistinctKeys

variable {keys : List Value}

theorem nil : h.DistinctKeys [] := ⟨nofun, .nil⟩

theorem aged (all : h.DistinctKeys keys) (layered : h.Layered) (ages : h.Ages h') :
    h'.DistinctKeys keys where
  isKey k mem := (all.isKey k mem).aged layered ages
  distinct := all.distinct.imp_of_mem fun mem mem' differ => by
    rwa [(all.isKey _ mem).equals_aged (all.isKey _ mem') layered ages]

theorem sublist {fewer : List Value} (all : h.DistinctKeys keys) (sub : fewer.Sublist keys) :
    h.DistinctKeys fewer :=
  ⟨fun k mem => all.isKey k (sub.subset mem), all.distinct.sublist sub⟩

theorem concat (all : h.DistinctKeys keys) (key : h.IsKey k)
    (other : ∀ k' ∈ keys, h.equals k' k = some false) : h.DistinctKeys (keys ++ [k]) where
  isKey := List.forall_mem_append.2 ⟨all.isKey, List.forall_mem_singleton.2 key⟩
  distinct := List.pairwise_append.2 ⟨all.distinct, List.pairwise_singleton _ _, fun k' mem _ mem' =>
    List.mem_singleton.1 mem' ▸ other k' mem⟩

end DistinctKeys

variable {entries before after : List (Value × Value)} {old v w : Value}

/-- The keys of entries differ. -/
abbrev IsMap (h : Heap) (entries : List (Value × Value)) : Prop :=
  h.DistinctKeys (entries.map Prod.fst)

/-- A map whose keys and values are of the heap. -/
structure HoldsMap (h : Heap) (entries : Array (Value × Value)) : Prop where
  held : h.Holds entries
  map : h.IsMap entries.toList

theorem HoldsMap.empty : h.HoldsMap #[] := ⟨fun _ mem => absurd mem (Array.not_mem_empty _), .nil⟩

theorem HoldsMap.aged {entries : Array (Value × Value)} (good : h.HoldsMap entries)
    (layered : h.Layered) (ages : h.Ages h') : h'.HoldsMap entries :=
  ⟨good.held.aged ages, good.map.aged layered ages⟩

theorem HoldsMap.eraseIdxIfInBounds {entries : Array (Value × Value)} (good : h.HoldsMap entries)
    (i : Nat) : h.HoldsMap (entries.eraseIdxIfInBounds i) := by
  refine ⟨good.held.eraseIdxIfInBounds i, good.map.sublist ?_⟩
  rw [Array.toList_eraseIdxIfInBounds]
  exact (List.eraseIdx_sublist _ i).map _

/-- No entry has a key equal to the given one. -/
def Lacks (h : Heap) (entries : List (Value × Value)) (k : Value) : Prop :=
  ∀ e ∈ entries, h.equals e.1 k = some false

/-- The first entry with an equal key stands behind the entries `before`. -/
structure HasAt (h : Heap) (before : List (Value × Value)) (old k : Value) : Prop where
  other : h.Lacks before k
  same : h.equals old k = some true

theorem IsMap.key (map : h.IsMap entries) {e : Value × Value} (mem : e ∈ entries) : h.IsKey e.1 :=
  map.isKey e.1 (List.mem_map_of_mem mem)

/-- A key is missing, or found somewhere first. -/
theorem lacks_or_hasAt (layered : h.Layered) (keys : ∀ e ∈ entries, h.IsKey e.1) (key : h.IsKey k) :
    h.Lacks entries k ∨
      ∃ before old w after, entries = before ++ (old, w) :: after ∧ h.HasAt before old k := by
  induction entries with
  | nil => exact .inl (List.forall_mem_nil _)
  | cons e entries ih =>
    obtain ⟨first, others⟩ := List.forall_mem_cons.1 keys
    obtain ⟨answer, found⟩ := first.equals_answers key layered
    cases answer with
    | true => exact .inr ⟨[], e.1, e.2, entries, rfl, List.forall_mem_nil _, found⟩
    | false =>
      rcases ih others with lacks | ⟨before, old, w, after, rfl, other, same⟩
      · exact .inl (List.forall_mem_cons.2 ⟨found, lacks⟩)
      · exact .inr ⟨e :: before, old, w, after, rfl, List.forall_mem_cons.2 ⟨found, other⟩, same⟩

/-- An entry can be left out of the search for another key. -/
theorem lookupEntry_drop (other : h.equals old k = some false) :
    h.lookupEntry k (before ++ (old, w) :: after) = h.lookupEntry k (before ++ after) := by
  induction before with
  | nil =>
    rw [List.nil_append, lookupEntry, other]
    rfl
  | cons e before ih => rw [List.cons_append, lookupEntry, ih, List.cons_append, lookupEntry]

/-- What is found stays the same in a heap that has aged. -/
theorem lookupEntry_aged (layered : h.Layered) (ages : h.Ages h')
    (keys : ∀ e ∈ entries, h.IsKey e.1) (key : h.IsKey k) :
    h'.lookupEntry k entries = h.lookupEntry k entries := by
  induction entries with
  | nil => rfl
  | cons e entries ih =>
    obtain ⟨first, others⟩ := List.forall_mem_cons.1 keys
    rw [lookupEntry, lookupEntry, first.equals_aged key layered ages, ih others]

theorem lookupEntry_answers (layered : h.Layered) (keys : ∀ e ∈ entries, h.IsKey e.1)
    (key : h.IsKey k) : ∃ found, h.lookupEntry k entries = some found := by
  rcases lacks_or_hasAt layered keys key with lacks | ⟨before, old, w, after, rfl, place⟩
  · exact ⟨none, lookupEntry_none lacks⟩
  · exact ⟨some w, lookupEntry_some place.other place.same w after⟩

/-- Only one entry of a map has a key equal to the given one. -/
theorem IsMap.lacks_after (map : h.IsMap (before ++ (old, w) :: after)) (layered : h.Layered)
    (plain : ∀ e ∈ before ++ (old, w) :: after, h.PlainKey e.1) (key : h.PlainKey k)
    (same : h.equals old k = some true) : h.Lacks after k := by
  intro e later
  have first := plain (old, w) (by simp)
  have second := plain e (by simp [later])
  have differ : h.equals old e.1 = some false := by
    have distinct := map.distinct
    rw [List.map_append, List.map_cons] at distinct
    exact List.rel_of_pairwise_cons (List.pairwise_append.1 distinct).2.1 (List.mem_map_of_mem later)
  rw [first.equals_comm key.toIsKey] at same
  rw [second.equals_comm key.toIsKey]
  exact key.equals_of_ne first second layered same differ

/-- Putting a value under a key changes the entry in its place, or comes last. -/
theorem insertEntry_cases (layered : h.Layered) {entries : Array (Value × Value)}
    (keys : ∀ e ∈ entries.toList, h.IsKey e.1) (key : h.IsKey k) (v : Value) :
    (h.Lacks entries.toList k ∧ h.insertEntry entries k v = some (entries.push (k, v))) ∨
    ∃ before old w after, entries.toList = before ++ (old, w) :: after ∧ h.HasAt before old k ∧
      h.insertEntry entries k v = some (before ++ (old, v) :: after).toArray := by
  obtain ⟨entries⟩ := entries
  rcases lacks_or_hasAt layered keys key with lacks | ⟨before, old, w, after, rfl, found⟩
  · exact .inl ⟨lacks, insertEntry_none lacks v⟩
  · exact .inr ⟨before, old, w, after, rfl, found, insertEntry_some found.other found.same v w after⟩

theorem HoldsMap.push {entries : Array (Value × Value)} (good : h.HoldsMap entries)
    (key : h.IsKey k) (value : h.Holds v) (lacks : h.Lacks entries.toList k) :
    h.HoldsMap (entries.push (k, v)) where
  held := good.held.push ⟨key.held, value⟩
  map := by
    rw [IsMap, Array.toList_push, List.map_append]
    exact good.map.concat key (List.forall_mem_map.2 lacks)

theorem HoldsMap.insertEntry (layered : h.Layered) {entries : Array (Value × Value)}
    (good : h.HoldsMap entries) (key : h.IsKey k) (value : h.Holds v) :
    ∃ more, h.insertEntry entries k v = some more ∧ h.HoldsMap more := by
  obtain ⟨held, map⟩ := good
  rcases insertEntry_cases layered (fun e mem => map.key mem) key v with
    ⟨lacks, put⟩ | ⟨before, old, w, after, split, found, put⟩
  · exact ⟨_, put, HoldsMap.push ⟨held, map⟩ key value lacks⟩
  · rw [IsMap, split] at map
    refine ⟨_, put, ⟨fun e mem => ?_, by simpa [IsMap] using map⟩⟩
    have there (e : Value × Value) (mem : e ∈ before ++ (old, w) :: after) : h.Holds e := by
      rw [← split] at mem
      exact held.toList e mem
    rcases List.mem_append.1 (List.mem_toArray.1 mem) with earlier | later
    · exact there e (List.mem_append_left _ earlier)
    · rcases List.mem_cons.1 later with rfl | later
      · exact ⟨(there (old, w) (by simp)).1, value⟩
      · exact there e (by simp [later])

end Console.Heap
