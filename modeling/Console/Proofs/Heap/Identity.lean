import Console.Operators
import Console.Proofs.Evaluator.Dicts
import Console.Proofs.Heap.Equality
import Console.Proofs.Heap.Questions

/-!
# Identity

Identity has no case for floats, exceptions and methods, bound ones and those of built-in types: these
are not identical to themselves. Whatever is identical is the same value, and a value is equal to itself
unless equality comes to a number that is no number or to a method in it, or to a dict again that it is
still about. Of a list it does not look at the items.
-/

namespace Console

namespace Value

variable {v w : Value}

/-- Identity has a case for values of this kind. -/
def hasIdentity : Value → Bool
  | .float _ | .listMethod .. | .strMethod .. | .dictMethod .. | .boundMethod .. | .exception _ => false
  | _ => true

/-- Equality of this value with itself does not fail at once. -/
def equalsItself : Value → Bool
  | .float x => x == x
  | .listMethod .. | .strMethod .. | .dictMethod .. | .boundMethod .. => false
  | _ => true

theorem identical_self (v : Value) : v.identical v = v.hasIdentity := by
  cases v <;> simp [identical, hasIdentity]

/-- Identical values are the same. -/
theorem eq_of_identical (same : v.identical w = true) : v = w := by
  cases v <;> cases w <;> simp_all [identical]

theorem identical_iff : v.identical w = true ↔ v = w ∧ v.hasIdentity = true := by
  constructor
  · intro same
    obtain rfl := eq_of_identical same
    exact ⟨rfl, identical_self v ▸ same⟩
  · rintro ⟨rfl, cased⟩
    rw [identical_self, cased]

theorem plainEqual_self (v : Value) : v.plainEqual v = v.equalsItself := by
  cases v <;> simp [plainEqual, identical, equalsItself]

end Value

namespace Heap

open Relation

variable {h : Heap} {v w : Value} {n : Nat} {entries : List (Value × Value)} {e e' : Value × Value}

/-- Equality compares the one with itself where it compares the other with itself. -/
def Opens (h : Heap) : Value → Value → Prop
  | .list _, _ => False
  | v, w => w ∈ h.parts v

theorem Opens.part (opens : h.Opens v w) : w ∈ h.parts v := by
  cases v with
  | list r => exact opens.elim
  | _ => exact opens

/-- Nothing keeps the value from being equal to itself. -/
structure Regular (h : Heap) (v : Value) : Prop where
  ends : ¬Descent.Recurs h.Opens v
  equalsItself : ∀ w, ReflTransGen h.Opens v w → w.equalsItself = true

/-- Only the same entry has an equal key. -/
theorem IsMap.eq_of_equals (map : h.IsMap entries) (mem : e ∈ entries) (mem' : e' ∈ entries)
    (same : h.equals e.1 e'.1 = some true) : e = e' := by
  by_contra other
  have keys := List.pairwise_map.1 map.distinct
  have apart : entries.Pairwise fun e e' =>
      h.equals e.1 e'.1 = some false ∧ h.equals e'.1 e.1 = some false := by
    refine keys.imp_of_mem fun {e e'} mem mem' differ => ⟨differ, ?_⟩
    have key := map.isKey e.1 (List.mem_map_of_mem mem)
    rwa [(map.isKey e'.1 (List.mem_map_of_mem mem')).equals_comm key]
  have symm : Std.Symm fun e e' : Value × Value =>
      h.equals e.1 e'.1 = some false ∧ h.equals e'.1 e.1 = some false := ⟨fun _ _ => And.symm⟩
  cases same.symm.trans (apart.forall mem mem' other).1

/-- What is passed over does not count. -/
theorem findEqual_append {α : Type} {test : α → Option Bool} {before : List α}
    (fail : ∀ a ∈ before, test a = some false) (rest : List α) :
    findEqual test (before ++ rest) = findEqual test rest := by
  induction before with
  | nil => rfl
  | cons a before ih =>
    obtain ⟨first, others⟩ := List.forall_mem_cons.1 fail
    rw [List.cons_append, findEqual, first]
    exact ih others

theorem exists_of_findEqual {α : Type} {test : α → Option Bool} {items : List α}
    (found : findEqual test items = some true) : ∃ a ∈ items, test a = some true := by
  induction items with
  | nil => cases found
  | cons a items ih =>
    rw [findEqual] at found
    cases here : test a with
    | none => rw [here] at found; cases found
    | some answer =>
      cases answer with
      | true => exact ⟨a, .head _, here⟩
      | false =>
        rw [here] at found
        obtain ⟨b, mem, same⟩ := ih found
        exact ⟨b, .tail _ mem, same⟩

theorem IsMap.findEqual_self (map : h.IsMap entries) (mem : e ∈ entries)
    (key : h.equals e.1 e.1 = some true) (value : h.equals e.2 e.2 = some true) :
    findEqual (fun e' => do if ← h.equals e.1 e'.1 then h.equals e.2 e'.2 else return false)
      entries = some true := by
  obtain ⟨before, after, rfl⟩ := List.append_of_mem mem
  have apart : ∀ e' ∈ before, h.equals e.1 e'.1 = some false := by
    intro e' mem'
    have keys := List.pairwise_map.1 map.distinct
    have differ := (List.pairwise_append.1 keys).2.2 e' mem' e (.head _)
    have isKey := map.isKey e.1 (List.mem_map_of_mem mem)
    rwa [isKey.equals_comm (map.isKey e'.1 (List.mem_map_of_mem (List.mem_append_left _ mem')))]
  rw [findEqual_append fun e' mem' => by rw [apart e' mem']; rfl, findEqual, key, value]
  rfl

variable (maps : ∀ d, h.IsMap (h.dict d).toList)

theorem equalAll_self_iff {test : Value → Value → Option Bool} {as : List Value} :
    equalAll test as as = some true ↔ ∀ a ∈ as, test a a = some true := by
  rw [equalAll_iff rfl, List.forall₂_same]

theorem equalsItself_of_equal (same : h.equal (n + 1) v v = some true) : v.equalsItself = true := by
  cases v with
  | list | tuple | dict => rfl
  | _ =>
    rw [equal_of_single n (.inl rfl), Value.plainEqual_self] at same
    exact Option.some.inj same

include maps

theorem equal_of_opens (same : h.equal (n + 1) v v = some true) (opens : h.Opens v w) :
    h.equal n w w = some true := by
  cases v with
  | list r => exact opens.elim
  | tuple r =>
    rw [equal, if_neg (not_not.2 rfl), equalAll_self_iff] at same
    exact same w opens
  | dict r =>
    rw [equal, if_neg (not_not.2 rfl), holdsForAll_iff] at same
    obtain ⟨e, mem, inside⟩ := List.mem_flatMap.1 opens
    obtain ⟨e', mem', both⟩ := exists_of_findEqual (same e mem)
    obtain ⟨key, value⟩ : h.equal n e.1 e'.1 = some true ∧ h.equal n e.2 e'.2 = some true := by
      rcases found : h.equal n e.1 e'.1 with _ | _ | _ <;> rw [found] at both
      · cases both
      · cases both
      · exact ⟨rfl, both⟩
    have answers : h.Answers (.equal e.1 e'.1) true := ⟨n, key⟩
    obtain rfl := (maps r).eq_of_equals mem mem' answers.at_depth
    rcases List.mem_pair.1 inside with rfl | rfl
    · exact key
    · exact value
  | _ => cases opens

theorem equals_of_opens (here : v.equalsItself = true)
    (inside : ∀ w, h.Opens v w → h.equals w w = some true) : h.equals v v = some true := by
  cases v with
  | list r => rw [equals_list, if_pos rfl]
  | tuple r =>
    rw [equals_tuple, if_neg (not_not.2 rfl), equalAll_self_iff]
    exact inside
  | dict r =>
    rw [equals_dict, if_neg (not_not.2 rfl), holdsForAll_iff]
    exact fun e mem => (maps r).findEqual_self mem (inside e.1 (key_mem_parts mem))
      (inside e.2 (value_mem_parts mem))
  | _ =>
    rw [equals, depth, equal_of_single _ (.inl rfl), Value.plainEqual_self, here]

theorem equals_self_iff : h.equals v v = some true ↔ h.Regular v := by
  constructor
  · intro same
    have deep (n : Nat) : ∀ v, h.equal n v v = some true → Descent.Within h.Opens n v ∧
        ∀ w, ReflTransGen h.Opens v w → w.equalsItself = true := by
      induction n with
      | zero => intro v same; cases same
      | succ n ih =>
        intro v same
        refine ⟨fun w opens => (ih w (equal_of_opens maps same opens)).1, fun w reaches => ?_⟩
        rcases ReflTransGen.cases_head reaches with rfl | ⟨u, opens, reaches⟩
        · exact equalsItself_of_equal same
        · exact (ih u (equal_of_opens maps same opens)).2 w reaches
    obtain ⟨within, each⟩ := deep _ v same
    exact ⟨within.not_recurs, each⟩
  · intro ⟨ends, each⟩
    have within := Descent.within_of_not_recurs (h.sited_parts.sub fun opens => opens.part) ends
    generalize (Finset.range h.containers).card + 1 = n at within
    clear ends
    -- Upwards from the values of which nothing is opened.
    induction n generalizing v with
    | zero => exact within.elim
    | succ n ih =>
      refine equals_of_opens maps (each v .refl) fun w opens => ih ?_ (within w opens)
      exact fun u reaches => each u (.head opens reaches)

end Heap

namespace Eval

variable {m : Machine}

theorem run_is (v w : Value) : compare .is v w m = .ok (v.identical w) m := by
  rw [compare]
  rfl

theorem run_is_iff {v w : Value} {b : Bool} : compare .is v w m = .ok b m ↔ v.identical w = b := by
  rw [run_is]
  constructor
  · intro run
    cases run
    rfl
  · rintro rfl
    rfl

/-- Values of all kinds are identical to themselves, but for floats, exceptions and methods; and to
nothing else. Identical values are equal just if nothing keeps the value from being equal to itself. -/
theorem identical_values_are_equal_if_regular (underway : m.Underway) (v w : Value) :
    (compare .is v w m = .ok true m ↔ v = w ∧ v.hasIdentity = true) ∧
      (compare .is v w m = .ok true m → (compare .eq v w m = .ok true m ↔ m.heap.Regular v)) := by
  refine ⟨run_is_iff.trans Value.identical_iff, fun same => ?_⟩
  obtain rfl := Value.eq_of_identical (run_is_iff.1 same)
  rw [← Heap.equals_self_iff underway.sound.heap.isMap]
  exact run_equals_iff

theorem dict_of_containers_is_regular : ∃ m : Machine, m.Underway ∧
    compare .is (.dict ⟨0⟩) (.dict ⟨0⟩) m = .ok true m ∧ m.heap.Regular (.dict ⟨0⟩) := by
  obtain ⟨m, reached, same⟩ := Machine.exists_reached
    "d = \x7b1: [], (2, 'a'): (None, int)\x7d\nd[3] = [d]\n" 9
    (fun m => m.heap.equals (.dict ⟨0⟩) (.dict ⟨0⟩) == some true) (by decide +kernel)
  have underway := Machine.Underway.between reached
  obtain ⟨identity, equality⟩ := identical_values_are_equal_if_regular underway (.dict ⟨0⟩) (.dict ⟨0⟩)
  have is := identity.2 ⟨rfl, rfl⟩
  exact ⟨m, underway, is, (equality is).1 (run_equals_iff.2 (beq_iff_eq.1 same))⟩

theorem methods_and_exceptions_are_not_themselves :
    (∀ x m, compare .is (.float x) (.float x) m = .ok false m) ∧
    ∃ m : Machine, m.Reached ∧
      (∀ bound ∈ [("f", "builtin_function_or_method"), ("g", "instancemethod"), ("e", "exception")],
        ∃ v, m.globals.get? bound.1 = some v ∧ v.typeName = bound.2 ∧
          compare .is v v m = .ok false m) ∧
      ∃ t, m.globals.get? "t" = some t ∧ compare .is t t m = .ok true m ∧
        compare .eq t t m = .ok false m := by
  refine ⟨fun _ _ => rfl, ?_⟩
  obtain ⟨m, reached, made⟩ := Machine.exists_reached
    ("class C:\n  def m(self):\n    pass\n" ++
      "f = [].append\ng = C().m\ne = ValueError('a')\nt = (f,)\n") 9 (fun m =>
      [("f", "builtin_function_or_method"), ("g", "instancemethod"), ("e", "exception")].all
          (fun bound => (m.globals.get? bound.1).any fun v => v.typeName == bound.2 && !v.identical v) &&
        (m.globals.get? "t").any fun t => t.identical t && m.heap.equals t t == some false)
    (by decide +kernel)
  rw [Bool.and_eq_true, List.all_eq_true, Option.any_eq_true] at made
  obtain ⟨apart, t, tuple, unequal⟩ := made
  rw [Bool.and_eq_true, beq_iff_eq] at unequal
  refine ⟨m, reached, fun bound mem => ?_, t, tuple, run_is_iff.2 unequal.1, run_equals_iff.2 unequal.2⟩
  obtain ⟨v, found, kind⟩ := (Option.any_eq_true ..).1 (apart bound mem)
  rw [Bool.and_eq_true, beq_iff_eq, Bool.not_eq_true'] at kind
  exact ⟨v, found, kind.1, run_is_iff.2 kind.2⟩

end Eval

end Console
