import Console.Evaluator
import Console.Proofs.Heap.Order
import Console.Proofs.Machine
import Console.Proofs.Sorting.Pivots

/-!
# Values in order

Keys of which any two have an order are ranked by how many of them come before a key. What is sorted by
them is in stable order, upwards or downwards, and its first item is the one that is kept where the
items are compared from the left.
-/

namespace Console

open Sorting

namespace Heap

variable {h : Heap} {keys : List Value} {k l : Value} {o wanted : Ordering}

/-- Order does not fail on the types of the values. -/
def Orderable (h : Heap) (k l : Value) : Prop := ∀ left right, h.orders k l ≠ .unorderable left right

/-- Values without cycles and floats, any two of which can be ordered. -/
structure Sortable (h : Heap) (keys : List Value) : Prop where
  exact : ∀ k ∈ keys, h.Exact k
  orderable : keys.Pairwise fun k l => h.Orderable k l ∧ h.Orderable l k

/-- How many keys are ordered to the value as wanted. -/
def rank (h : Heap) (wanted : Ordering) (keys : List Value) (v : Value) : Nat :=
  keys.countP fun k => h.orders k v = .order wanted

/-- The order of the two is found, and the reverse one the other way round. -/
structure Ranked (h : Heap) (o : Ordering) (k l : Value) : Prop where
  forth : h.orders k l = .order o
  back : h.orders l k = .order o.swap

namespace Ranked

theorem symm (ranked : h.Ranked o k l) : h.Ranked o.swap l k :=
  ⟨ranked.back, by rw [Ordering.swap_swap, ranked.forth]⟩

theorem of_orderable (exact : h.Exact k) (exact' : h.Exact l) (forth : h.Orderable k l)
    (back : h.Orderable l k) : ∃ o, h.Ranked o k l := by
  obtain ⟨o, found⟩ := (orders_of_exact exact exact').resolve_right fun ⟨_, _, fails⟩ => forth _ _ fails
  obtain ⟨o', found'⟩ := (orders_of_exact exact' exact).resolve_right fun ⟨_, _, fails⟩ => back _ _ fails
  obtain rfl := h.orders_laws.swap exact exact' found found'
  exact ⟨o, found, found'⟩

end Ranked

namespace Sortable

variable {i j : Nat}

theorem pairwise (sortable : h.Sortable keys) : keys.Pairwise fun k l => ∃ o, h.Ranked o k l :=
  sortable.orderable.imp_of_mem fun mem mem' orderable =>
    Ranked.of_orderable (sortable.exact _ mem) (sortable.exact _ mem') orderable.1 orderable.2

/-- Keys at different places are ordered. -/
theorem ranked (sortable : h.Sortable keys) (apart : i ≠ j) (here : keys[i]? = some k)
    (there : keys[j]? = some l) : ∃ o, h.Ranked o k l := by
  obtain ⟨inside, rfl⟩ := List.getElem?_eq_some_iff.1 here
  obtain ⟨inside', rfl⟩ := List.getElem?_eq_some_iff.1 there
  have pairwise := List.pairwise_iff_getElem.1 sortable.pairwise
  rcases Nat.lt_or_gt_of_ne apart with before | after
  · exact pairwise i j inside inside' before
  · obtain ⟨o, ranked⟩ := pairwise j i inside' inside after
    exact ⟨o.swap, ranked.symm⟩

/-- Whole numbers and truth values can be sorted. -/
theorem of_numbers (whole : ∀ k ∈ keys, ∃ n, k.asInt? = some n) : h.Sortable keys := by
  have exact (k) (mem : k ∈ keys) : h.PlainData k := by
    obtain ⟨n, number⟩ := whole k mem
    exact .of_single (by cases k <;> first | rfl | cases number)
      (by cases k <;> first | rfl | cases number)
  have orderable (k) (mem : k ∈ keys) (l) (mem' : l ∈ keys) : h.Orderable k l := by
    obtain ⟨m, number⟩ := whole k mem
    obtain ⟨n, number'⟩ := whole l mem'
    intro left right fails
    rw [orders_numbers number number'] at fails
    cases fails
  exact ⟨fun k mem => (exact k mem).wellKeyed.toExact, List.pairwise_of_forall_mem_list
    fun k mem l mem' => ⟨orderable k mem l mem', orderable l mem' k mem⟩⟩

end Sortable

theorem countP_lt {α : Type} {p q : α → Bool} {items : List α} {a : α} (mem : a ∈ items)
    (without : ¬ p a) (more : q a) (all : ∀ b ∈ items, p b → q b) : items.countP p < items.countP q := by
  obtain ⟨before, after, rfl⟩ := List.append_of_mem mem
  obtain ⟨first, rest⟩ := List.forall_mem_append.1 all
  have left := List.countP_mono_left first
  have right := List.countP_mono_left (List.forall_mem_cons.1 rest).2
  rw [List.countP_append, List.countP_append, List.countP_cons_of_neg without,
    List.countP_cons_of_pos more]
  omega

section

variable (exact : ∀ k ∈ keys, h.Exact k) (mem : k ∈ keys) (mem' : l ∈ keys)
include exact mem mem'

theorem rank_lt (strict : wanted ≠ .eq) (found : h.orders k l = .order wanted) :
    h.rank wanted keys k < h.rank wanted keys l := by
  have laws := h.orders_laws
  refine countP_lt mem ?_ (by simpa using found) fun j mem'' first => ?_
  · simpa using fun found => strict (laws.alone (exact k mem) found)
  · simpa using laws.trans (exact j mem'') (exact k mem) (exact l mem') (by simpa using first) found

theorem rank_le_of_eq (strict : wanted ≠ .eq) (found : h.orders k l = .order .eq) :
    h.rank wanted keys k ≤ h.rank wanted keys l := by
  have laws := h.orders_laws
  have same := laws.same_of_eq (exact k mem) (exact l mem') found
  refine List.countP_mono_left fun j mem'' first => ?_
  simpa using laws.right (exact j mem'') (exact k mem) (exact l mem') strict (by simpa using first) same

/-- The ranks are as the order is. -/
theorem Ranked.rank_lt_iff (strict : wanted ≠ .eq) (ranked : h.Ranked o k l) :
    h.rank wanted keys k < h.rank wanted keys l ↔ o = wanted := by
  constructor
  · intro lower
    by_contra differ
    have back : h.orders l k = .order .eq ∨ h.orders l k = .order wanted := by
      rw [ranked.back]
      cases o <;> cases wanted <;> simp_all
    rcases back with found | found
    · exact Nat.not_lt.2 (rank_le_of_eq exact mem' mem strict found) lower
    · exact Nat.lt_asymm (rank_lt exact mem' mem strict found) lower
  · rintro rfl
    exact rank_lt exact mem mem' strict ranked.forth

/-- One rank is equality. -/
theorem Ranked.eq_of_rank_eq (strict : wanted ≠ .eq) (ranked : h.Ranked o k l)
    (same : h.rank wanted keys k = h.rank wanted keys l) : o = .eq := by
  have forth : o ≠ wanted := fun found =>
    Nat.ne_of_lt ((ranked.rank_lt_iff exact mem mem' strict).2 found) same
  have back : o.swap ≠ wanted := fun found =>
    Nat.ne_of_gt ((ranked.symm.rank_lt_iff exact mem' mem strict).2 found) same
  cases o <;> cases wanted <;> simp_all

end

end Heap

namespace Eval

variable {h : Heap} {keys : List Value} {k l : Value} {o : Ordering}

/-- The order that goes first: less upwards, greater downwards. -/
def wanted (reverse : Bool) : Ordering := if reverse then .gt else .lt

theorem wanted_ne_eq (reverse : Bool) : wanted reverse ≠ .eq := by cases reverse <;> nofun

theorem goesBefore_of_orders (found : h.orders k l = .order o) (reverse : Bool) :
    goesBefore h reverse k l = .ok (o == wanted reverse) := by
  rw [goesBefore, found]
  rfl

theorem told_of_ranked (exact : ∀ k ∈ keys, h.Exact k) (reverse : Bool) {x y : Value × Value}
    (mem : x.1 ∈ keys) (mem' : y.1 ∈ keys) (ranked : h.Ranked o x.1 y.1) :
    Told (fun x y : Value × Value => goesBefore h reverse x.1 y.1)
      (fun x => h.rank (wanted reverse) keys x.1) x y := by
  have strict := wanted_ne_eq reverse
  have forth := ranked.rank_lt_iff exact mem mem' strict
  have back := ranked.symm.rank_lt_iff exact mem' mem strict
  refine ⟨?_, ?_, fun same => ?_⟩
  · simp [goesBefore_of_orders ranked.forth, forth, beq_eq_decide]
  · simp [goesBefore_of_orders ranked.back, back, beq_eq_decide]
  · obtain rfl := ranked.eq_of_rank_eq exact mem mem' strict same
    have laws := h.orders_laws
    have alone {v : Value} (found : h.orders v v = .order .eq) : goesBefore h reverse v v = .ok false := by
      rw [goesBefore_of_orders found, beq_eq_false_iff_ne.2 strict.symm]
    exact ⟨alone (laws.trans (exact x.1 mem) (exact y.1 mem') (exact x.1 mem) ranked.forth ranked.back),
      alone (laws.trans (exact y.1 mem') (exact x.1 mem) (exact y.1 mem') ranked.back ranked.forth)⟩

variable {caller : Caller} {m m' : Machine} {keywords : List (String × Value)} {key : Option Value}
  {reverse : Bool} {items : List Value}

/-- Where the keys are made, each item comes together with its key. -/
theorem run_keyed (run : items.mapM (sortKey caller key) m = .ok keys m') :
    keys.length = items.length ∧
      (items.mapM fun item => do return (← sortKey caller key item, item) : Eval _) m =
        .ok (keys.zip items) m' := by
  induction items generalizing keys m with
  | nil =>
    cases run
    exact ⟨rfl, rfl⟩
  | cons item items ih =>
    rw [List.mapM_cons] at run
    obtain ⟨k, next, first, run⟩ := of_bind run
    obtain ⟨ks, last, rest, run⟩ := of_bind run
    cases run
    obtain ⟨length, keyed⟩ := ih rest
    refine ⟨congrArg (· + 1) length, ?_⟩
    rw [List.mapM_cons, bind_assoc, run_bind first, pure_bind, run_bind keyed]
    rfl

theorem told_of_sortable (sortable : h.Sortable keys) (length : keys.length = items.length)
    (reverse : Bool) :
    AllTold (fun x y => goesBefore h reverse x.1 y.1) (fun x => h.rank (wanted reverse) keys x.1)
      (keys.zip items) := by
  have keyed : (keys.zip items).map Prod.fst = keys := List.map_fst_zip (Nat.le_of_eq length)
  have inside {e} (mem : e ∈ keys.zip items) : e.1 ∈ keys := keyed ▸ List.mem_map_of_mem mem
  have pairwise := sortable.pairwise
  rw [← keyed, List.pairwise_map] at pairwise
  exact pairwise.imp_of_mem fun mem mem' ⟨_, ranked⟩ =>
    told_of_ranked sortable.exact reverse (inside mem) (inside mem') ranked

/-- Sorting by keys that can be ordered succeeds, with the items in stable order. -/
theorem sorted_arranged {items : Array Value}
    (options : ∀ callee, sortOptions callee ⟨none, false⟩ keywords m = .ok ⟨key, reverse⟩ m)
    (run : items.toList.mapM (sortKey caller key) m = .ok keys m') (sortable : m'.heap.Sortable keys) :
    ∃ out, Arranged (fun x => m'.heap.rank (wanted reverse) keys x.1) (keys.zip items.toList) out ∧
      ∀ callee, sorted caller callee items keywords m = .ok (out.map Prod.snd).toArray m' := by
  obtain ⟨length, keyed⟩ := run_keyed run
  obtain ⟨out, inOrder, arranged⟩ := sort_arranged (told_of_sortable sortable length reverse)
  refine ⟨out, arranged, fun callee => ?_⟩
  rw [sorted, run_bind (options callee), run_bind keyed, run_ask, inOrder]
  rfl

/-- `out` has the items from the given places, each place once: upwards by their keys, or downwards with
`reverse`, and where keys are equal in the order that the items had. -/
structure StablySorted (h : Heap) (reverse : Bool) (keys items out : List Value) (places : List Nat) :
    Prop where
  keyed : keys.length = items.length
  once : places.Perm (List.range items.length)
  there : out.map some = places.map (items[·]?)
  stable : places.Pairwise fun i j => ∀ k ∈ keys[i]?, ∀ l ∈ keys[j]?,
    h.orders k l = .order (if reverse then .gt else .lt) ∨ h.orders k l = .order .eq ∧ i < j

theorem stablySorted_of_arranged (sortable : h.Sortable keys) (length : keys.length = items.length)
    {out : List (Value × Value)}
    (arranged : Arranged (fun x => h.rank (wanted reverse) keys x.1) (keys.zip items) out) :
    ∃ places, StablySorted h reverse keys items (out.map Prod.snd) places := by
  obtain ⟨places, once, there, ordered⟩ := arranged.places
  have zipped : (keys.zip items).length = items.length := by simp [length]
  have key (i : Nat) : (keys.zip items)[i]?.map Prod.fst = keys[i]? := by
    rw [← List.getElem?_map, List.map_fst_zip (Nat.le_of_eq length)]
  have item (i : Nat) : (keys.zip items)[i]?.map Prod.snd = items[i]? := by
    rw [← List.getElem?_map, List.map_snd_zip (Nat.le_of_eq length.symm)]
  refine ⟨places, length, zipped ▸ once, ?_, ?_⟩
  · simpa [Function.comp_def, item] using congrArg (List.map (Option.map Prod.snd)) there
  · have apart : places.Pairwise (· ≠ ·) := once.nodup_iff.2 List.nodup_range
    refine (ordered.and apart).imp fun {i j} ⟨ordered, apart⟩ k here l there => ?_
    obtain ⟨o, ranked⟩ := sortable.ranked apart here there
    have strict := wanted_ne_eq reverse
    have mem := List.mem_of_getElem? here
    have mem' := List.mem_of_getElem? there
    rw [← key] at here there
    obtain ⟨x, at_i, rfl⟩ := Option.map_eq_some_iff.1 here
    obtain ⟨y, at_j, rfl⟩ := Option.map_eq_some_iff.1 there
    rcases ordered x at_i y at_j with lower | ⟨same, before⟩
    · obtain rfl := (ranked.rank_lt_iff sortable.exact mem mem' strict).1 lower
      exact .inl ranked.forth
    · obtain rfl := ranked.eq_of_rank_eq sortable.exact mem mem' strict same
      exact .inr ⟨ranked.forth, before⟩

/-- What both sorts put in order is stably sorted by the keys, as they are once all of them are made:
the new list of `sorted`, and what the list is changed to by its method. -/
theorem sorting_is_stable {items : Array Value}
    (options : ∀ callee, sortOptions callee ⟨none, false⟩ keywords m = .ok ⟨key, reverse⟩ m)
    (run : items.toList.mapM (sortKey caller key) m = .ok keys m')
    (exact : ∀ k ∈ keys, m'.heap.Exact k)
    (orderable : keys.Pairwise fun k l => m'.heap.Orderable k l ∧ m'.heap.Orderable l k) :
    ∃ (out : Array Value) (places : List Nat),
      StablySorted m'.heap reverse keys items.toList out.toList places ∧
      (∀ v, Eval.items v m = .ok items m →
        Builtin.call caller .sorted ⟨[v], keywords⟩ m = .ok (.list ⟨m'.heap.lists.size⟩)
          { m' with heap := { m'.heap with lists := m'.heap.lists.push out } }) ∧
      ∀ r, m.heap.list r = items →
        ListMethod.call caller r .sort ⟨[], keywords⟩ m = .ok .none
          { m' with heap := { m'.heap with lists := m'.heap.lists.modify r.index fun _ => out } } := by
  have sortable : m'.heap.Sortable keys := ⟨exact, orderable⟩
  obtain ⟨out, arranged, runs⟩ := sorted_arranged options run sortable
  obtain ⟨places, stable⟩ := stablySorted_of_arranged sortable (run_keyed run).1 arranged
  refine ⟨(out.map Prod.snd).toArray, places, stable, fun v iterated => ?_, fun r snapshot => ?_⟩
  · exact (run_bind iterated _).trans (run_bind (runs "sorted") newList)
  · subst snapshot
    exact run_bind (runs "sort") _

theorem lists_are_sorted_by_length :
    let m : Machine := { Machine.fresh with heap := { Heap.empty with
      lists := #[#[.int 1, .int 2], #[.int 3], #[.int 4, .int 5], #[.list ⟨0⟩, .list ⟨1⟩, .list ⟨2⟩]] } }
    let out : Array Value := #[.list ⟨1⟩, .list ⟨0⟩, .list ⟨2⟩]
    ∃ places, StablySorted m.heap false [.int 2, .int 1, .int 2] [.list ⟨0⟩, .list ⟨1⟩, .list ⟨2⟩]
        out.toList places ∧
      Builtin.call ⟨Evaluator.call 5, 5⟩ .sorted ⟨[.list ⟨3⟩], [("key", .builtin .len)]⟩ m =
        .ok (.list ⟨4⟩) { m with heap := { m.heap with lists := m.heap.lists.push out } } := by
  intro m out
  have options (callee : String) : sortOptions callee ⟨none, false⟩ [("key", .builtin .len)] m =
      .ok ⟨some (.builtin .len), false⟩ m := rfl
  have keyed : (m.heap.list ⟨3⟩).toList.mapM (sortKey ⟨Evaluator.call 5, 5⟩ (some (.builtin .len))) m =
      .ok [.int 2, .int 1, .int 2] m := rfl
  have sortable : m.heap.Sortable [.int 2, .int 1, .int 2] :=
    .of_numbers (by simp [Value.asInt?])
  obtain ⟨found, places, stable, sorts, -⟩ :=
    sorting_is_stable options keyed sortable.exact sortable.orderable
  have here := sorts (.list ⟨3⟩) rfl
  have computed : Builtin.call ⟨Evaluator.call 5, 5⟩ .sorted ⟨[.list ⟨3⟩], [("key", .builtin .len)]⟩ m =
      .ok (.list ⟨4⟩) { m with heap := { m.heap with lists := m.heap.lists.push out } } := rfl
  have pushed : m.heap.lists.push found = m.heap.lists.push out :=
    congrArg (fun r => match r with | .ok _ m => m.heap.lists | .error _ m => m.heap.lists)
      (here.symm.trans computed)
  obtain ⟨rfl, -⟩ := Array.push_eq_push.1 pushed
  exact ⟨places, stable, computed⟩

/-- What is kept leads the values that were compared. -/
theorem run_extreme {before rest : List Value} {kept : Value} (sortable : m.heap.Sortable keys)
    (split : keys = before ++ rest) (leads : Leads (m.heap.rank (wanted reverse) keys) kept before) :
    ∃ best, Builtin.extreme (wanted reverse) kept rest m = .ok best m ∧
      Leads (m.heap.rank (wanted reverse) keys) best keys := by
  induction rest generalizing before kept with
  | nil =>
    obtain rfl : keys = before := by simpa using split
    exact ⟨kept, rfl, leads⟩
  | cons v rest ih =>
    have mem : kept ∈ keys := split ▸ List.mem_append_left _ leads.mem
    have mem' : v ∈ keys := split ▸ List.mem_append_right _ List.mem_cons_self
    obtain ⟨o, ranked⟩ : ∃ o, m.heap.Ranked o kept v :=
      (List.pairwise_append.1 (split ▸ sortable.pairwise)).2.2 kept leads.mem v List.mem_cons_self
    have lower := ranked.symm.rank_lt_iff sortable.exact mem' mem (wanted_ne_eq reverse)
    obtain ⟨best, run, first⟩ := ih (by simpa using split) (leads.concat v)
    refine ⟨best, ?_, first⟩
    rw [Builtin.extreme, run_bind (run_order ranked.back)]
    simpa [lower] using run

theorem run_sortKey_none (items : List Value) : items.mapM (sortKey caller none) m = .ok items m := by
  have each : List.Forall₂ (fun v w => sortKey caller none w m = .ok (id v) m) items items :=
    List.forall₂_same.2 fun _ _ => rfl
  simpa using run_mapM each

theorem callExtreme_list (callee : String) (direction : Ordering) {r : Ref .list} {first : Value}
    {rest : List Value} (items : (m.heap.list r).toList = first :: rest) :
    Builtin.callExtreme callee direction ⟨[.list r], []⟩ m = Builtin.extreme direction first rest m := by
  simp [Builtin.callExtreme, Arguments.withoutKeywords, ofFault, Eval.items, run_ask, items]

/-- Arguments are compared as the items of a list of them. -/
theorem callExtreme_arguments (callee : String) (direction : Ordering) {r : Ref .list}
    {arguments : List Value} (several : 2 ≤ arguments.length)
    (items : m.heap.list r = arguments.toArray) :
    Builtin.callExtreme callee direction ⟨arguments, []⟩ m =
      Builtin.callExtreme callee direction ⟨[.list r], []⟩ m := by
  obtain _ | ⟨first, _ | ⟨second, rest⟩⟩ := arguments
  · cases several
  · exact absurd several (Nat.lt_irrefl 1)
  · exact (callExtreme_list callee direction (by rw [items])).symm

/-- Of the items of a list, the one that is kept comes first when they are sorted. -/
theorem extreme_is_first {r : Ref .list}
    (options : ∀ callee, sortOptions callee ⟨none, false⟩ keywords m = .ok ⟨none, reverse⟩ m)
    (filled : m.heap.list r ≠ #[]) (sortable : m.heap.Sortable (m.heap.list r).toList)
    (callee : String) :
    ∃ v s m', Builtin.callExtreme callee (wanted reverse) ⟨[.list r], []⟩ m = .ok v m ∧
      Builtin.call caller .sorted ⟨[.list r], keywords⟩ m = .ok (.list s) m' ∧
      (m'.heap.list s)[0]? = some v := by
  obtain ⟨first, rest, items⟩ : ∃ first rest, (m.heap.list r).toList = first :: rest :=
    List.exists_cons_of_ne_nil (by simpa using filled)
  have alone := Leads.singleton (m.heap.rank (wanted reverse) (m.heap.list r).toList) first
  obtain ⟨best, kept, leads⟩ := run_extreme sortable (show _ = [first] ++ rest from items) alone
  have keyed : (m.heap.list r).toList.mapM (sortKey caller none) m = _ := run_sortKey_none _
  obtain ⟨out, arranged, runs⟩ := sorted_arranged options keyed sortable
  obtain _ | ⟨x, out⟩ := out
  · simpa [items] using arranged.alike.length_eq
  have leads' : Leads (m.heap.rank (wanted reverse) (m.heap.list r).toList) x.1 _ :=
    Leads.map (f := Prod.fst) arranged.leads
  rw [List.map_fst_zip (Nat.le_refl _)] at leads'
  obtain rfl := leads.unique leads'
  have same : x.1 = x.2 := by
    have mem := arranged.leads.mem
    rw [List.zip, List.zipWith_self] at mem
    obtain ⟨v, -, rfl⟩ := List.mem_map.1 mem
    rfl
  refine ⟨x.1, ⟨m.heap.lists.size⟩, _, ?_, run_bind (runs "sorted") newList, ?_⟩
  · rw [callExtreme_list callee _ items, kept]
  · simp [Heap.list, same]

/-- The least and the greatest item of a list come first when the list is sorted upwards and downwards,
the very same of several equal ones; and several arguments are compared as the items of a list. -/
theorem extremes_come_first_when_sorted (caller : Caller) {r : Ref .list} (filled : m.heap.list r ≠ #[])
    (exact : ∀ v ∈ m.heap.list r, m.heap.Exact v)
    (orderable : (m.heap.list r).toList.Pairwise fun v w =>
      m.heap.Orderable v w ∧ m.heap.Orderable w v) :
    (∃ v s m', Builtin.call caller .min ⟨[.list r], []⟩ m = .ok v m ∧
      Builtin.call caller .sorted ⟨[.list r], []⟩ m = .ok (.list s) m' ∧
      (m'.heap.list s)[0]? = some v) ∧
    (∃ v s m', Builtin.call caller .max ⟨[.list r], []⟩ m = .ok v m ∧
      Builtin.call caller .sorted ⟨[.list r], [("reverse", .bool true)]⟩ m = .ok (.list s) m' ∧
      (m'.heap.list s)[0]? = some v) ∧
    ∀ (s : Ref .list) (arguments : List Value), 2 ≤ arguments.length →
      m.heap.list s = arguments.toArray →
      Builtin.call caller .min ⟨arguments, []⟩ m = Builtin.call caller .min ⟨[.list s], []⟩ m ∧
      Builtin.call caller .max ⟨arguments, []⟩ m = Builtin.call caller .max ⟨[.list s], []⟩ m := by
  have sortable : m.heap.Sortable (m.heap.list r).toList := ⟨by simpa using exact, orderable⟩
  have upwards (callee) : sortOptions callee ⟨none, false⟩ [] m = .ok ⟨none, false⟩ m := rfl
  have downwards (callee) :
      sortOptions callee ⟨none, false⟩ [("reverse", .bool true)] m = .ok ⟨none, true⟩ m := rfl
  refine ⟨?_, ?_, fun s arguments several items => ⟨?_, ?_⟩⟩
  · exact extreme_is_first upwards filled sortable "min"
  · exact extreme_is_first downwards filled sortable "max"
  · exact callExtreme_arguments "min" .lt several items
  · exact callExtreme_arguments "max" .gt several items

theorem first_of_equal_items_is_the_least :
    let m : Machine := { Machine.fresh with heap := { Heap.empty with
      lists := #[#[.int 2, .bool true, .int 1]] } }
    Builtin.call ⟨Evaluator.call 5, 5⟩ .min ⟨[.list ⟨0⟩], []⟩ m = .ok (.bool true) m ∧
      ∃ s m', Builtin.call ⟨Evaluator.call 5, 5⟩ .sorted ⟨[.list ⟨0⟩], []⟩ m = .ok (.list s) m' ∧
        (m'.heap.list s)[0]? = some (.bool true) := by
  intro m
  have sortable : m.heap.Sortable [.int 2, .bool true, .int 1] := .of_numbers (by simp [Value.asInt?])
  obtain ⟨⟨v, s, m', least, sorts, first⟩, -⟩ :=
    extremes_come_first_when_sorted (m := m) (r := ⟨0⟩) ⟨Evaluator.call 5, 5⟩ nofun
      (fun v mem => sortable.exact v (Array.mem_toList_iff.2 mem)) sortable.orderable
  have computed : Builtin.call ⟨Evaluator.call 5, 5⟩ .min ⟨[.list ⟨0⟩], []⟩ m = .ok (.bool true) m := rfl
  cases least.symm.trans computed
  exact ⟨computed, s, m', sorts, first⟩

end Eval

end Console
