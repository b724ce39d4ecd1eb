import Console.Proofs.Evaluator.Builtins
import Console.Proofs.Heap.Acyclic

/-!
# Operations on lists and dicts

Each operation makes sure of its arguments, of what is hashable and of what it looks for before it
changes anything, and then changes it all at once. So one that fails leaves the machine as it was, if no
method is called to write an argument into the message.
-/

namespace Console

namespace Arguments

variable {args : Arguments} {callee : String}

theorem positional_of_shaped {α : Type} {shape? : List Value → Except Arity α} {a : α}
    (given : args.shaped callee shape? = .ok a) : shape? args.positional = .ok a := by
  rw [shaped, withoutKeywords] at given
  split at given
  · simp only [bind, Except.bind] at given
    split at given
    · next shape =>
      cases given
      exact shape
    · cases given
  · cases given

theorem mem_of_one {v : Value} (given : args.one callee = .ok v) : v ∈ args.positional := by
  have shape := positional_of_shaped given
  split at shape
  · next found => cases shape; rw [found]; exact .head _
  · cases shape

theorem mem_of_oneOrTwo {given : Value × Option Value} (shaped : args.oneOrTwo callee = .ok given) :
    given.1 ∈ args.positional := by
  have shape := positional_of_shaped shaped
  split at shape
  · cases shape
  · next found => cases shape; rw [found]; exact .head _
  · next found => cases shape; rw [found]; exact .head _
  · cases shape

end Arguments

/-- The value is no instance of a class with a method that writes it. -/
def Heap.WrittenPlainly (h : Heap) (v : Value) : Prop :=
  ∀ r, v = .instance r → h.classAttr? (h.inst r).cls "__repr__" = none

namespace Eval

variable {α β : Type} {m m' : Machine} {caller : Caller} {x : Eval α} {f : α → Eval β}

/-- On this machine the evaluation changes nothing, however it ends. -/
abbrev Quiet (m : Machine) (x : Eval α) : Prop := Agree (· = m) x x

theorem Quiet.bind_ask {question : Heap → α} (next : Quiet m (f (question m.heap))) :
    Quiet m (ask question >>= f) := by
  refine AgreeWith.bind (Q := (· = question m.heap)) (AgreeWith.ask ?_) ?_
  · rintro _ rfl
    rfl
  · rintro _ rfl
    exact next

/-- Where no method is called, values are written without a change. -/
theorem Quiet.reprWithin {v : Value} (plain : m.heap.Throughout m.heap.WrittenPlainly v) (depth : Nat)
    (around : List Container) : Quiet m (Eval.reprWithin caller depth around v) := by
  induction depth generalizing around v with
  | zero => exact Agree.exhausted
  | succ depth ih =>
    unfold Eval.reprWithin
    split
    · split
      · exact Agree.pure _
      · refine .bind_ask ((Agree.mapM_of_mem fun w mem => ?_).bind fun _ => Agree.pure _)
        exact ih (plain.part mem) _
    · refine .bind_ask ((Agree.mapM_of_mem fun w mem => ?_).bind fun _ => Agree.pure _)
      exact ih (plain.part mem) _
    · split
      · exact Agree.pure _
      · refine .bind_ask ((Agree.mapM_of_mem fun e mem => ?_).bind fun _ => Agree.pure _)
        refine (ih (plain.part (Heap.key_mem_parts mem)) _).attempt.bind fun key => ?_
        refine (ih (plain.part (Heap.value_mem_parts mem)) _).attempt.bind fun value => ?_
        exact (Agree.ofExcept key).bind fun _ => (Agree.ofExcept value).bind fun _ => Agree.pure _
    · refine .bind_ask ?_
      rw [plain.here _ rfl, if_neg (by simp)]
      exact Agree.ask _
    · exact Agree.ask _

theorem Quiet.repr {v : Value} (plain : m.heap.Throughout m.heap.WrittenPlainly v) :
    Quiet m (Eval.repr caller v) := by
  rw [repr_eq]
  exact (Agree.ask _).bind fun depth => Quiet.reprWithin plain depth []

theorem Quiet.keyMissing {v : Value} (plain : m.heap.Throughout m.heap.WrittenPlainly v) :
    Quiet m (Eval.keyMissing (α := α) caller v) :=
  (Quiet.repr plain).attempt.bind fun text => by cases text <;> exact Agree.fail _

/-- Without a key function items are sorted by themselves. -/
theorem Quiet.sorted {keywords : List (String × Value)} (callee : String) (items : Array Value)
    (keyless : ∀ v, ("key", v) ∈ keywords → v.isNone = true) :
    Quiet m (Eval.sorted caller callee items keywords) := by
  have options (given : SortOptions) (plain : given.key = none) :
      AgreeWith (· = m) (fun o => o.key = Option.none) (sortOptions callee given keywords)
        (sortOptions callee given keywords) := by
    induction keywords generalizing given with
    | nil => exact .pure plain
    | cons k keywords ih =>
      have others := ih fun v mem => keyless v (.tail _ mem)
      unfold Eval.sortOptions
      split
      · next key =>
        rw [keyless k.2 (by rw [← key]; exact .head _)]
        exact others given plain
      · split
        · exact AgreeWith.bind (Agree.isTrue _) fun reverse _ => others _ plain
        · exact .throw _
  refine (options ⟨none, false⟩ rfl).bind fun given plain => ?_
  rw [plain]
  refine (Agree.mapM (fun item => (Agree.pure item).bind fun _ => Agree.pure _) _).bind fun keyed => ?_
  refine (Agree.ask _).bind fun before => ?_
  split
  · exact Agree.pure _
  · exact Agree.throw _

/-- On this machine the evaluation changes nothing unless it succeeds. -/
def AllOrNothing (m : Machine) (x : Eval α) : Prop := ∀ stop m', x m = .error stop m' → m' = m

/-- The evaluation succeeds on all machines. -/
def Succeeds (x : Eval α) : Prop := ∀ m, ∃ a m', x m = .ok a m'

theorem Succeeds.bind (first : Succeeds x) (next : ∀ a, Succeeds (f a)) : Succeeds (x >>= f) := by
  intro m
  obtain ⟨a, m', run⟩ := first m
  rw [run_bind run]
  exact next a m'

theorem Succeeds.mapM (each : ∀ a, Succeeds (f a)) (as : List α) : Succeeds (as.mapM f) := by
  induction as with
  | nil => exact fun m => ⟨[], m, rfl⟩
  | cons a as ih =>
    rw [List.mapM_cons]
    exact (each a).bind fun b => ih.bind fun bs m => ⟨b :: bs, m, rfl⟩

namespace AllOrNothing

theorem of_succeeds (succeeds : Succeeds x) : AllOrNothing m x := by
  intro stop m' run
  obtain ⟨a, m'', run'⟩ := succeeds m
  cases run'.symm.trans run

theorem of_quiet (quiet : Quiet m x) : AllOrNothing m x := by
  intro stop m' run
  have left := (quiet m rfl).2
  rwa [run] at left

/-- What changes nothing may come first. -/
theorem bind_of {Q : α → Prop} (quiet : AgreeWith (· = m) Q x x)
    (next : ∀ a, Q a → AllOrNothing m (f a)) : AllOrNothing m (x >>= f) := by
  intro stop m' run
  have left := (quiet m rfl).2
  cases first : x m with
  | error _ _ =>
    rw [first] at left
    simp only [Bind.bind, EStateM.bind, first, EStateM.Result.error.injEq] at run
    exact run.2 ▸ left
  | ok a m'' =>
    rw [first] at left
    obtain ⟨value, rfl⟩ := left
    rw [run_bind first] at run
    exact next a value stop m' run

theorem bind (quiet : Quiet m x) (next : ∀ a, AllOrNothing m (f a)) : AllOrNothing m (x >>= f) :=
  bind_of quiet fun a _ => next a

/-- What always succeeds may come last. -/
theorem andThen (first : AllOrNothing m x) (next : ∀ a, Succeeds (f a)) : AllOrNothing m (x >>= f) := by
  intro stop m' run
  cases here : x m with
  | error _ _ =>
    simp only [Bind.bind, EStateM.bind, here, EStateM.Result.error.injEq] at run
    exact run.2 ▸ first _ _ here
  | ok a m'' =>
    rw [run_bind here] at run
    obtain ⟨b, m₂, succeeds⟩ := next a m''
    cases succeeds.symm.trans run

theorem fail (fault : Fault) : AllOrNothing m (Eval.fail fault : Eval α) := of_quiet (Agree.fail fault)

theorem check {c : Prop} [Decidable c] {fault : Fault} (rest : AllOrNothing m x) :
    AllOrNothing m (if c then Eval.fail fault >>= fun _ : PUnit => x else x) := by
  split
  · exact bind (Agree.fail fault) fun _ => rest
  · exact rest

theorem ofFault {Q : α → Prop} {result : Except Fault α} (value : ∀ a, result = .ok a → Q a) :
    AgreeWith (· = m) Q (Eval.ofFault result) (Eval.ofFault result) := by
  cases result with
  | ok a => exact .pure (value a rfl)
  | error f => exact .throw _

theorem changeList (r : Ref .list) (change : Array Value → Array Value) (a : α) :
    AllOrNothing m (do Eval.changeList r change; return a) := of_succeeds fun _ => ⟨_, _, rfl⟩

theorem changeDict (r : Ref .dict) (change : Array (Value × Value) → Array (Value × Value)) (a : α) :
    AllOrNothing m (do Eval.changeDict r change; return a) := of_succeeds fun _ => ⟨_, _, rfl⟩

theorem newList (items : Array Value) : AllOrNothing m (Eval.newList items) :=
  of_succeeds fun _ => ⟨_, _, rfl⟩

theorem listMethod (r : Ref .list) (method : ListMethod) (args : Arguments)
    (plain : ∀ v ∈ args.positional, m.heap.Throughout m.heap.WrittenPlainly v)
    (keyless : method = .sort → ∀ v, ("key", v) ∈ args.keywords → v.isNone = true) :
    AllOrNothing m (method.call caller r args) := by
  cases method with
  | append => exact bind (Agree.ofFault _) fun item => changeList r _ _
  | count =>
    exact of_quiet <| (Agree.ofFault _).bind fun _ => (Agree.ask _).bind fun _ =>
      (Agree.ofDepth _).bind fun _ => Agree.pure _
  | extend => exact bind (Agree.ofFault _) fun v => bind (Agree.items v) fun more => changeList r _ _
  | index =>
    refine bind_of (Q := (· ∈ args.positional)) (ofFault fun v => Arguments.mem_of_one) fun v given =>
      bind (Agree.placeOf? r v) fun found => ?_
    cases found with
    | some i => exact of_quiet (Agree.pure _)
    | none => exact of_quiet ((Quiet.repr (plain v given)).bind fun text => Agree.fail _)
  | insert =>
    refine bind (Agree.ofFault _) fun ⟨position, item⟩ => ?_
    dsimp only
    cases position.asInt? with
    | none => exact fail _
    | some n => exact changeList r _ _
  | pop =>
    refine bind (Agree.ofFault _) fun position => bind (Agree.ask _) fun all => ?_
    split
    · cases position with
      | none => exact bind (Agree.pure _) fun _ => changeList r _ _
      | some v => exact bind (Agree.ofFault _) fun _ => changeList r _ _
    · exact fail _
  | remove =>
    refine bind (Agree.ofFault _) fun v => bind (Agree.placeOf? r v) fun found => ?_
    cases found with
    | some i => exact changeList r _ _
    | none => exact fail _
  | reverse => exact bind (Agree.ofFault _) fun _ => changeList r _ _
  | sort =>
    exact check <| bind (Agree.ask _) fun items =>
      bind (Quiet.sorted "sort" items (keyless rfl)) fun inOrder => changeList r _ _

theorem dictMethod (r : Ref .dict) (method : DictMethod) (args : Arguments)
    (plain : ∀ v ∈ args.positional, m.heap.Throughout m.heap.WrittenPlainly v) :
    AllOrNothing m (method.call caller r args) := by
  cases method with
  | items =>
    refine bind (Agree.ofFault _) fun _ => bind (Agree.ask _) fun entries => of_succeeds ?_
    rw [Array.mapM_eq_mapM_toList, bind_map_left]
    refine (Succeeds.mapM (fun e m => ⟨_, _, rfl⟩) _).bind fun pairs m => ⟨_, _, rfl⟩
  | keys | values => exact bind (Agree.ofFault _) fun _ => bind (Agree.ask _) fun _ => newList _
  | get => exact of_quiet <| (Agree.ofFault _).bind fun _ => (Agree.lookup? _ _).bind fun _ => Agree.pure _
  | setdefault =>
    refine bind (Agree.ofFault _) fun given => bind (Agree.lookup? _ _) fun found => ?_
    cases found with
    | some v => exact of_quiet (Agree.pure v)
    | none => exact changeDict r _ _
  | pop =>
    refine bind_of (Q := fun given => given.1 ∈ args.positional)
      (ofFault fun v => Arguments.mem_of_oneOrTwo) fun ⟨key, default⟩ given =>
        bind (Agree.placeOfKey? r key) fun found => ?_
    cases found with
    | some i => exact bind (Agree.ask _) fun _ => changeDict r _ _
    | none =>
      cases default with
      | some default => exact of_quiet (Agree.pure default)
      | none => exact of_quiet (Quiet.keyMissing (plain key given))
  | update =>
    have puts (given : Array (Value × Value)) : AllOrNothing m (do
        let more := given.toList ++ keywordPairs args.keywords
        setDict r (← insertAll (← ask (·.dict r)) more)
        return Value.none) :=
      bind (Agree.ask _) fun _ => bind (Agree.insertAll _ _) fun entries => of_succeeds fun _ => ⟨_, _, rfl⟩
    change AllOrNothing m (DictMethod.callUpdate r args)
    unfold DictMethod.callUpdate
    split
    · exact bind (Agree.pure _) puts
    · exact bind (Agree.pairs _) puts
    · exact bind (Agree.fail _) puts

theorem setItem (container index v : Value) : AllOrNothing m (Eval.setItem container index v) := by
  unfold Eval.setItem
  split
  · exact bind (Agree.ask _) fun _ => bind (Agree.ofFault _) fun _ => of_succeeds fun _ => ⟨_, _, rfl⟩
  · exact bind (Agree.checkHashable _) fun _ => bind (Agree.ask _) fun _ =>
      bind (Agree.insertInto _ _ _) fun _ => of_succeeds fun _ => ⟨_, _, rfl⟩
  · exact fail _

theorem deleteItem (container : Value) {index : Value}
    (plain : m.heap.Throughout m.heap.WrittenPlainly index) :
    AllOrNothing m (Eval.deleteItem caller container index) := by
  unfold Eval.deleteItem
  split
  · exact bind (Agree.ask _) fun _ => bind (Agree.ofFault _) fun _ => of_succeeds fun _ => ⟨_, _, rfl⟩
  · refine bind (Agree.placeOfKey? _ _) fun found => ?_
    cases found with
    | some i => exact of_succeeds fun _ => ⟨_, _, rfl⟩
    | none => exact of_quiet (Quiet.keyMissing plain)
  · exact fail _

end AllOrNothing

end Eval

/-- What is done to a list or a dict. -/
inductive Mutator
  | listMethod (r : Ref .list) (method : ListMethod) (args : Arguments)
  | dictMethod (r : Ref .dict) (method : DictMethod) (args : Arguments)
  | setItem (container index v : Value)
  | deleteItem (container index : Value)
  /-- An augmented assignment with `+`. -/
  | extend (r : Ref .list) (v : Value)

namespace Mutator

open Eval

variable {m : Machine} {caller : Caller}

def run (caller : Caller) : Mutator → Eval Value
  | listMethod r method args => method.call caller r args
  | dictMethod r method args => method.call caller r args
  | setItem container index v => do Eval.setItem container index v; return .none
  | deleteItem container index => do Eval.deleteItem caller container index; return .none
  | extend r v => Eval.augment caller .add (.list r) v

/-- The values that the operation is given. -/
def arguments : Mutator → List Value
  | listMethod _ _ args | dictMethod _ _ args => args.positional ++ args.keywords.map (·.2)
  | setItem _ index v => [index, v]
  | deleteItem _ index => [index]
  | extend _ v => [v]

/-- The operation is given no function to sort by. -/
def Keyless : Mutator → Prop
  | listMethod _ .sort args => ∀ v, ("key", v) ∈ args.keywords → v.isNone = true
  | _ => True

/-- An operation on a list or a dict that fails changes nothing, in no list and in no dict and nowhere
else, if its arguments are written without calling a method, and are not sorted by a function. -/
theorem failing_mutators_change_nothing (caller : Caller) (op : Mutator) (m : Machine)
    (plain : ∀ v ∈ op.arguments, m.heap.Throughout m.heap.WrittenPlainly v) (keyless : op.Keyless)
    {stop : Stop} {m' : Machine} (failed : op.run caller m = .error stop m') : m' = m := by
  have whole : AllOrNothing m (op.run caller) := by
    cases op with
    | listMethod r method args =>
      refine .listMethod r method args (fun v mem => plain v (List.mem_append_left _ mem)) ?_
      rintro rfl
      exact keyless
    | dictMethod r method args =>
      exact .dictMethod r method args fun v mem => plain v (List.mem_append_left _ mem)
    | setItem container index v =>
      exact (AllOrNothing.setItem container index v).andThen fun _ m => ⟨_, m, rfl⟩
    | deleteItem container index =>
      exact (AllOrNothing.deleteItem container (plain index (.head _))).andThen fun _ m => ⟨_, m, rfl⟩
    | extend r v => exact .bind (Agree.items v) fun more => .changeList r _ _
  exact whole stop m' failed

theorem update_with_a_broken_pair_changes_nothing :
    let caller : Caller := ⟨fun _ _ => exhausted, 0⟩
    let m : Machine := { Machine.fresh with heap := { Heap.empty with
      lists := #[#[.tuple ⟨0⟩, .int 3]]
      tuples := #[#[.str "a", .int 1]]
      dicts := #[#[(.str "a", .none)]] } }
    let op : Mutator := .dictMethod ⟨0⟩ .update ⟨[.list ⟨0⟩], [("b", .int 2)]⟩
    (∀ v ∈ op.arguments, m.heap.Throughout m.heap.WrittenPlainly v) ∧ op.Keyless ∧
      ∃ m', op.run caller m = .error (.raised (Fault.notIterable "int").exception) m' ∧ m' = m := by
  intro caller m op
  have single (v : Value) (single : v.isContainer = false) (plain : m.heap.WrittenPlainly v) :
      m.heap.Throughout m.heap.WrittenPlainly v :=
    .of_parts plain (by simp [Heap.parts_of_single single])
  have int (n : Int64) := single (.int n) rfl nofun
  have pair : m.heap.Throughout m.heap.WrittenPlainly (.tuple ⟨0⟩) := by
    refine .of_parts nofun (List.forall_mem_cons.2 ⟨?_, List.forall_mem_singleton.2 (int 1)⟩)
    exact single (.str "a") rfl nofun
  have pairs : m.heap.Throughout m.heap.WrittenPlainly (.list ⟨0⟩) :=
    .of_parts nofun (List.forall_mem_cons.2 ⟨pair, List.forall_mem_singleton.2 (int 3)⟩)
  have plain : ∀ v ∈ op.arguments, m.heap.Throughout m.heap.WrittenPlainly v :=
    List.forall_mem_cons.2 ⟨pairs, List.forall_mem_singleton.2 (int 2)⟩
  obtain ⟨m', run⟩ : ∃ m', op.run caller m =
      .error (.raised (Fault.notIterable "int").exception) m' := ⟨_, rfl⟩
  exact ⟨plain, trivial, m', run, failing_mutators_change_nothing caller op m plain trivial run⟩

end Mutator

end Console
