import Console.Call
import Console.Proofs.Evaluator.Bodies

/-!
# Arguments and parameters

A call binds each parameter once, to a positional value, to the value of a keyword or to its default, or
it fails before the body is run.
-/

namespace Console

namespace Call

/-- The slot after keywords, which fill it only where it is empty. -/
def Slot.fill (keywords : Bindings) (s : Slot) : Slot :=
  { s with value := s.value.or (keywords.get? s.name) }

/-- What a call has for the parameter in a place: a positional value, a keyword's or the default. -/
def source (f : FunctionObject) (args : Arguments) (i : Nat) (p : Parameter) : Option Value :=
  (args.positional[i]?.or (Bindings.get? args.keywords p.name)).or f.defaults[i]?.join

/-- Positional values have a parameter each, and keywords name different ones of the other parameters. -/
structure Fits (f : FunctionObject) (args : Arguments) : Prop where
  room : args.positional.length ≤ f.parameters.length
  once : (args.keywords.map (·.1)).Nodup
  named : ∀ name ∈ args.keywords.map (·.1), ∃ (i : Nat) (p : Parameter),
    f.parameters[i]? = some p ∧ args.positional.length ≤ i ∧ p.name = name

/-- The arguments fit, and the parameters that are left have defaults. -/
structure Bindable (f : FunctionObject) (args : Arguments) : Prop extends Fits f args where
  defaulted : ∀ (i : Nat) (p : Parameter), f.parameters[i]? = some p → args.positional.length ≤ i →
    p.name ∉ args.keywords.map (·.1) → ∃ v, f.defaults[i]? = some (some v)

/-- A scope binds the parameters of a function and nothing else, each to what the call has for it. -/
structure Bound (f : FunctionObject) (args : Arguments) (b : Bindings) : Prop where
  names : b.names = f.parameters.map (·.name)
  positional : ∀ (i : Nat) (p : Parameter) (v : Value), f.parameters[i]? = some p →
    args.positional[i]? = some v → b.get? p.name = some v
  keyword : ∀ name v, (name, v) ∈ args.keywords → b.get? name = some v
  default : ∀ (i : Nat) (p : Parameter) (v : Value), f.parameters[i]? = some p →
    args.positional.length ≤ i → p.name ∉ args.keywords.map (·.1) → f.defaults[i]? = some (some v) →
    b.get? p.name = some v

/-- Each parameter in turn is bound to what the call has for it. -/
def Sourced (f : FunctionObject) (args : Arguments) (b : Bindings) : Prop :=
  b.map (fun e => (e.1, some e.2)) = f.parameters.mapIdx fun i p => (p.name, source f args i p)

theorem bind_eq_ok {α β : Type} {x : Except Fault α} {rest : α → Except Fault β} {b : β} :
    x >>= rest = .ok b ↔ ∃ a, x = .ok a ∧ rest a = .ok b := by
  cases x with
  | ok a => exact ⟨fun done => ⟨a, rfl, done⟩, fun ⟨_, rfl, done⟩ => done⟩
  | error e => exact ⟨nofun, nofun⟩

section

variable {callee : String} {slots filled : List Slot} {keywords : Bindings} {b : Bindings}

theorem fillPositional_eq (ps : List Parameter) (vs : List Value) :
    fillPositional ps vs = ps.mapIdx fun i p => ⟨p.name, vs[i]?⟩ := by
  induction ps generalizing vs with
  | nil => rfl
  | cons p ps ih => cases vs <;> simp [fillPositional, ih]

theorem names_fillPositional (ps : List Parameter) (vs : List Value) :
    (fillPositional ps vs).map (·.name) = ps.map (·.name) := by
  rw [fillPositional_eq]
  exact List.ext_getElem? fun i => by simp [Function.comp_def]

@[simp] theorem fill_name (s : Slot) : (s.fill keywords).name = s.name := rfl

@[simp] theorem fill_nil (s : Slot) : s.fill [] = s := by
  simp [Slot.fill, Bindings.get?]

theorem fill_cons (keyword : String) (v : Value) (s : Slot) :
    s.fill ((keyword, v) :: keywords) = (s.fill [(keyword, v)]).fill keywords := by
  unfold Slot.fill
  by_cases named : keyword = s.name
  · simp [Bindings.get?, named]
  · simp [Bindings.get?, named]

theorem fill_of_ne {keyword : String} {s : Slot} (other : s.name ≠ keyword) (v : Value) :
    s.fill [(keyword, v)] = s := by
  simp [Slot.fill, Bindings.get?, other.symm]

/-- A slot that is still empty was so before and has another name. -/
theorem fill_eq_empty {keyword name : String} {v : Value} {s : Slot} :
    s.fill [(keyword, v)] = ⟨name, none⟩ ↔ s = ⟨name, none⟩ ∧ keyword ≠ name := by
  obtain ⟨own, value⟩ := s
  by_cases named : keyword = own
  · grind [Slot.fill, Bindings.get?]
  · grind [Slot.fill, Bindings.get?]

/-- A keyword goes to the empty slot of its name. -/
theorem fillKeyword_eq_ok (distinct : (slots.map (·.name)).Nodup) (keyword : String) (v : Value) :
    fillKeyword callee keyword v slots = .ok filled ↔
      ⟨keyword, none⟩ ∈ slots ∧ filled = slots.map (·.fill [(keyword, v)]) := by
  induction slots generalizing filled with
  | nil => simp [fillKeyword]
  | cons s slots ih =>
    obtain ⟨fresh, distinct⟩ := List.nodup_cons.1 distinct
    rw [fillKeyword]
    by_cases named : s.name = keyword
    · subst named
      have others : slots.map (·.fill [(s.name, v)]) = slots := by
        refine (List.map_congr_left fun t mem => fill_of_ne (fun same => ?_) v).trans (List.map_id _)
        exact fresh (List.mem_map.2 ⟨t, mem, same⟩)
      have absent : ⟨s.name, none⟩ ∉ slots := fun mem => fresh (List.mem_map.2 ⟨_, mem, rfl⟩)
      rw [if_pos rfl, List.map_cons, others]
      obtain ⟨name, value⟩ := s
      cases value with
      | none => simp [Slot.fill, Bindings.get?, eq_comm]
      | some w => simpa using fun mem => absurd mem absent
    · have skipped : (⟨keyword, none⟩ : Slot) ≠ s := fun same => named (same ▸ rfl)
      rw [if_neg named, bind_eq_ok, List.map_cons, fill_of_ne named, List.mem_cons, or_iff_right skipped]
      constructor
      · rintro ⟨rest, found, same⟩
        obtain ⟨vacant, rfl⟩ := (ih distinct).1 found
        exact ⟨vacant, (Except.ok.inj same).symm⟩
      · rintro ⟨vacant, rfl⟩
        exact ⟨_, (ih distinct).2 ⟨vacant, rfl⟩, rfl⟩

/-- Keywords go to empty slots of their names, each to one of its own. -/
theorem fillKeywords_eq_ok (distinct : (slots.map (·.name)).Nodup) :
    keywords.foldlM (fun slots k => fillKeyword callee k.1 k.2 slots) slots = .ok filled ↔
      keywords.names.Nodup ∧ (∀ name ∈ keywords.names, ⟨name, none⟩ ∈ slots) ∧
      filled = slots.map (·.fill keywords) := by
  induction keywords generalizing slots with
  | nil => simp [Bindings.names, pure, Except.pure, eq_comm]
  | cons k keywords ih =>
    obtain ⟨keyword, v⟩ := k
    -- what the first keyword filled is no longer empty for the others, so none may have its name
    have kept : ((slots.map (·.fill [(keyword, v)])).map (·.name)).Nodup := by
      simpa [Function.comp_def] using distinct
    have twice : (slots.map (·.fill [(keyword, v)])).map (·.fill keywords) =
        slots.map (·.fill ((keyword, v) :: keywords)) := by
      simp [Function.comp_def, ← fill_cons]
    have left (name : String) : ⟨name, none⟩ ∈ slots.map (·.fill [(keyword, v)]) ↔
        ⟨name, none⟩ ∈ slots ∧ keyword ≠ name := by
      simp [fill_eq_empty]
    rw [List.foldlM_cons, bind_eq_ok]
    simp only [fillKeyword_eq_ok distinct, and_assoc, exists_and_left, exists_eq_left, ih kept, twice,
      left]
    simp only [Bindings.names, List.map_cons, List.nodup_cons, List.forall_mem_cons, imp_and, forall_and]
    constructor
    · rintro ⟨vacant, once, ⟨others, different⟩, rfl⟩
      exact ⟨⟨fun mem => different _ mem rfl, once⟩, ⟨vacant, others⟩, rfl⟩
    · rintro ⟨⟨fresh, once⟩, ⟨vacant, others⟩, rfl⟩
      exact ⟨vacant, once, ⟨others, fun name mem same => fresh (same ▸ mem)⟩, rfl⟩

/-- Every slot comes out with its value or its default. -/
theorem fillDefaults_eq_ok {defaults : List (Option Value)} (paired : defaults.length = slots.length) :
    fillDefaults callee slots defaults = .ok b ↔
      b.map (fun e => (e.1, some e.2)) =
        slots.mapIdx fun i s => (s.name, s.value.or defaults[i]?.join) := by
  induction slots generalizing defaults b with
  | nil => cases b <;> simp [fillDefaults]
  | cons s slots ih =>
    obtain ⟨default, defaults, rfl⟩ := List.exists_cons_of_length_eq_add_one paired
    -- each slot has a default, whether it needs it or not
    simp only [fillDefaults, List.mapIdx_cons, List.getElem?_cons_zero, List.getElem?_cons_succ,
      Option.join_some]
    cases s.value.or default with
    | none =>
      cases b with
      | nil => simp
      | cons e rest => simp
    | some v =>
      simp only [bind_eq_ok, ih (Nat.succ.inj paired)]
      cases b with
      | nil => simp [pure, Except.pure]
      | cons e rest =>
        simp [pure, Except.pure, Prod.ext_iff, and_comm, @eq_comm _ s.name, @eq_comm _ v]

end

section

variable {f : FunctionObject} {args : Arguments} {b : Bindings}

theorem vacant_iff {name : String} : ⟨name, none⟩ ∈ fillPositional f.parameters args.positional ↔
    ∃ (i : Nat) (p : Parameter),
      f.parameters[i]? = some p ∧ args.positional.length ≤ i ∧ p.name = name := by
  rw [fillPositional_eq, List.mem_mapIdx]
  constructor
  · rintro ⟨i, inside, same⟩
    obtain ⟨named, free⟩ := Slot.mk.inj same
    exact ⟨i, _, List.getElem?_eq_getElem inside, List.getElem?_eq_none_iff.1 free, named⟩
  · rintro ⟨i, p, found, behind, rfl⟩
    obtain ⟨inside, rfl⟩ := List.getElem?_eq_some_iff.1 found
    exact ⟨i, inside, by rw [List.getElem?_eq_none behind]⟩

/-- A call is bound if its arguments fit and every parameter has a source. -/
theorem bindArguments_eq_ok (distinct : (f.parameters.map (·.name)).Nodup) :
    bindArguments f args = .ok b ↔ Fits f args ∧ Sourced f args b := by
  have slots : ((fillPositional f.parameters args.positional).map (·.name)).Nodup := by
    rwa [names_fillPositional]
  have sources : (((fillPositional f.parameters args.positional).map (·.fill args.keywords)).mapIdx
      fun i s => (s.name, s.value.or f.defaults[i]?.join)) =
      f.parameters.mapIdx fun i p => (p.name, source f args i p) := by
    rw [fillPositional_eq]
    exact List.ext_getElem? fun i => by simp [Function.comp_def, Slot.fill, source]
  unfold bindArguments
  by_cases room : args.positional.length ≤ f.parameters.length
  · rw [if_neg (Nat.not_lt.2 room)]
    have paired : f.defaults.length =
        ((fillPositional f.parameters args.positional).map (·.fill args.keywords)).length := by
      rw [f.paired, fillPositional_eq, List.length_map, List.length_mapIdx]
    simp only [bind_eq_ok, fillKeywords_eq_ok slots, vacant_iff]
    constructor
    · rintro ⟨_, ⟨once, named, rfl⟩, filled⟩
      exact ⟨⟨room, once, named⟩, ((fillDefaults_eq_ok paired).1 filled).trans sources⟩
    · rintro ⟨⟨-, once, named⟩, filled⟩
      exact ⟨_, ⟨once, named, rfl⟩, (fillDefaults_eq_ok paired).2 (filled.trans sources.symm)⟩
  · rw [if_pos (Nat.lt_of_not_le room)]
    exact ⟨nofun, fun ⟨fits, _⟩ => absurd fits.room room⟩

theorem source_of_positional {i : Nat} {p : Parameter} {v : Value}
    (given : args.positional[i]? = some v) : source f args i p = some v := by
  simp [source, given]

theorem source_of_keyword {i : Nat} {p : Parameter} {v : Value} (behind : args.positional.length ≤ i)
    (once : (args.keywords.map (·.1)).Nodup) (given : (p.name, v) ∈ args.keywords) :
    source f args i p = some v := by
  have found := Bindings.get?_of_mem once given
  simp [source, List.getElem?_eq_none behind, found]

theorem source_of_default {i : Nat} {p : Parameter} (behind : args.positional.length ≤ i)
    (unnamed : p.name ∉ args.keywords.map (·.1)) : source f args i p = f.defaults[i]?.join := by
  have missing : Bindings.get? args.keywords p.name = none := by
    rw [← Option.not_isSome_iff_eq_none, Bindings.isSome_get?]
    exact unnamed
  simp [source, List.getElem?_eq_none behind, missing]

namespace Sourced

variable (sourced : Sourced f args b)
include sourced

theorem names : b.names = f.parameters.map (·.name) := by
  refine List.ext_getElem? fun i => ?_
  have entry := congrArg (fun l => (l.map (·.1))[i]?) sourced
  simpa [Bindings.names, Function.comp_def] using entry

theorem entry {i : Nat} {p : Parameter} (found : f.parameters[i]? = some p) :
    ∃ v, b[i]? = some (p.name, v) ∧ source f args i p = some v := by
  have same := congrArg (·[i]?) sourced
  simp only [List.getElem?_map, List.getElem?_mapIdx, found, Option.map_some] at same
  obtain ⟨⟨name, v⟩, stands, same⟩ := Option.map_eq_some_iff.1 same
  obtain ⟨rfl, value⟩ := Prod.mk.inj same
  exact ⟨v, stands, value.symm⟩

theorem get? (distinct : (f.parameters.map (·.name)).Nodup) {i : Nat} {p : Parameter}
    (found : f.parameters[i]? = some p) : b.get? p.name = source f args i p := by
  obtain ⟨v, stands, value⟩ := sourced.entry found
  have once : b.names.Nodup := sourced.names ▸ distinct
  exact (Bindings.get?_of_mem once (List.mem_of_getElem? stands)).trans value.symm

end Sourced

theorem exists_sourced (given : ∀ (i : Nat) (p : Parameter), f.parameters[i]? = some p →
    ∃ v, source f args i p = some v) : ∃ b, Sourced f args b := by
  refine ⟨f.parameters.mapIdx fun i p => (p.name, (source f args i p).getD .none), ?_⟩
  refine List.ext_getElem? fun i => ?_
  simp only [List.getElem?_map, List.getElem?_mapIdx]
  cases found : f.parameters[i]? with
  | none => rfl
  | some p =>
    obtain ⟨v, value⟩ := given i p found
    simp [value]

/-- A call can be bound if its arguments fit and all that they leave has a default. -/
theorem bindable_iff (distinct : (f.parameters.map (·.name)).Nodup) :
    (∃ b, bindArguments f args = .ok b) ↔ Bindable f args := by
  constructor
  · rintro ⟨b, bound⟩
    obtain ⟨fits, sourced⟩ := (bindArguments_eq_ok distinct).1 bound
    refine ⟨fits, fun i p found behind unnamed => ?_⟩
    obtain ⟨v, -, value⟩ := sourced.entry found
    rw [source_of_default behind unnamed] at value
    exact ⟨v, Option.join_eq_some_iff.1 value⟩
  · intro bindable
    have given (i : Nat) (p : Parameter) (found : f.parameters[i]? = some p) :
        ∃ v, source f args i p = some v := by
      by_cases inside : i < args.positional.length
      · exact ⟨_, source_of_positional (List.getElem?_eq_getElem inside)⟩
      · have behind := Nat.not_lt.1 inside
        by_cases named : p.name ∈ args.keywords.map (·.1)
        · obtain ⟨⟨name, v⟩, mem, rfl⟩ := List.mem_map.1 named
          exact ⟨v, source_of_keyword behind bindable.once mem⟩
        · obtain ⟨v, stored⟩ := bindable.defaulted i p found behind named
          exact ⟨v, by rw [source_of_default behind named, stored]; rfl⟩
    obtain ⟨b, sourced⟩ := exists_sourced given
    exact ⟨b, (bindArguments_eq_ok distinct).2 ⟨bindable.toFits, sourced⟩⟩

theorem bound_of_ok (distinct : (f.parameters.map (·.name)).Nodup)
    (bound : bindArguments f args = .ok b) : Bound f args b := by
  obtain ⟨⟨-, once, named⟩, sourced⟩ := (bindArguments_eq_ok distinct).1 bound
  refine ⟨sourced.names, fun i p v found given => ?_, fun name v mem => ?_,
    fun i p v found behind unnamed stored => ?_⟩
  · exact (sourced.get? distinct found).trans (source_of_positional given)
  · obtain ⟨i, p, found, behind, rfl⟩ := named name (List.mem_map.2 ⟨_, mem, rfl⟩)
    exact (sourced.get? distinct found).trans (source_of_keyword behind once mem)
  · rw [sourced.get? distinct found, source_of_default behind unnamed, stored]
    rfl

end

/-- If there is no result, the fault is a type error. -/
def TypeChecked {α : Type} (x : Except Fault α) : Prop :=
  ∀ fault, x = .error fault → fault.kind = .typeError

theorem TypeChecked.bind {α β : Type} {x : Except Fault α} {rest : α → Except Fault β}
    (first : TypeChecked x) (next : ∀ a, TypeChecked (rest a)) : TypeChecked (x >>= rest) := by
  cases x with
  | ok a => exact next a
  | error e =>
    intro fault failed
    cases failed
    exact first e rfl

theorem TypeChecked.ok {α : Type} (a : α) : TypeChecked (.ok a) := nofun

theorem TypeChecked.error {α : Type} {fault : Fault} (kind : fault.kind = .typeError) :
    TypeChecked (.error fault : Except Fault α) := by
  rintro _ ⟨⟩
  exact kind

theorem typeChecked_fillKeyword (callee keyword : String) (v : Value) (slots : List Slot) :
    TypeChecked (fillKeyword callee keyword v slots) := by
  induction slots with
  | nil => exact .error rfl
  | cons s slots ih =>
    rw [fillKeyword]
    split
    · split
      · exact .error rfl
      · exact .ok _
    · exact ih.bind fun rest => .ok _

theorem typeChecked_fillDefaults (callee : String) (slots : List Slot) (defaults : List (Option Value)) :
    TypeChecked (fillDefaults callee slots defaults) := by
  induction slots generalizing defaults with
  | nil => exact .ok _
  | cons s slots ih =>
    cases defaults with
    | nil => exact .ok _
    | cons default defaults =>
      rw [fillDefaults]
      split
      · exact (ih _).bind fun rest => .ok _
      · exact .error rfl

theorem typeChecked_bindArguments (f : FunctionObject) (args : Arguments) :
    TypeChecked (bindArguments f args) := by
  have keywords (ks : Bindings) (slots : List Slot) :
      TypeChecked (ks.foldlM (fun slots k => fillKeyword f.name k.1 k.2 slots) slots) := by
    induction ks generalizing slots with
    | nil => exact .ok _
    | cons k ks ih => exact (typeChecked_fillKeyword _ _ _ _).bind ih
  unfold bindArguments
  split
  · exact .error rfl
  · exact (keywords _ _).bind fun slots => typeChecked_fillDefaults _ _ _

section

variable {run : Frame → List Statement → Eval Flow} {r : Ref .func} {args : Arguments} {m : Machine}

/-- The machine that the body of a call starts on, with the scope of the call behind all others. -/
def entered (m : Machine) (scope : Scope) : Machine :=
  { m with depth := m.depth + 1, heap := { m.heap with scopes := m.heap.scopes.push scope } }

/-- The end of a call: the value that the body returned, one call up again. -/
def finish : EStateM.Result Stop Machine Flow → EStateM.Result Stop Machine Value
  | .ok (.return v) m => .ok v { m with depth := m.depth - 1 }
  | .ok _ m => .ok .none { m with depth := m.depth - 1 }
  | .error stop m => .error stop { m with depth := m.depth - 1 }

theorem deeper_finish (x : Eval Flow) (m : Machine) :
    (deeper x >>= fun flow => match flow with
      | .return v => pure v
      | _ => pure .none : Eval Value) m =
    if Machine.maxDepth ≤ m.depth then .error (.raised (Fault.exception .tooDeep)) m
    else finish (x { m with depth := m.depth + 1 }) := by
  by_cases deep : Machine.maxDepth ≤ m.depth
  · simp only [bind, EStateM.bind, deeper_eq, if_pos deep]
  · simp only [bind, EStateM.bind, deeper_eq, if_neg deep]
    cases x { m with depth := m.depth + 1 } with
    | ok flow m' => cases flow <;> rfl
    | error stop m' => rfl

/-- A call runs its body if it can bind the arguments and the depth allows it. -/
theorem function_eq (run : Frame → List Statement → Eval Flow) (r : Ref .func) (args : Arguments)
    (m : Machine) : function run r args m = match bindArguments (m.heap.function r) args with
      | .error fault => .error (.raised fault.exception) m
      | .ok b =>
        if Machine.maxDepth ≤ m.depth then .error (.raised (Fault.exception .tooDeep)) m
        else finish
          (run (.function ⟨m.heap.scopes.size⟩ (allDeclaredGlobals (m.heap.function r).body))
            (m.heap.function r).body (entered m ⟨b, (m.heap.function r).closure⟩)) := by
  have read : function run r args m =
      (Eval.ofFault (bindArguments (m.heap.function r) args) >>= _) m := rfl
  rw [read]
  cases bindArguments (m.heap.function r) args with
  | error fault => rfl
  | ok b => exact deeper_finish _ m

end

/-- Arguments are bound once each or the call fails. They are bound if there is no positional value too
many, if the keywords name different parameters without positional value and if all others have
defaults; the scope then has the parameters with what each was given. The body runs in that scope, or
there is a type error and nothing happens. -/
theorem arguments_are_bound_once (f : FunctionObject) (distinct : (f.parameters.map (·.name)).Nodup)
    (args : Arguments) :
    ((∃ b, bindArguments f args = .ok b) ↔ Bindable f args) ∧
    (∀ b, bindArguments f args = .ok b → Bound f args b) ∧
    ∀ (run : Frame → List Statement → Eval Flow) (r : Ref .func) (m : Machine), m.heap.function r = f →
      (¬ Bindable f args → ∃ e, e.kind = .typeError ∧ function run r args m = .error (.raised e) m) ∧
      (Bindable f args → m.depth < Machine.maxDepth → ∃ b, Bound f args b ∧
        function run r args m = finish
          (run (.function ⟨m.heap.scopes.size⟩ (allDeclaredGlobals f.body)) f.body
            (entered m ⟨b, f.closure⟩))) := by
  refine ⟨bindable_iff distinct, fun b => bound_of_ok distinct, ?_⟩
  rintro run r m rfl
  constructor
  · intro unbindable
    cases result : bindArguments (m.heap.function r) args with
    | ok b => exact absurd ((bindable_iff distinct).1 ⟨b, result⟩) unbindable
    | error fault =>
      refine ⟨fault.exception, typeChecked_bindArguments _ _ fault result, ?_⟩
      rw [function_eq, result]
  · intro bindable room
    obtain ⟨b, result⟩ := (bindable_iff distinct).2 bindable
    refine ⟨b, bound_of_ok distinct result, ?_⟩
    rw [function_eq, result]
    exact if_neg (Nat.not_le.2 room)

/-- One positional value, one keyword behind a parameter that keeps its default; and the first parameter
again by keyword. -/
theorem keywords_pass_over_defaults :
    ∃ (f : FunctionObject) (args again : Arguments) (b : Bindings),
      (f.parameters.map (·.name)).Nodup ∧ bindArguments f args = .ok b ∧
      b.map (·.1) = ["name", "greeting", "mark"] ∧ Bindable f args ∧ Bound f args b ∧
      (∃ fault, bindArguments f again = .error fault) ∧ ¬ Bindable f again := by
  let f : FunctionObject := ⟨"greet", [⟨"name", none⟩, ⟨"greeting", some (.str "hello")⟩,
    ⟨"mark", some (.str "!")⟩], [], [none, some (.str "hello"), some (.str "!")], none, rfl⟩
  let args : Arguments := ⟨[.str "amy"], [("mark", .str "?")]⟩
  let again : Arguments := ⟨[.str "amy"], [("name", .str "bob")]⟩
  have distinct : (f.parameters.map (·.name)).Nodup := by decide
  have bound : bindArguments f args =
      .ok [("name", .str "amy"), ("greeting", .str "hello"), ("mark", .str "?")] := by rfl
  have refused : bindArguments f again = .error (.multipleValues "greet" "name") := by rfl
  have general := arguments_are_bound_once f distinct args
  refine ⟨f, args, again, _, distinct, bound, rfl, general.1.1 ⟨_, bound⟩, general.2.1 _ bound,
    ⟨_, refused⟩, fun bindable => ?_⟩
  obtain ⟨b, other⟩ := (arguments_are_bound_once f distinct again).1.2 bindable
  cases refused.symm.trans other

end Call

end Console
