import Console.Proofs.Evaluator.Bodies
import Console.Proofs.Heap.Soundness

/-!
# Safe evaluations

An evaluation that is given what a heap holds runs on that heap or on what the heap has aged to. It is
safe if it leaves a sound machine behind, ages the heap, and yields only what the heap holds then.
What is put together from safe evaluations is safe.
-/

namespace Console

namespace Eval

variable {α β : Type} {h h' : Heap}

/-- A sound machine that the heap has come to. -/
structure Onward (h : Heap) (m : Machine) : Prop where
  sound : m.Sound
  ages : h.Ages m.heap

/-- What an evaluation leaves behind: a sound machine, and a value with the property `Q` if it yields
one. -/
def Ends (h : Heap) (Q : Heap → α → Prop) : EStateM.Result Stop Machine α → Prop
  | .ok a m => Onward h m ∧ Q m.heap a
  | .error _ m => Onward h m

/-- Wherever the heap has come to, the evaluation ends well. -/
def SafeWith (h : Heap) (Q : Heap → α → Prop) (x : Eval α) : Prop :=
  h.Sound → ∀ m, Onward h m → Ends m.heap Q (x m)

/-- The evaluation yields only what the heap holds in the end. -/
abbrev Safe [Refers α] (h : Heap) (x : Eval α) : Prop := SafeWith h (fun h a => h.Holds a) x

theorem Onward.refl {m : Machine} (sound : m.Sound) : Onward m.heap m := ⟨sound, .refl _⟩

theorem Onward.after {m : Machine} (ages : h.Ages h') (onward : Onward h' m) : Onward h m :=
  ⟨onward.sound, ages.trans onward.ages⟩

theorem Ends.after {Q : Heap → α → Prop} {r : EStateM.Result Stop Machine α} (ages : h.Ages h')
    (ends : Ends h' Q r) : Ends h Q r := by
  cases r with
  | ok a m => exact ⟨ends.1.after ages, ends.2⟩
  | error stop m => exact Onward.after ages ends

theorem Ends.left {Q : Heap → α → Prop} {x : Eval α} {m : Machine} (ends : Ends h Q (x m)) :
    Onward h (x.left m) := by
  unfold Eval.left
  cases run : x m with
  | ok a m' =>
    rw [run] at ends
    exact ends.1
  | error stop m' =>
    rw [run] at ends
    exact ends

section

variable {P : Heap → α → Prop} {Q : Heap → β → Prop} {x : Eval α} {f : α → Eval β}

theorem Ends.bind {m : Machine} (ends : Ends h P (x m))
    (next : ∀ h' a, h.Ages h' → P h' a → SafeWith h' Q (f a)) : Ends h Q ((x >>= f) m) := by
  simp only [Bind.bind, EStateM.bind]
  cases run : x m with
  | error stop m' =>
    rw [run] at ends
    exact ends
  | ok a m' =>
    rw [run] at ends
    obtain ⟨onward, value⟩ := ends
    exact (next m'.heap a onward.ages value onward.sound.heap m' (.refl onward.sound)).after onward.ages

namespace SafeWith

theorem of_sound (safe : h.Sound → SafeWith h P x) : SafeWith h P x :=
  fun sound => safe sound sound

theorem aged (safe : SafeWith h P x) (sound : h.Sound) (ages : h.Ages h') : SafeWith h' P x :=
  fun _ m onward => safe sound m (onward.after ages)

theorem pure {a : α} (value : ∀ h', h.Ages h' → h'.Sound → P h' a) : SafeWith h P (Pure.pure a) :=
  fun _ m onward => ⟨.refl onward.sound, value m.heap onward.ages onward.sound.heap⟩

theorem throw (stop : Stop) : SafeWith h P (MonadExcept.throw stop) :=
  fun _ _ onward => .refl onward.sound

theorem fail (f : Fault) : SafeWith h P (Eval.fail f) := .throw _

theorem exhausted : SafeWith h P Eval.exhausted := .throw _

theorem bind (first : SafeWith h P x) (next : ∀ h' a, h.Ages h' → P h' a → SafeWith h' Q (f a)) :
    SafeWith h Q (x >>= f) := by
  intro sound m onward
  refine (first sound m onward).bind fun h' a ages => ?_
  exact next h' a (onward.ages.trans ages)

/-- What an evaluation that changes nothing found out still holds when the rest runs. -/
theorem bind_quiet (quiet : ∀ I, Agree I x x)
    (next : ∀ m a, Onward h m → x m = .ok a m → Ends m.heap Q (f a m)) :
    SafeWith h Q (x >>= f) := by
  intro _ m onward
  obtain ⟨-, left⟩ := quiet (· = m) m rfl
  simp only [Bind.bind, EStateM.bind]
  cases run : x m with
  | error stop m' =>
    rw [run] at left
    obtain rfl : m' = m := left
    exact .refl onward.sound
  | ok a m' =>
    rw [run] at left
    obtain rfl : m' = m := left.2
    exact next m' a onward run

/-- An evaluation that changes nothing is safe if its value is. -/
theorem of_quiet (quiet : ∀ I, Agree I x x)
    (value : ∀ m a, Onward h m → x m = .ok a m → P m.heap a) : SafeWith h P x := by
  rw [← bind_pure x]
  exact bind_quiet quiet fun m a onward run => ⟨.refl onward.sound, value m a onward run⟩

theorem ask {question : Heap → α} (answer : ∀ h', h.Ages h' → h'.Sound → P h' (question h')) :
    SafeWith h P (Eval.ask question) :=
  fun _ m onward => ⟨.refl onward.sound, answer m.heap onward.ages onward.sound.heap⟩

theorem bind_ask {f : α → Eval β} {question : Heap → α}
    (next : ∀ h', h.Ages h' → h'.Sound → SafeWith h' Q (f (question h'))) :
    SafeWith h Q (Eval.ask question >>= f) := by
  intro _ m onward
  have now := onward.sound
  exact next m.heap onward.ages now.heap now.heap m (.refl now)

theorem bind_get {f : Machine → Eval β} (next : ∀ m, Onward h m → SafeWith m.heap Q (f m)) :
    SafeWith h Q (MonadState.get >>= f) := by
  intro _ m onward
  exact next m onward onward.sound.heap m (.refl onward.sound)

/-- A check comes before the rest. -/
theorem check {c : Prop} [Decidable c] {fault : Fault} (safe : SafeWith h P x) :
    SafeWith h P (if c then Eval.fail fault >>= fun _ : PUnit => x else x) := by
  split
  · exact bind (P := fun _ _ => False) (.fail fault) fun _ _ _ never => never.elim
  · exact safe

theorem located (line : Nat) (safe : SafeWith h P x) : SafeWith h P (Eval.located line x) := by
  intro sound m onward
  have ends := safe sound m onward
  unfold Eval.located
  cases run : x m with
  | ok a m' =>
    rw [run] at ends
    exact ends
  | error stop m' =>
    rw [run] at ends
    cases stop <;> exact ends

theorem foldlM {f : β → α → Eval β} {b : β} {as : List α}
    (persists : ∀ {h h' : Heap} {b}, h.Sound → h.Ages h' → Q h b → Q h' b) (start : Q h b)
    (each : ∀ a ∈ as, ∀ h' b, h.Ages h' → Q h' b → SafeWith h' Q (f b a)) :
    SafeWith h Q (as.foldlM f b) := by
  induction as generalizing h b with
  | nil => exact .of_sound fun sound => .pure fun h' ages _ => persists sound ages start
  | cons a as ih =>
    refine (each a (by simp) h b (.refl h) start).bind fun h' b ages now => ih now ?_
    intro a mem h'' b later
    exact each a (List.mem_cons_of_mem _ mem) h'' b (ages.trans later)

end SafeWith

end

namespace Safe

variable {x : Eval α}

/-- The rest is given what the heap holds then. -/
theorem bind [Refers α] {Q : Heap → β → Prop} {f : α → Eval β} (first : Safe h x)
    (next : ∀ h' a, h.Ages h' → h'.Holds a → SafeWith h' Q (f a)) : SafeWith h Q (x >>= f) :=
  SafeWith.bind first next

theorem pure [Refers α] {a : α} (held : h.Holds a) : Safe h (Pure.pure a) :=
  SafeWith.pure fun _ ages _ => held.aged ages

section

variable [Refers β] {f : α → Eval β}

theorem mapM {as : List α} (each : ∀ a ∈ as, Safe h (f a)) : Safe h (as.mapM f) := by
  induction as generalizing h with
  | nil => exact pure (List.forall_mem_nil _)
  | cons a as ih =>
    rw [List.mapM_cons]
    refine .of_sound fun sound => (each a (by simp)).bind fun h' b ages first => ?_
    refine SafeWith.bind (ih fun a mem => (each a (List.mem_cons_of_mem _ mem)).aged sound ages) ?_
    exact fun h'' bs ages' others => pure (List.forall_mem_cons.2 ⟨first.aged ages', others⟩)

theorem forM {f : α → Eval PUnit} {as : List α} (each : ∀ a ∈ as, Safe h (f a)) :
    Safe h (as.forM f) := by
  induction as generalizing h with
  | nil => exact pure trivial
  | cons a as ih =>
    refine .of_sound fun sound => (each a (by simp)).bind fun h' _ ages _ => ?_
    exact ih fun a mem => (each a (List.mem_cons_of_mem _ mem)).aged sound ages

theorem arrayMapM {as : Array α} (each : ∀ a ∈ as, Safe h (f a)) : Safe h (as.mapM f) := by
  rw [Array.mapM_eq_mapM_toList]
  refine SafeWith.bind (mapM fun a mem => each a (Array.mem_toList_iff.1 mem)) ?_
  exact fun h' bs _ held => pure fun b mem => held b (List.mem_toArray.1 mem)

theorem mapIdxM_go {f : Nat → α → Eval β} {rest : List α} {done : Array β} (held : h.Holds done)
    (each : ∀ i, ∀ a ∈ rest, Safe h (f i a)) : Safe h (List.mapIdxM.go f rest done) := by
  induction rest generalizing h done with
  | nil => exact pure fun b mem => held b (Array.mem_toList_iff.1 mem)
  | cons a rest ih =>
    refine .of_sound fun sound => (each _ a (by simp)).bind fun h' b ages new => ih ?_ ?_
    · intro b' mem
      rcases Array.mem_push.1 mem with old | rfl
      · exact (held b' old).aged ages
      · exact new
    · exact fun i a mem => (each i a (List.mem_cons_of_mem _ mem)).aged sound ages

theorem mapIdxM {f : Nat → α → Eval β} {as : Array α} (each : ∀ i, ∀ a ∈ as, Safe h (f i a)) :
    Safe h (as.mapIdxM f) := by
  obtain ⟨as⟩ := as
  rw [List.mapIdxM_toArray]
  refine SafeWith.bind (mapIdxM_go (fun _ mem => absurd mem (Array.not_mem_empty _)) ?_) ?_
  · exact fun i a mem => each i a (List.mem_toArray.2 mem)
  · exact fun h' bs _ held => pure fun b mem => held b (List.mem_toArray.1 mem)

end

variable [Refers α]

theorem ask {question : Heap → α} (answer : ∀ h', h.Ages h' → h'.Sound → h'.Holds (question h')) :
    Safe h (Eval.ask question) :=
  SafeWith.ask answer

/-- An evaluation without references in its value that changes nothing. -/
theorem of_quiet (nothing : ∀ (h : Heap) (a : α), h.Holds a) (quiet : ∀ I, Agree I x x) : Safe h x :=
  SafeWith.of_quiet quiet fun m a _ _ => nothing m.heap a

theorem attempt (safe : Safe h x) : Safe h (Eval.attempt x) := by
  intro sound m onward
  have ends := safe sound m onward
  unfold Eval.attempt
  cases run : x m with
  | ok a m' =>
    rw [run] at ends
    refine ⟨ends.1, fun b same => ?_⟩
    cases same
    exact ends.2
  | error stop m' =>
    rw [run] at ends
    cases stop with
    | raised e => exact ⟨ends, nofun⟩
    | exhausted | crashed => exact ends

theorem ofExcept {r : Except Exception α} (held : h.Holds r) : Safe h (Eval.ofExcept r) := by
  cases r with
  | error e => exact .throw _
  | ok a => exact pure (held a rfl)

theorem ofFault {r : Except Fault α} (held : h.Holds r) : Safe h (Eval.ofFault r) := by
  cases r with
  | error f => exact .fail f
  | ok a => exact pure (held a rfl)

theorem discard {x : Eval α} (safe : Safe h x) : Safe h (Functor.discard x) := by
  have same : Functor.discard x = x >>= fun _ => Pure.pure () := by
    rw [← map_eq_pure_bind]
    rfl
  rw [same]
  exact safe.bind fun _ _ _ _ => pure trivial

end Safe

namespace Safe

theorem newObject (kind : Kind) {content : kind.Content} [Refers α] {made : Ref kind → α}
    (held : h.Holds content) (mapped : h.Mapped kind content)
    (yields : ∀ {h : Heap} {r}, h.Holds r → h.Holds (made r)) :
    Safe h (do
      let index ← Eval.ask (·.size kind)
      changeHeap (·.add content)
      return made ⟨index⟩) := by
  intro sound m onward
  have ages := m.heap.ages_add content
  have now := onward.sound
  refine ⟨⟨⟨?_, now.globals.aged ages, now.builtins.aged ages⟩, ages⟩, yields (m.heap.holds_new content)⟩
  exact now.heap.add (held.aged onward.ages) (mapped.aged sound.layered onward.ages)

theorem newList {items : Array Value} (held : h.Holds items) : Safe h (Eval.newList items) :=
  newObject .list held trivial id

theorem newTuple {items : Array Value} (held : h.Holds items) : Safe h (Eval.newTuple items) :=
  newObject .tuple held trivial id

theorem newDict {entries : Array (Value × Value)} (good : h.HoldsMap entries) :
    Safe h (Eval.newDict entries) :=
  newObject .dict good.held good.map id

theorem newFunction {f : FunctionObject} (held : h.Holds f) : Safe h (Eval.newFunction f) :=
  newObject .func held trivial id

theorem newClass {c : ClassObject} (held : h.Holds c) : Safe h (Eval.newClass c) :=
  newObject .cls held trivial id

theorem newInstance {c : Ref .cls} (held : h.Holds c) : Safe h (Eval.newInstance c) :=
  have bare : h.Holds (⟨c, []⟩ : InstanceObject) := ⟨held, List.forall_mem_nil _⟩
  newObject .inst bare trivial id

theorem newException (kind : ExceptionKind) (message : String) :
    Safe h (Eval.newException kind message) :=
  newObject .exc trivial trivial id

theorem newScope {vars : Bindings} {parent : Option (Ref .scope)} (held : h.Holds vars)
    (held' : h.Holds parent) : Safe h (Eval.newScope vars parent) :=
  newObject .scope ⟨held, held'⟩ trivial id

end Safe

/-- An object is changed into one that may stand in its place. -/
theorem Ends.changeObject (kind : Kind) {f : kind.Content → kind.Content} (mutable : kind ≠ .tuple)
    {m : Machine} (sound : m.Sound) {r : Ref kind}
    (proper : ∀ content, (m.heap.objects kind)[r.index]? = some content →
      m.heap.Proper r content → m.heap.Proper r (f content)) :
    Ends m.heap (fun h a => h.Holds a) (changeHeap (·.change r f) m) := by
  have ages := m.heap.ages_change mutable r f
  refine ⟨⟨⟨?_, sound.globals.aged ages, sound.builtins.aged ages⟩, ages⟩, trivial⟩
  exact sound.heap.change mutable r proper

/-- The entries of a dict are changed into others that are a map. -/
theorem Ends.changeDict {m : Machine} (sound : m.Sound) {r : Ref .dict}
    {change : Array (Value × Value) → Array (Value × Value)}
    (good : m.heap.HoldsMap (change (m.heap.dict r))) :
    Ends m.heap (fun h a => h.Holds a) (Eval.changeDict r change m) := by
  refine .changeObject .dict nofun sound fun entries there _ => ?_
  have here : m.heap.dict r = entries := congrArg (·.getD #[]) there
  rw [here] at good
  exact ⟨good.held, trivial, good.map⟩

namespace Safe

theorem changeObject (kind : Kind) {f : kind.Content → kind.Content} (mutable : kind ≠ .tuple)
    (r : Ref kind) (proper : ∀ h', h.Ages h' → ∀ content, h'.Proper r content →
      h'.Proper r (f content)) : Safe h (changeHeap (·.change r f)) := fun _ m onward =>
  .changeObject kind mutable onward.sound fun content _ => proper m.heap onward.ages content

theorem changeList (r : Ref .list) {change : Array Value → Array Value}
    (held : ∀ h', h.Ages h' → ∀ items, h'.Holds items → h'.Holds (change items)) :
    Safe h (Eval.changeList r change) :=
  changeObject .list nofun r fun h' ages items proper =>
    ⟨held h' ages items proper.held, trivial, trivial⟩

theorem changeDict (r : Ref .dict) {change : Array (Value × Value) → Array (Value × Value)}
    (good : ∀ h', h.Ages h' → ∀ entries, h'.HoldsMap entries → h'.HoldsMap (change entries)) :
    Safe h (Eval.changeDict r change) := fun _ m onward =>
  .changeDict onward.sound (good m.heap onward.ages _ (onward.sound.heap.holdsMap r))

theorem setDict (r : Ref .dict) {entries : Array (Value × Value)} (good : h.HoldsMap entries) :
    Safe h (Eval.setDict r entries) :=
  .of_sound fun sound => changeDict r fun _ ages _ _ => good.aged sound.layered ages

theorem changeClass (r : Ref .cls) {change : Bindings → Bindings}
    (held : ∀ h', h.Ages h' → ∀ b : Bindings, h'.Holds b → h'.Holds (change b)) :
    Safe h (Eval.changeClass r change) :=
  changeObject .cls nofun r fun h' ages c proper =>
    ⟨⟨proper.held.1, held h' ages c.attrs proper.held.2⟩, proper.before, trivial⟩

theorem changeInstance (r : Ref .inst) {change : Bindings → Bindings}
    (held : ∀ h', h.Ages h' → ∀ b : Bindings, h'.Holds b → h'.Holds (change b)) :
    Safe h (Eval.changeInstance r change) :=
  changeObject .inst nofun r fun h' ages i proper =>
    ⟨⟨proper.held.1, held h' ages i.attrs proper.held.2⟩, trivial, trivial⟩

theorem changeScope (r : Ref .scope) {change : Bindings → Bindings}
    (held : ∀ h', h.Ages h' → ∀ b : Bindings, h'.Holds b → h'.Holds (change b)) :
    Safe h (Eval.changeScope r change) :=
  changeObject .scope nofun r fun h' ages s proper =>
    ⟨⟨held h' ages s.vars proper.held.1, proper.held.2⟩, proper.before, trivial⟩

/-- A change of the machine that leaves the heap alone. -/
theorem modify {step : Machine → Machine} (heap : ∀ m, (step m).heap = m.heap)
    (globals : ∀ m, Onward h m → m.heap.Holds (step m).globals)
    (builtins : ∀ m, Onward h m → m.heap.Holds (step m).builtins) :
    Safe h (modify step : Eval Unit) := by
  intro sound m onward
  have same := heap m
  refine ⟨⟨⟨?_, ?_, ?_⟩, ?_⟩, trivial⟩
  · exact same ▸ onward.sound.heap
  · exact same ▸ globals m onward
  · exact same ▸ builtins m onward
  · exact same ▸ .refl _

theorem write (text : String) : Safe h (Eval.write text) :=
  modify (fun _ => rfl) (fun _ onward => onward.sound.globals) fun _ onward =>
    onward.sound.builtins

end Safe

end Eval

end Console
