import Console.Builtin.Call
import Console.Proofs.Evaluator.Builtins
import Console.Proofs.Evaluator.SafeOperations
import Console.Proofs.Sorting.Members

/-!
# Built-in callees are safe

Built-in functions and methods yield what they were given, what they find in the heap, or new objects.
The methods of dicts keep the keys of a dict different, each in its own way.
-/

namespace Console

namespace Heap.Holds

variable {α : Type} [Refers α] {h : Heap} {args : Arguments}

/-! ## Arguments -/

theorem withoutKeywords (held : h.Holds args) (callee : String) :
    h.Holds (args.withoutKeywords callee) := by
  unfold Arguments.withoutKeywords
  split
  · exact holds_ok.2 held.1
  · exact holds_error _

theorem shaped (held : h.Holds args) (callee : String) {shape? : List Value → Except Arity α}
    (parts : ∀ given, h.Holds given → h.Holds (shape? given)) :
    h.Holds (args.shaped callee shape?) := by
  refine (held.withoutKeywords callee).exceptBind fun given known => ?_
  have found := parts given known
  cases taken : shape? given with
  | ok a =>
    rw [taken] at found
    exact holds_ok.2 (holds_ok.1 found)
  | error arity => exact holds_error _

variable (held : h.Holds args) (callee : String)
include held

theorem one : h.Holds (args.one callee) :=
  held.shaped callee fun given known => by split <;> simp_all

theorem two : h.Holds (args.two callee) :=
  held.shaped callee fun given known => by split <;> simp_all

theorem three : h.Holds (args.three callee) :=
  held.shaped callee fun given known => by split <;> simp_all

theorem upToOne : h.Holds (args.upToOne callee) :=
  held.shaped callee fun given known => by split <;> simp_all

theorem oneOrTwo : h.Holds (args.oneOrTwo callee) :=
  held.shaped callee fun given known => by split <;> simp_all

theorem twoOrThree : h.Holds (args.twoOrThree callee) :=
  held.shaped callee fun given known => by split <;> simp_all

end Heap.Holds

namespace Eval

variable {h : Heap} {args : Arguments}

theorem SafeWith.fault {α : Type} (r : Except Fault α) :
    SafeWith h (fun _ _ => True) (Eval.ofFault r) := by
  cases r with
  | error f => exact .fail f
  | ok a => exact .pure fun _ _ _ => trivial

theorem SafeWith.unchecked {α : Type} (r : Option α) :
    SafeWith h (fun _ _ => True) (Eval.ofUnchecked r) := by
  cases r with
  | none => exact .throw _
  | some a => exact .pure fun _ _ _ => trivial

/-! ## Formats with braces -/

namespace SafeCaller

variable {caller : Caller} (safe : SafeCaller caller) {v : Value}
include safe

theorem bracesConvert (text : List Char) (spec : Format.Braces.Spec) (held : h.Holds v) :
    Safe h (Format.Braces.convert caller text spec v) := by
  have asText (f : String → List Char) : Safe h (do return f (← Eval.str caller v)) :=
    Safe.bind (safe.str held) fun _ _ _ _ => Safe.pure fun _ _ => trivial
  have plain (s : List Char) : Safe h (Pure.pure s) := Safe.pure fun _ _ => trivial
  unfold Format.Braces.convert
  dsimp only
  split
  · split
    · exact plain _
    · exact plain _
    · split
      · exact plain _
      · exact asText _
    · exact asText _
    · exact asText _
    · exact .fail _
  · split
    · exact asText _
    · exact asText _
    · exact .fail _

theorem bracesWrite (f : Format.Braces.Field) (held : h.Holds v) :
    Safe h (Format.Braces.write caller f v) := by
  have shown : Safe h
      (if f.spec.isEmpty then do return (← Eval.str caller v).toList
        else Format.Braces.applySpec caller f.spec v) := by
    split
    · exact Safe.bind (safe.str held) fun _ _ _ _ => Safe.pure fun _ _ => trivial
    · exact Safe.bind (safe.bracesConvert _ _ held) fun _ _ _ _ => Safe.pure fun _ _ => trivial
  unfold Format.Braces.write
  split
  · exact Safe.bind (safe.repr held) fun _ _ _ _ => Safe.pure fun _ _ => trivial
  · exact shown
  · exact shown
  · exact .fail _

omit safe in
theorem holds_argument (held : h.Holds args) (next : Nat) (name : List Char) :
    h.Holds (Format.Braces.argument args next name) := by
  have named {k : String × Value} (found : args.keywords.find? (fun k => k.1.toList = name) = some k) :
      h.Holds k.2 :=
    (held.2 _ (List.mem_of_find?_eq_some found)).2
  have placed {place : Nat} {v : Value} (found : args.positional[place]? = some v) : h.Holds v :=
    held.1 v (List.mem_of_getElem? found)
  unfold Format.Braces.argument
  dsimp only
  split
  · split
    · next found => exact Heap.holds_ok.2 (placed found)
    · exact Heap.holds_error _
  · split
    · split
      · next found => exact Heap.holds_ok.2 (placed found)
      · exact Heap.holds_error _
    · split
      · next found => exact Heap.holds_ok.2 (named found)
      · exact Heap.holds_error _

theorem bracesFill (held : h.Holds args) (next : Nat) (out : List Char)
    (pieces : List Format.Braces.Piece) : Safe h (Format.Braces.fill caller args next out pieces) := by
  induction pieces generalizing h next out with
  | nil => exact Safe.pure fun _ _ => trivial
  | cons piece pieces ih =>
    cases piece with
    | plain c => exact ih held next _
    | field f =>
      refine Safe.bind (.ofFault (holds_argument held next f.name)) fun h' v ages known => ?_
      exact Safe.bind (safe.bracesWrite f known) fun h'' text ages' _ =>
        ih (held.aged (ages.trans ages')) _ _
    | strayClose => exact .fail _
    | strayOpen => exact .fail _

/-! ## Methods of lists and texts -/

instance : Refers SortOptions where
  HeldIn h options := h.Holds options.key
  aged ages held := held.aged ages

omit safe in
theorem sortOptions {callee : String} {options : SortOptions} {keywords : List (String × Value)}
    (held : h.Holds options) (held' : h.Holds keywords) :
    Safe h (Eval.sortOptions callee options keywords) := by
  induction keywords generalizing h options with
  | nil => exact Safe.pure held
  | cons k keywords ih =>
    obtain ⟨first, others⟩ := Heap.holds_cons.1 held'
    unfold Eval.sortOptions
    split
    · refine ih ?_ others
      split
      · exact held
      · exact Heap.holds_some.2 first.2
    · split
      · exact Safe.bind (.isTrue _) fun h' down ages _ => ih (held.aged ages) (others.aged ages)
      · exact .fail _

theorem sorted {callee : String} {items : Array Value} {keywords : List (String × Value)}
    (held : h.Holds items) (held' : h.Holds keywords) :
    Safe h (Eval.sorted caller callee items keywords) := by
  have key {h : Heap} {f : Option Value} {item : Value} (known : h.Holds f) (inside : h.Holds item) :
      Safe h (Eval.sortKey caller f item) := by
    cases f with
    | none => exact Safe.pure inside
    | some f => exact safe.call (Heap.holds_some.1 known) ⟨by simpa using inside, Heap.holds_nil⟩
  refine Safe.bind (sortOptions Heap.holds_none held') fun h' options ages known => ?_
  refine Safe.bind (Safe.mapM fun item mem => ?_) fun h'' keyed ages' inside => ?_
  · have there := (held.toList item mem).aged ages
    exact Safe.bind (key known there) fun h'' made later mine => Safe.pure ⟨mine, there.aged later⟩
  · refine SafeWith.bind_ask fun h''' later _ => ?_
    split
    · next out found =>
      refine Safe.pure fun v mem => ?_
      obtain ⟨pair, there, rfl⟩ := List.mem_map.1 (List.mem_toArray.1 mem)
      exact Sorting.sort_all (fun pair mem => (inside pair mem).2.aged later) out found pair there
    · exact .throw _

theorem strMethod (s : String) (method : StrMethod) (held : h.Holds args) :
    Safe h (method.call caller s args) := by
  have mapped (name : String) (map : List Char → Value) (nothing : ∀ (h : Heap) s, h.Holds (map s))
      (s : List Char) : Safe h (StrMethod.mapped name map s args) :=
    SafeWith.bind (.fault _) fun h' _ _ _ => Safe.pure (nothing h' s)
  have strip (name : String) (left right : Bool) (s : List Char) :
      Safe h (StrMethod.callStrip name left right s args) :=
    SafeWith.bind (.fault _) fun _ _ _ _ => SafeWith.bind (.fault _) fun _ _ _ _ => Safe.pure trivial
  have texts {h : Heap} (all : List (List Char)) : Safe h (StrMethod.texts all) := by
    refine Safe.newList fun v mem => ?_
    obtain ⟨s, -, rfl⟩ := List.mem_map.1 (List.mem_toArray.1 mem)
    trivial
  cases method with
  | format =>
    refine Safe.bind ?_ fun _ _ _ _ => Safe.pure trivial
    exact Safe.bind (safe.bracesFill held _ _ _) fun _ _ _ _ => Safe.pure trivial
  | split =>
    refine SafeWith.bind (.fault _) fun h' given _ _ => SafeWith.bind (.fault _) fun h'' limit _ _ => ?_
    split
    · exact texts _
    · exact texts _
    · exact SafeWith.bind (.fault _) fun h''' sep _ _ => (texts _).check
  | replace =>
    refine SafeWith.bind (.fault _) fun _ given _ _ => SafeWith.bind (.fault _) fun _ old _ _ =>
      SafeWith.bind (.fault _) fun _ new _ _ => ?_
    split
    · split
      · exact Safe.pure trivial
      · exact Safe.pure trivial
    · exact Safe.pure trivial
  | join =>
    refine SafeWith.bind (.fault _) fun _ v _ _ => Safe.bind (.items v) fun _ _ _ _ => ?_
    exact SafeWith.bind (.fault _) fun _ _ _ _ => Safe.pure trivial
  | isdigit => exact mapped _ (fun s => .bool (StrMethod.isDigits s)) (fun _ _ => trivial) _
  | lower => exact mapped _ (fun s => StrMethod.text (Text.toLower s)) (fun _ _ => trivial) _
  | upper => exact mapped _ (fun s => StrMethod.text (Text.toUpper s)) (fun _ _ => trivial) _
  | strip => exact strip _ _ _ _
  | lstrip => exact strip _ _ _ _
  | rstrip => exact strip _ _ _ _
  | _ =>
    exact SafeWith.bind (.fault _) fun _ _ _ _ => SafeWith.bind (.fault _) fun _ _ _ _ =>
      Safe.pure trivial

omit safe in
theorem placeOf? (r : Ref .list) (v : Value) : Safe h (ListMethod.placeOf? r v) :=
  .of_quiet (fun _ _ _ _ => trivial) fun _ => Agree.placeOf? r v

theorem listMethod (r : Ref .list) (method : ListMethod) (held : h.Holds args) :
    Safe h (method.call caller r args) := by
  cases method with
  | append =>
    refine Safe.bind (.ofFault (held.one _)) fun h' item _ known => ?_
    refine Safe.bind (.changeList r fun _ ages _ held => held.push (known.aged ages)) ?_
    exact fun _ _ _ _ => Safe.pure trivial
  | count =>
    refine SafeWith.bind (.fault _) fun _ v _ _ => SafeWith.bind_ask fun h' _ _ => ?_
    exact Safe.bind (.ofDepth fun _ _ => trivial) fun _ _ _ _ => Safe.pure trivial
  | extend =>
    refine SafeWith.bind (.fault _) fun _ v _ _ => Safe.bind (.items v) fun _ more _ known => ?_
    refine Safe.bind (.changeList r fun _ ages _ held => held.append (known.aged ages)) ?_
    exact fun _ _ _ _ => Safe.pure trivial
  | index =>
    refine Safe.bind (.ofFault (held.one _)) fun _ v _ known => ?_
    refine Safe.bind (placeOf? r v) fun _ found ages _ => ?_
    cases found with
    | some i => exact Safe.pure trivial
    | none => exact Safe.bind (safe.repr (known.aged ages)) fun _ _ _ _ => .fail _
  | insert =>
    refine Safe.bind (.ofFault (held.two _)) fun _ given _ known => ?_
    obtain ⟨position, item⟩ := given
    cases place : position.asInt? with
    | none => simp only [place]; exact .fail _
    | some n =>
      simp only [place]
      refine Safe.bind (.changeList r fun _ ages _ held => ?_) fun _ _ _ _ => Safe.pure trivial
      exact held.insertIdxIfInBounds _ (known.2.aged ages)
  | pop =>
    refine SafeWith.bind (.fault _) fun _ position _ _ => SafeWith.bind_ask fun h' _ sound => ?_
    have erase {h'' : Heap} (ages : h'.Ages h'') (i : Fin (h'.list r).size) : Safe h'' (do
        Eval.changeList r (·.eraseIdxIfInBounds i)
        return (h'.list r)[i]) := by
      refine Safe.bind (.changeList r fun _ _ _ held => held.eraseIdxIfInBounds i) fun _ _ later _ => ?_
      exact Safe.pure ((sound.holds_list r _ (Array.getElem_mem _)).aged (ages.trans later))
    split
    · cases position with
      | none => exact Safe.bind (Safe.pure trivial) fun _ i ages _ => erase ages i
      | some v => exact Safe.bind (.ofFault fun _ _ => trivial) fun _ i ages _ => erase ages i
    · exact .fail _
  | remove =>
    refine SafeWith.bind (.fault _) fun _ v _ _ => Safe.bind (placeOf? r v) fun _ found _ _ => ?_
    cases found with
    | some i =>
      refine Safe.bind (.changeList r fun _ _ _ held => held.eraseIdxIfInBounds i) ?_
      exact fun _ _ _ _ => Safe.pure trivial
    | none => exact .fail _
  | reverse =>
    refine SafeWith.bind (.fault _) fun _ _ _ _ => ?_
    exact Safe.bind (.changeList r fun _ _ _ held => held.reverse) fun _ _ _ _ => Safe.pure trivial
  | sort =>
    refine SafeWith.check (SafeWith.bind_ask fun h' ages sound => ?_)
    refine Safe.bind (safe.sorted (sound.holds_list r) (held.2.aged ages)) fun _ out _ known => ?_
    refine Safe.bind (.changeList r fun _ later _ _ => known.aged later) ?_
    exact fun _ _ _ _ => Safe.pure trivial

end SafeCaller

/-! ## Methods of dicts -/

/-- Pairs of which the first can be a key. -/
def HoldsPairs (h : Heap) (pairs : Array (Value × Value)) : Prop :=
  ∀ e ∈ pairs, h.IsKey e.1 ∧ h.Holds e.2

theorem HoldsPairs.aged {h' : Heap} {pairs : Array (Value × Value)} (known : HoldsPairs h pairs)
    (layered : h.Layered) (ages : h.Ages h') : HoldsPairs h' pairs := fun e mem =>
  ⟨(known e mem).1.aged layered ages, (known e mem).2.aged ages⟩

namespace SafeWith

theorem pairOf (position : Nat) (v : Value) :
    SafeWith h (fun h' pair => h'.IsKey pair.1 ∧ h'.Holds pair.2) (Eval.pairOf position v) := by
  refine Safe.bind (.items v) fun h' all _ known => ?_
  split
  · next key value same =>
    have parts := known.toList
    rw [same, Heap.holds_cons, Heap.holds_cons] at parts
    refine bind (.checkHashable parts.1) fun h'' _ ages isKey => .of_sound fun sound => ?_
    exact .pure fun h''' later _ =>
      ⟨isKey.aged sound.layered later, (parts.2.1.aged ages).aged later⟩
  · exact .fail _

theorem pairsFrom (position : Nat) {done : Array (Value × Value)} (known : HoldsPairs h done)
    (vs : List Value) : SafeWith h HoldsPairs (Eval.pairsFrom position done vs) := by
  induction vs generalizing h position done with
  | nil => exact .of_sound fun sound => .pure fun h' ages _ => known.aged sound.layered ages
  | cons v vs ih =>
    refine .of_sound fun sound => bind (pairOf position v) fun h' pair ages new => ih _ ?_
    intro e mem
    rcases Array.mem_push.1 mem with old | rfl
    · exact known.aged sound.layered ages e old
    · exact new

theorem pairs (v : Value) : SafeWith h HoldsPairs (Eval.pairs v) := by
  unfold Eval.pairs
  split
  · refine .ask fun h' ages sound e mem => ⟨?_, (sound.holds_dict _ e mem).2⟩
    exact (sound.isMap _).key (Array.mem_toList_iff.2 mem)
  · refine Safe.bind (.items _) fun h' all _ _ => pairsFrom 0 ?_ _
    exact fun e mem => absurd mem (Array.not_mem_empty e)

/-- Pairs are put in one after the other, each where its key belongs. -/
theorem insertAll {entries : Array (Value × Value)} {more : List (Value × Value)}
    (good : h.HoldsMap entries) (known : ∀ e ∈ more, h.IsKey e.1 ∧ h.Holds e.2) :
    SafeWith h (fun h' all => h'.HoldsMap all) (Eval.insertAll entries more) := by
  refine .of_sound fun sound => .foldlM ?_ good fun pair mem h' done ages now => ?_
  · exact fun sound ages now => now.aged sound.layered ages
  · exact insertInto now ((known pair mem).1.aged sound.layered ages) ((known pair mem).2.aged ages)

end SafeWith

/-- The pairs that a call gives, those of its keywords last. -/
theorem HoldsPairs.withKeywords {given : Array (Value × Value)} (known : HoldsPairs h given)
    {keywords : List (String × Value)} (held : h.Holds keywords) :
    ∀ e ∈ given.toList ++ keywordPairs keywords, h.IsKey e.1 ∧ h.Holds e.2 := by
  intro e mem
  rcases List.mem_append.1 mem with positional | keyword
  · exact known e (Array.mem_toList_iff.1 positional)
  · obtain ⟨k, inside, rfl⟩ := List.mem_map.1 keyword
    exact ⟨⟨trivial, .single nofun rfl⟩, (held k inside).2⟩

theorem run_lookup? (r : Ref .dict) (key : Value) (m : Machine) : Eval.lookup? r key m =
    match m.heap.unhashable? key with
    | some type => Eval.fail (.unhashable type) m
    | none => Eval.ofDepth (m.heap.lookupEntry key (m.heap.dict r).toList) m := by
  rw [Eval.lookup?, Eval.checkHashable]
  simp only [bind_assoc, run_ask]
  cases m.heap.unhashable? key <;> rfl

/-- What was found out about a missing key still holds when the entry is added. -/
theorem Safe.callSetdefault (r : Ref .dict) (held : h.Holds args) :
    Safe h (DictMethod.callSetdefault r args) := by
  refine Safe.bind (.ofFault (held.oneOrTwo _)) fun h' given _ known => ?_
  obtain ⟨key, default⟩ := given
  refine SafeWith.bind_quiet (fun _ => Agree.lookup? r key) fun m found onward run => ?_
  have sound := onward.sound
  rw [run_lookup?] at run
  cases hashed : m.heap.unhashable? key with
  | some type =>
    rw [hashed] at run
    cases run
  | none =>
    rw [hashed] at run
    have isKey : m.heap.IsKey key := ⟨known.1.aged onward.ages,
      (Heap.unhashable?_eq_none_iff sound.heap.layered (known.1.aged onward.ages)).1 hashed⟩
    have missing : m.heap.Holds (default.getD .none) := (known.2.aged onward.ages).getD trivial
    rcases Heap.lacks_or_hasAt sound.heap.layered
      (fun e mem => (sound.heap.isMap r).key mem) isKey with lacks | ⟨before, old, w, after, split, place⟩
    · rw [Heap.lookupEntry_none lacks] at run
      cases run
      refine Ends.bind (Ends.changeDict sound ?_) fun h' _ ages _ => Safe.pure (missing.aged ages)
      exact (sound.heap.holdsMap r).push isKey missing lacks
    · rw [split, Heap.lookupEntry_some place.other place.same] at run
      cases run
      have mem : (old, w) ∈ (m.heap.dict r).toList := by simp [split]
      exact ⟨.refl sound, ((sound.heap.holds_dict r).toList _ mem).2⟩

namespace SafeCaller

variable {caller : Caller} (safe : SafeCaller caller)
include safe

theorem dictMethod (r : Ref .dict) (method : DictMethod) (held : h.Holds args) :
    Safe h (method.call caller r args) := by
  cases method with
  | items =>
    refine SafeWith.bind (.fault _) fun _ _ _ _ => SafeWith.bind_ask fun h' _ sound => ?_
    refine Safe.bind (.arrayMapM fun e mem => .newTuple ?_) fun h'' made _ known => Safe.newList known
    obtain ⟨key, value⟩ := sound.holds_dict r e mem
    exact Heap.Holds.toArray (by simp [key, value])
  | keys =>
    refine SafeWith.bind (.fault _) fun _ _ _ _ => SafeWith.bind_ask fun h' _ sound => Safe.newList ?_
    intro v mem
    obtain ⟨e, inside, rfl⟩ := Array.mem_map.1 mem
    exact (sound.holds_dict r e inside).1
  | values =>
    refine SafeWith.bind (.fault _) fun _ _ _ _ => SafeWith.bind_ask fun h' _ sound => Safe.newList ?_
    intro v mem
    obtain ⟨e, inside, rfl⟩ := Array.mem_map.1 mem
    exact (sound.holds_dict r e inside).2
  | get =>
    refine Safe.bind (.ofFault (held.oneOrTwo _)) fun _ given _ known => ?_
    refine Safe.bind (.lookup? r _) fun _ found ages there => Safe.pure ?_
    exact there.getD ((known.2.aged ages).getD trivial)
  | setdefault => exact Safe.callSetdefault r held
  | pop =>
    refine Safe.bind (.ofFault (held.oneOrTwo _)) fun _ given _ known => ?_
    obtain ⟨key, default⟩ := given
    refine Safe.bind (.placeOfKey? r key) fun _ found ages _ => ?_
    cases found with
    | some i =>
      refine SafeWith.bind_ask fun h' _ sound => ?_
      refine Safe.bind (.changeDict r fun _ _ _ good => good.eraseIdxIfInBounds i) ?_
      refine fun _ _ later _ => Safe.pure (Heap.Holds.aged ?_ later)
      cases there : (h'.dict r)[i]? with
      | none => trivial
      | some e => exact (sound.holds_dict r e (Array.mem_of_getElem? there)).2
    | none =>
      cases default with
      | some default => exact Safe.pure ((Heap.holds_some.1 known.2).aged ages)
      | none => exact safe.keyMissing (known.1.aged ages)
  | update =>
    have puts {h : Heap} {given : Array (Value × Value)} (known : HoldsPairs h given)
        (held : h.Holds args.keywords) : Safe h (do
          let more := given.toList ++ keywordPairs args.keywords
          setDict r (← Eval.insertAll (← Eval.ask (·.dict r)) more)
          return Value.none) := by
      refine .of_sound fun sound' => SafeWith.bind_ask fun h' ages sound => ?_
      refine SafeWith.bind (.insertAll (sound.holdsMap r) ?_) fun h'' all _ good => ?_
      · exact (known.aged sound'.layered ages).withKeywords (held.aged ages)
      · exact Safe.bind (.setDict r good) fun _ _ _ _ => Safe.pure trivial
    change Safe h (DictMethod.callUpdate r args)
    unfold DictMethod.callUpdate
    split
    · refine SafeWith.bind (P := HoldsPairs) (.pure fun _ _ _ e mem => ?_) fun h' _ ages known => ?_
      · exact absurd mem (Array.not_mem_empty e)
      · exact puts known (held.2.aged ages)
    · exact SafeWith.bind (.pairs _) fun h' _ ages known => puts known (held.2.aged ages)
    · exact SafeWith.bind (P := HoldsPairs) (.fail _) fun h' _ ages known =>
        puts known (held.2.aged ages)

end SafeCaller

/-! ## Functions -/

/-- Numbers that are read or made have no references. -/
theorem Safe.callInt : Safe h (Builtin.callInt args) := by
  refine SafeWith.bind (.fault _) fun h' given _ _ => SafeWith.bind (.fault _) fun h'' radix _ _ => ?_
  have read (s : String) : h''.Holds (Builtin.readInteger radix s) := by
    unfold Builtin.readInteger
    split
    · exact Heap.holds_ok.2 trivial
    · exact Heap.holds_error _
  have whole (v : Value) : h''.Holds (Builtin.wholeNumber v) := by
    unfold Builtin.wholeNumber
    split
    · exact Heap.holds_ok.2 trivial
    · exact Heap.Holds.exceptMap (fun n => by trivial) _
    · exact Heap.holds_error _
  split
  · exact Safe.pure trivial
  · exact Safe.ofFault (read _)
  · exact .fail _
  · exact Safe.ofFault (whole _)

theorem Safe.callFloat : Safe h (Builtin.callFloat args) := by
  refine SafeWith.bind (.fault _) fun h' given _ _ => ?_
  have read (s : String) : h'.Holds (Builtin.readReal s) := by
    unfold Builtin.readReal
    split
    · exact Heap.holds_ok.2 trivial
    · exact Heap.holds_error _
  split
  · exact Safe.pure trivial
  · exact Safe.ofFault (read _)
  · split
    · exact Safe.pure trivial
    · exact .fail _

theorem Safe.callLen : Safe h (Builtin.callLen args) := by
  refine SafeWith.bind (.fault _) fun h' v _ _ => ?_
  have answered (size : Nat) {h : Heap} : Safe h (do
      let size ← (Pure.pure size : Eval Nat)
      return Value.int (.ofNat size)) := Safe.pure trivial
  dsimp only
  split
  · exact SafeWith.bind_ask fun _ _ _ => answered _
  · exact SafeWith.bind_ask fun _ _ _ => answered _
  · exact SafeWith.bind_ask fun _ _ _ => answered _
  · exact answered _
  · exact SafeWith.bind (P := fun _ _ => True) (.fail _) fun _ n _ _ => answered n

/-- What is kept is one of the candidates. -/
theorem Safe.extreme {wanted : Ordering} {kept : Value} {vs : List Value} (held : h.Holds kept)
    (held' : h.Holds vs) : Safe h (Builtin.extreme wanted kept vs) := by
  induction vs generalizing h kept with
  | nil => exact Safe.pure held
  | cons v vs ih =>
    obtain ⟨first, others⟩ := Heap.holds_cons.1 held'
    have ordered : Safe h (Eval.order v kept) :=
      .of_quiet (fun _ _ _ _ => trivial) fun _ => Agree.order v kept
    refine Safe.bind ordered fun h' found ages _ => ih ?_ (others.aged ages)
    split
    · exact first.aged ages
    · exact held.aged ages

theorem Safe.callExtreme {callee : String} {wanted : Ordering} (held : h.Holds args) :
    Safe h (Builtin.callExtreme callee wanted args) := by
  have best {h : Heap} {x : Eval (List Value)} {next : List Value → Eval Value} (candidates : Safe h x)
      (nothing : next [] = Eval.fail (.extremeOfNothing callee))
      (follows : ∀ first rest, next (first :: rest) = Builtin.extreme wanted first rest) :
      Safe h (x >>= next) := by
    refine Safe.bind candidates fun h' vs _ known => ?_
    cases vs with
    | nil =>
      rw [nothing]
      exact .fail _
    | cons first rest =>
      obtain ⟨mem, others⟩ := Heap.holds_cons.1 known
      rw [follows]
      exact Safe.extreme mem others
  refine Safe.bind (.ofFault (held.withoutKeywords _)) fun h' given _ known => ?_
  dsimp only
  split
  · exact best (.fail _) rfl fun _ _ => rfl
  · exact Safe.bind (.items _) fun _ _ _ known => best (Safe.pure known.toList) rfl fun _ _ => rfl
  · exact best (Safe.pure known) rfl fun _ _ => rfl

theorem Safe.callDict (held : h.Holds args) : Safe h (Builtin.callDict args) := by
  have makes {h : Heap} {given : Array (Value × Value)} (known : HoldsPairs h given)
      (held : h.Holds args.keywords) : Safe h (do
        Eval.newDict (← Eval.insertAll #[] (given.toList ++ keywordPairs args.keywords))) :=
    SafeWith.bind (.insertAll .empty (known.withKeywords held)) fun _ _ _ good => Safe.newDict good
  unfold Builtin.callDict
  dsimp only
  split
  · refine SafeWith.bind (P := HoldsPairs) (.pure fun _ _ _ e mem => ?_) fun h' _ ages known => ?_
    · exact absurd mem (Array.not_mem_empty e)
    · exact makes known (held.2.aged ages)
  · exact SafeWith.bind (.pairs _) fun h' _ ages known => makes known (held.2.aged ages)
  · exact SafeWith.bind (P := HoldsPairs) (.fail _) fun h' _ ages known =>
      makes known (held.2.aged ages)

theorem Safe.givenItems (given : Option Value) : Safe h (Builtin.givenItems given) := by
  cases given with
  | none => exact Safe.pure fun v mem => absurd mem (Array.not_mem_empty v)
  | some v => exact .items v

theorem Safe.callRange : Safe h (Builtin.callRange args) := by
  refine SafeWith.bind (.fault _) fun _ _ _ _ => SafeWith.bind (.fault _) fun _ r _ _ => ?_
  refine SafeWith.check (SafeWith.check (SafeWith.bind (.unchecked _) fun _ _ _ _ => ?_))
  refine Safe.newList fun v mem => ?_
  obtain ⟨n, -, rfl⟩ := Array.mem_map.1 mem
  trivial

theorem Safe.callZip : Safe h (Builtin.callZip args) := by
  refine SafeWith.bind (.fault _) fun h' given _ _ => ?_
  refine Safe.bind (.mapM fun v _ => .items v) fun h'' sequences _ known => ?_
  refine Safe.bind (.arrayMapM fun i _ => .newTuple fun v mem => ?_) fun _ _ _ rows => Safe.newList rows
  obtain ⟨s, inside, rfl⟩ := List.mem_map.1 (List.mem_toArray.1 mem)
  refine Heap.Holds.getD (fun item there => ?_) trivial
  exact known s inside item (Array.mem_of_getElem? there)

theorem Safe.callEnumerate : Safe h (Builtin.callEnumerate args) := by
  refine SafeWith.bind (.fault _) fun _ _ _ _ => SafeWith.bind (.fault _) fun _ start _ _ => ?_
  refine Safe.bind (.items _) fun h' all _ known => ?_
  refine SafeWith.bind (.unchecked _) fun h'' _ ages _ => ?_
  refine Safe.bind (.mapIdxM fun i item mem => .newTuple ?_) fun _ _ _ made => Safe.newList made
  exact Heap.Holds.toArray (Heap.holds_cons.2 ⟨trivial,
    Heap.holds_cons.2 ⟨(known item mem).aged ages, Heap.holds_nil⟩⟩)

theorem Safe.callGetattr (held : h.Holds args) : Safe h (Builtin.callGetattr args) := by
  refine Safe.bind (.ofFault (held.twoOrThree _)) fun h' given _ known => ?_
  obtain ⟨object, name, default⟩ := given
  refine SafeWith.bind (.fault _) fun h'' name ages _ => ?_
  refine Safe.bind (.attr? (known.1.aged ages) name) fun h''' found ages' there => ?_
  split
  · exact Safe.pure (Heap.holds_some.1 there)
  · exact Safe.pure ((Heap.holds_some.1 known.2.2).aged (ages.trans ages'))
  · exact Safe.noAttribute _ _

namespace SafeCaller

variable {caller : Caller} (safe : SafeCaller caller)
include safe

theorem callSum (held : h.Holds args) : Safe h (Builtin.callSum caller args) := by
  refine Safe.bind (.ofFault (held.oneOrTwo _)) fun h' given _ known => ?_
  obtain ⟨v, start⟩ := given
  dsimp only
  have first : h'.Holds (start.getD (.int 0)) := known.2.getD trivial
  split
  · exact .fail _
  · refine Safe.bind (.items v) fun h'' all ages each => ?_
    rw [← Array.foldlM_toList]
    refine SafeWith.foldlM (fun _ ages held => held.aged ages) (first.aged ages) ?_
    exact fun item mem _ total later _ => safe.binary _ total ((each.toList item mem).aged later)

theorem builtin (b : Builtin) (held : h.Holds args) : Safe h (b.call caller args) := by
  have text {h : Heap} {x : Eval String} (shown : Safe h x) : Safe h (do return Value.str (← x)) :=
    Safe.bind shown fun _ _ _ _ => Safe.pure trivial
  cases b with
  | print =>
    refine SafeWith.bind (.fault _) fun h' options ages _ => ?_
    refine Safe.bind (.mapM fun v mem => safe.str ((held.1 v mem).aged ages)) fun _ parts _ _ => ?_
    exact Safe.bind (.write _) fun _ _ _ _ => Safe.pure trivial
  | repr => exact Safe.bind (.ofFault (held.one _)) fun _ v _ known => text (safe.repr known)
  | str =>
    refine Safe.bind (.ofFault (held.upToOne _)) fun _ given _ known => ?_
    cases given with
    | none => exact Safe.pure trivial
    | some v => exact text (safe.str (Heap.holds_some.1 known))
  | abs =>
    refine SafeWith.bind (.fault _) fun _ v _ _ => ?_
    cases v.asNumber? with
    | none => exact .fail _
    | some x =>
      cases x with
      | int n => exact Safe.ofFault (Heap.Holds.exceptMap (fun n => by trivial) _)
      | float x => exact Safe.pure trivial
  | int => exact Safe.callInt
  | float => exact Safe.callFloat
  | bool =>
    refine SafeWith.bind (.fault _) fun _ given _ _ => ?_
    cases given with
    | none => exact Safe.pure trivial
    | some v => exact Safe.bind (.isTrue v) fun _ _ _ _ => Safe.pure trivial
  | divmod =>
    refine Safe.bind (.ofFault (held.two _)) fun _ given _ known => ?_
    refine Safe.bind (safe.binary _ _ known.2) fun _ quotient ages whole => ?_
    refine Safe.bind (safe.binary _ _ (known.2.aged ages)) fun _ rest later part => ?_
    exact Safe.newTuple (Heap.Holds.toArray (by simp [whole.aged later, part]))
  | min => exact Safe.callExtreme held
  | max => exact Safe.callExtreme held
  | sum => exact safe.callSum held
  | len => exact Safe.callLen
  | list =>
    exact SafeWith.bind (.fault _) fun _ given _ _ =>
      Safe.bind (.givenItems given) fun _ _ _ known => Safe.newList known
  | tuple =>
    exact SafeWith.bind (.fault _) fun _ given _ _ =>
      Safe.bind (.givenItems given) fun _ _ _ known => Safe.newTuple known
  | dict => exact Safe.callDict held
  | range => exact Safe.callRange
  | sorted =>
    change Safe h (Builtin.callSorted caller args)
    unfold Builtin.callSorted
    split
    · refine Safe.bind (.items _) fun h' all ages known => ?_
      exact Safe.bind (safe.sorted known (held.2.aged ages)) fun _ _ _ made => Safe.newList made
    · exact .fail _
  | enumerate => exact Safe.callEnumerate
  | zip => exact Safe.callZip
  | isinstance =>
    refine SafeWith.bind (.fault _) fun _ given _ _ => SafeWith.bind_ask fun _ _ _ => ?_
    split
    · exact Safe.pure trivial
    · exact .throw _
  | callable => exact SafeWith.bind (.fault _) fun _ _ _ _ => Safe.pure trivial
  | dir =>
    refine SafeWith.bind (.fault _) fun _ _ _ _ => SafeWith.bind_get fun m _ => ?_
    refine Safe.newList fun v mem => ?_
    obtain ⟨name, -, rfl⟩ := List.mem_map.1 (List.mem_toArray.1 mem)
    trivial
  | getattr => exact Safe.callGetattr held
  | hasattr =>
    refine Safe.bind (.ofFault (held.two _)) fun _ given _ known => ?_
    refine SafeWith.bind (.fault _) fun _ name ages _ => ?_
    exact Safe.bind (.attr? (known.1.aged ages) name) fun _ _ _ _ => Safe.pure trivial
  | setattr =>
    refine Safe.bind (.ofFault (held.three _)) fun _ given _ known => ?_
    refine SafeWith.bind (.fault _) fun _ name ages _ => ?_
    exact Safe.bind (.setAttr name (known.2.2.aged ages)) fun _ _ _ _ => Safe.pure trivial

end SafeCaller

end Eval

end Console
