import Console.Proofs.Evaluator.Safety

/-!
# Operations on values are safe

Attributes, texts, items and operators yield values of the heap that they are given values of. What is
put into a dict is put under a hashable key, and never beside an equal one.
-/

namespace Console

namespace Heap

variable {h : Heap}

theorem Sound.holds_instanceAttr? (sound : h.Sound) {r : Ref .inst} (held : h.Holds r)
    (name : String) : h.Holds (Eval.instanceAttr? h r name) := by
  have own := (sound.holds_inst held).2.get? name
  unfold Eval.instanceAttr?
  split
  · next found =>
    rw [found] at own
    exact own
  · intro v found
    obtain ⟨there, bound, rfl⟩ := Option.map_eq_some_iff.1 found
    have inClass := sound.holds_classAttr? _ name there bound
    cases there with
    | function f => exact ⟨held, inClass⟩
    | _ => exact inClass

/-- The values of a dict are those of its entries. -/
theorem mem_of_lookupEntry {key v : Value} {entries : List (Value × Value)}
    (found : h.lookupEntry key entries = some (some v)) : ∃ k, (k, v) ∈ entries := by
  induction entries with
  | nil => cases found
  | cons e entries ih =>
    rw [lookupEntry] at found
    cases answer : h.equals e.1 key with
    | none => simp [answer] at found
    | some same =>
      cases same with
      | true =>
        obtain rfl : e.2 = v := by simpa [answer] using found
        exact ⟨e.1, List.mem_cons_self⟩
      | false =>
        obtain ⟨k, mem⟩ := ih (by simpa [answer] using found)
        exact ⟨k, List.mem_cons_of_mem _ mem⟩

end Heap

namespace Eval

variable {h : Heap} {object : Value}

/-- The calls that an operation makes are safe. -/
structure SafeCaller (caller : Caller) : Prop where
  call : ∀ {h : Heap} {v : Value} {args : Arguments}, h.Holds v → h.Holds args →
    Safe h (caller.call v args)

theorem Safe.ofDepth {α : Type} [Refers α] {answer : Option α} (held : h.Holds answer) :
    Safe h (Eval.ofDepth answer) := by
  cases answer with
  | none => exact .exhausted
  | some a => exact .pure (held a rfl)

namespace Safe

theorem noAttribute {α : Type} [Refers α] (object : Value) (name : String) :
    Safe (α := α) h (Eval.noAttribute object name) :=
  SafeWith.bind_ask fun _ _ _ => .fail _

theorem attr? (held : h.Holds object) (name : String) : Safe h (Eval.attr? object name) := by
  unfold Eval.attr?
  split
  · exact ask fun h' ages sound => sound.holds_instanceAttr? (held.aged ages) name
  · split
    · exact SafeWith.bind_ask fun _ _ _ => pure fun _ found => by cases found; trivial
    · exact ask fun h' ages sound => sound.holds_classAttr? _ name
  · split
    · exact SafeWith.bind_ask fun _ _ _ => pure fun _ found => by cases found; trivial
    · exact pure nofun
  · refine SafeWith.bind_ask fun h' _ _ => ?_
    split
    · exact pure fun _ found => by cases found; trivial
    · split
      · refine Safe.bind (newTuple fun v mem => ?_) fun h'' v _ made => pure ?_
        · split at mem
          · cases Array.not_mem_empty _ mem
          · cases Array.mem_singleton.1 mem
            trivial
        · intro _ found
          cases found
          exact made
      · exact pure nofun
  · refine pure fun v found => ?_
    cases object with
    | list r | dict r =>
      obtain ⟨method, -, rfl⟩ := Option.map_eq_some_iff.1 found
      exact held
    | str s =>
      obtain ⟨method, -, rfl⟩ := Option.map_eq_some_iff.1 found
      trivial
    | _ => cases found

theorem getAttr (held : h.Holds object) (name : String) : Safe h (Eval.getAttr object name) := by
  refine Safe.bind (attr? held name) fun h' found _ known => ?_
  cases found with
  | none => exact noAttribute object name
  | some v => exact pure (known v rfl)

theorem setAttr (name : String) {v : Value} (value : h.Holds v) :
    Safe h (Eval.setAttr object name v) := by
  unfold Eval.setAttr
  split
  · exact changeInstance _ fun h' ages b held => held.set name (value.aged ages)
  · exact changeClass _ fun h' ages b held => held.set name (value.aged ages)
  · exact .fail _

theorem deleteAttr (object : Value) (name : String) : Safe h (Eval.deleteAttr object name) := by
  unfold Eval.deleteAttr
  split
  · refine SafeWith.bind_ask fun h' _ _ => ?_
    split
    · exact changeInstance _ fun h' ages b held => held.erase name
    · exact noAttribute _ _
  · refine SafeWith.bind_ask fun h' _ _ => ?_
    split
    · exact changeClass _ fun h' ages b held => held.erase name
    · exact noAttribute _ _
  · exact noAttribute _ _

end Safe

namespace SafeCaller

variable {caller : Caller} (safe : SafeCaller caller) {v : Value}
include safe

theorem callForText (held : h.Holds object) (method : String) :
    Safe h (Eval.callForText caller object method) := by
  refine Safe.bind (Safe.getAttr held method) fun h' f _ known => ?_
  refine Safe.bind (safe.call known ⟨List.forall_mem_nil _, List.forall_mem_nil _⟩) ?_
  intro h'' v _ _
  split
  · exact Safe.pure trivial
  · exact .fail _

theorem reprWithin (depth : Nat) (around : List Container) (held : h.Holds v) :
    Safe h (Eval.reprWithin caller depth around v) := by
  induction depth generalizing h around v with
  | zero => exact .exhausted
  | succ depth ih =>
    unfold Eval.reprWithin
    split
    · split
      · exact Safe.pure trivial
      · refine SafeWith.bind_ask fun h' _ sound => Safe.bind ?_ fun _ _ _ _ => Safe.pure trivial
        exact Safe.mapM fun item mem => ih _ ((sound.holds_list _).toList item mem)
    · refine SafeWith.bind_ask fun h' _ sound => Safe.bind ?_ fun _ _ _ _ => Safe.pure trivial
      exact Safe.mapM fun item mem => ih _ ((sound.holds_tuple _).toList item mem)
    · split
      · exact Safe.pure trivial
      · refine SafeWith.bind_ask fun h' _ sound => Safe.bind ?_ fun _ _ _ _ => Safe.pure trivial
        refine Safe.mapM fun e mem => ?_
        obtain ⟨key, value⟩ := (sound.holds_dict _).toList e mem
        refine Safe.bind (ih _ key).attempt fun h'' first ages _ => ?_
        refine Safe.bind (ih _ (value.aged ages)).attempt fun h''' second _ _ => ?_
        refine Safe.bind (Safe.ofExcept fun _ _ => trivial) fun _ _ _ _ => ?_
        exact Safe.bind (Safe.ofExcept fun _ _ => trivial) fun _ _ _ _ => Safe.pure trivial
    · refine SafeWith.bind_ask fun h' ages _ => ?_
      split
      · exact safe.callForText (held.aged ages) _
      · exact Safe.ask fun _ _ _ => trivial
    · exact Safe.ask fun _ _ _ => trivial

theorem repr (held : h.Holds v) : Safe h (Eval.repr caller v) := by
  rw [Eval.repr_eq]
  exact SafeWith.bind_ask fun h' ages _ => safe.reprWithin _ _ (held.aged ages)

theorem str (held : h.Holds v) : Safe h (Eval.str caller v) := by
  unfold Eval.str
  split
  · exact Safe.pure trivial
  · exact SafeWith.bind_ask fun _ _ _ => Safe.pure trivial
  · refine SafeWith.bind_ask fun h' ages _ => ?_
    split
    · exact safe.callForText (held.aged ages) _
    · exact safe.repr (held.aged ages)
  · exact safe.repr held

theorem keyMissing {α : Type} [Refers α] (held : h.Holds v) :
    Safe (α := α) h (Eval.keyMissing caller v) := by
  refine Safe.bind (safe.repr held).attempt fun h' text _ _ => ?_
  cases text with
  | ok text => exact .fail _
  | error e => exact .fail _

end SafeCaller

theorem SafeWith.checkHashable {key : Value} (held : h.Holds key) :
    SafeWith h (fun h' _ => h'.IsKey key) (Eval.checkHashable key) := by
  refine bind_ask fun h' ages sound => ?_
  cases found : h'.unhashable? key with
  | some type => exact .fail _
  | none =>
    have key := (Heap.unhashable?_eq_none_iff sound.layered (held.aged ages)).1 found
    exact .pure fun h'' later _ => Heap.IsKey.aged ⟨held.aged ages, key⟩ sound.layered later

theorem SafeWith.insertInto {entries : Array (Value × Value)} {key v : Value}
    (good : h.HoldsMap entries) (isKey : h.IsKey key) (held : h.Holds v) :
    SafeWith h (fun h' more => h'.HoldsMap more) (Eval.insertInto entries key v) := by
  refine .of_sound fun sound => bind_ask fun h' ages sound' => ?_
  obtain ⟨more, put, now⟩ := Heap.HoldsMap.insertEntry sound'.layered
    (good.aged sound.layered ages) (isKey.aged sound.layered ages) (held.aged ages)
  rw [put]
  exact .pure fun h'' later _ => now.aged sound'.layered later

namespace Safe

theorem items (v : Value) : Safe h (Eval.items v) := by
  unfold Eval.items
  split
  · exact ask fun h' _ sound => sound.holds_list _
  · exact ask fun h' _ sound => sound.holds_tuple _
  · refine pure fun item mem => ?_
    obtain ⟨c, -, rfl⟩ := List.mem_map.1 (List.mem_toArray.1 mem)
    trivial
  · refine SafeWith.bind_ask fun h' _ sound => pure fun item mem => ?_
    obtain ⟨e, inside, rfl⟩ := Array.mem_map.1 mem
    exact (sound.holds_dict _ e inside).1
  · exact .fail _

theorem lookup? (r : Ref .dict) (key : Value) : Safe h (Eval.lookup? r key) := by
  have checked : Safe h (Eval.checkHashable key) :=
    of_quiet (fun _ _ => trivial) fun _ => Agree.checkHashable key
  refine bind checked fun h' _ _ _ => SafeWith.bind_ask fun h'' _ sound => ?_
  refine ofDepth fun found same v mem => ?_
  cases mem
  obtain ⟨k, mem⟩ := Heap.mem_of_lookupEntry same
  exact ((sound.holds_dict r).toList _ mem).2

theorem placeOfKey? (r : Ref .dict) (key : Value) : Safe h (Eval.placeOfKey? r key) :=
  of_quiet (fun _ _ _ _ => trivial) fun _ => Agree.placeOfKey? r key

theorem setItem (object : Value) {index v : Value} (held : h.Holds index) (value : h.Holds v) :
    Safe h (Eval.setItem object index v) := by
  unfold Eval.setItem
  split
  · refine SafeWith.bind_ask fun h' ages _ => ?_
    refine bind (ofFault fun _ _ => trivial) fun h'' i ages' _ => ?_
    exact changeList _ fun h''' later items held =>
      held.setIfInBounds i (value.aged (ages.trans (ages'.trans later)))
  · refine SafeWith.bind (.checkHashable held) fun h' _ ages key => ?_
    refine .of_sound fun sound' => SafeWith.bind_ask fun h'' ages' sound => ?_
    refine SafeWith.bind (.insertInto (sound.holdsMap _) (key.aged sound'.layered ages') ?_) ?_
    · exact value.aged (ages.trans ages')
    · exact fun h''' more _ now => setDict _ now
  · exact .fail _

end Safe

namespace SafeCaller

variable {caller : Caller} (safe : SafeCaller caller) {index v : Value}
include safe

theorem getItem (object : Value) (held : h.Holds index) :
    Safe h (Eval.getItem caller object index) := by
  unfold Eval.getItem
  split
  · refine SafeWith.bind_ask fun h' _ sound => Safe.bind (.ofFault fun _ _ => trivial) ?_
    exact fun h'' i ages _ => Safe.pure ((sound.holds_list _ _ (Array.getElem_mem _)).aged ages)
  · refine SafeWith.bind_ask fun h' _ sound => Safe.bind (.ofFault fun _ _ => trivial) ?_
    exact fun h'' i ages _ => Safe.pure ((sound.holds_tuple _ _ (Array.getElem_mem _)).aged ages)
  · exact Safe.bind (.ofFault fun _ _ => trivial) fun h' i _ _ => Safe.pure trivial
  · refine Safe.bind (.lookup? _ index) fun h' found ages known => ?_
    cases found with
    | some v => exact Safe.pure (known v rfl)
    | none => exact safe.keyMissing (held.aged ages)
  · exact .fail _

theorem deleteItem (object : Value) (held : h.Holds index) :
    Safe h (Eval.deleteItem caller object index) := by
  unfold Eval.deleteItem
  split
  · refine SafeWith.bind_ask fun h' _ _ => Safe.bind (.ofFault fun _ _ => trivial) ?_
    exact fun h'' i _ _ => Safe.changeList _ fun _ _ items held => held.eraseIdxIfInBounds i
  · refine Safe.bind (.placeOfKey? _ index) fun h' found ages _ => ?_
    cases found with
    | some i => exact Safe.changeDict _ fun _ _ entries good => good.eraseIdxIfInBounds i
    | none => exact safe.keyMissing (held.aged ages)
  · exact .fail _

theorem percentConvert (d : Format.Percent.Directive) (held : h.Holds v) :
    Safe h (Format.Percent.convert caller d v) := by
  unfold Format.Percent.convert
  split
  · exact Safe.bind (safe.str held) fun _ _ _ _ => Safe.pure fun _ _ => trivial
  · exact Safe.bind (safe.repr held) fun _ _ _ _ => Safe.pure fun _ _ => trivial
  · exact Safe.bind (.ofFault fun _ _ => trivial) fun _ _ _ _ => Safe.pure fun _ _ => trivial
  · exact Safe.bind (.ofFault fun _ _ => trivial) fun _ _ _ _ => Safe.pure fun _ _ => trivial
  · exact Safe.bind (.ofFault fun _ _ => trivial) fun _ _ _ _ => Safe.pure fun _ _ => trivial
  · exact Safe.bind (.ofFault fun _ _ => trivial) fun _ _ _ _ => Safe.pure fun _ _ => trivial
  · exact .fail _

theorem percentFill (out : List Char) (pieces : List Format.Percent.Piece) {values : List Value}
    (held : h.Holds values) : Safe h (Format.Percent.fill caller out pieces values) := by
  induction pieces generalizing h out values with
  | nil =>
    cases values with
    | nil => exact Safe.pure fun _ _ => trivial
    | cons v values => exact .fail _
  | cons piece pieces ih =>
    cases piece with
    | plain c =>
      simp only [Format.Percent.fill]
      exact ih _ held
    | broken => cases values <;> exact .fail _
    | directive d =>
      cases values with
      | nil => exact .fail _
      | cons v values =>
        obtain ⟨first, others⟩ := List.forall_mem_cons.1 held
        exact Safe.bind (safe.percentConvert d first) fun h' text ages _ =>
          ih _ (Heap.Holds.aged others ages)

theorem percentFormat (text : String) (held : h.Holds v) :
    Safe h (Format.Percent.format caller text v) := by
  have spread : Safe h (Format.Percent.spread v) := by
    unfold Format.Percent.spread
    split
    · exact SafeWith.bind_ask fun h' _ sound => Safe.pure (sound.holds_tuple _).toList
    · exact Safe.pure (List.forall_mem_singleton.2 held)
  exact Safe.bind spread fun h' values _ held =>
    Safe.bind (safe.percentFill _ _ held) fun _ _ _ _ => Safe.pure trivial

end SafeCaller

/-- The outcome of an operation on numbers is a number. -/
theorem holds_numberOp (features : Features) (op : BinaryOp) (x y : Number) :
    h.Holds (Arithmetic.numberOp features op x y) := by
  have int (r : Except Fault Int64) : h.Holds (Value.int <$> r) :=
    Heap.Holds.exceptMap (fun n => by trivial) r
  have float (r : Except Fault Float) : h.Holds (Value.float <$> r) :=
    Heap.Holds.exceptMap (fun x => by trivial) r
  unfold Arithmetic.numberOp
  split
  · cases op <;> simp only [Arithmetic.intOp] <;> try split
    all_goals first | exact int _ | exact float _
  · exact float _

theorem holds_repeated {items : Array Value} (held : h.Holds items) (times : Nat) :
    h.Holds (repeated times items) := by
  have empty : h.Holds (#[] : Array Value) := fun v mem => absurd mem (Array.not_mem_empty v)
  unfold repeated
  split
  · exact empty
  · induction times with
    | zero => exact empty
    | succ times ih => exact ih.append held

namespace Safe

theorem isTrue (v : Value) : Safe h (Eval.isTrue v) :=
  of_quiet (fun _ _ => trivial) fun _ => Agree.isTrue v

theorem compare (op : Comparison) (left right : Value) : Safe h (Eval.compare op left right) :=
  of_quiet (fun _ _ => trivial) fun _ => Agree.compare op left right

theorem unary (op : UnaryOp) (v : Value) : Safe h (Eval.unary op v) := by
  unfold Eval.unary
  split
  · exact bind (isTrue v) fun _ _ _ _ => pure trivial
  · next x _ =>
    refine ofFault ?_
    cases x with
    | int n => exact Heap.Holds.exceptMap (fun n => by trivial) _
    | float x => exact fun _ found => by cases found; trivial
  · next x _ => cases x <;> exact pure trivial
  · exact .fail _
  · exact .fail _

theorem repeat? {left right : Value} {result : Eval Value}
    (product : Eval.multiply? left right = some result) : Safe h result := by
  have check {h : Heap} (size times : Nat) : Safe h (Eval.checkRepeat size times) :=
    of_quiet (fun _ _ => trivial) fun _ => Agree.checkRepeat size times
  have repeated {v : Value} {count : Int64} (one : Eval.repeat? v count = some result) :
      Safe h result := by
    unfold Eval.repeat? at one
    dsimp only at one
    split at one
    · cases one
      exact bind (check _ _) fun _ _ _ _ => pure trivial
    · cases one
      exact SafeWith.bind_ask fun h' _ sound => bind (check _ _) fun h'' _ ages _ =>
        newList (holds_repeated ((sound.holds_list _).aged ages) _)
    · cases one
      exact SafeWith.bind_ask fun h' _ sound => bind (check _ _) fun h'' _ ages _ =>
        newTuple (holds_repeated ((sound.holds_tuple _).aged ages) _)
    · cases one
  unfold Eval.multiply? at product
  split at product
  · exact repeated product
  · exact repeated product
  · cases product

end Safe

namespace SafeCaller

variable {caller : Caller} (safe : SafeCaller caller) {left right current v : Value}
include safe

theorem binary (op : BinaryOp) (left : Value) (held : h.Holds right) :
    Safe h (Eval.binary caller op left right) := by
  unfold Eval.binary
  split
  · exact SafeWith.bind_get fun m _ => Safe.ofFault (holds_numberOp _ _ _ _)
  · split
    · exact Safe.pure trivial
    · exact SafeWith.bind_ask fun h' _ sound =>
        Safe.newList ((sound.holds_list _).append (sound.holds_list _))
    · exact SafeWith.bind_ask fun h' _ sound =>
        Safe.newTuple ((sound.holds_tuple _).append (sound.holds_tuple _))
    · cases product : Eval.multiply? left right with
      | none => exact .fail _
      | some result => exact Safe.repeat? product
    · exact Safe.bind (safe.percentFormat _ held) fun _ _ _ _ => Safe.pure trivial
    · exact .fail _

theorem augment (op : BinaryOp) (held : h.Holds current) (operand : h.Holds v) :
    Safe h (Eval.augment caller op current v) := by
  unfold Eval.augment
  split
  · refine Safe.bind (.items v) fun h' more ages known => ?_
    refine Safe.bind (.changeList _ fun _ later _ held => held.append (known.aged later)) ?_
    exact fun h'' _ later _ => Safe.pure ((held.aged ages).aged later)
  · exact safe.binary op current operand

end SafeCaller

end Eval

end Console
