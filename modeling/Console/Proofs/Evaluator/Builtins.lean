import Console.Call
import Console.Proofs.Evaluator.Operations

/-!
# Built-in callees

Built-in functions and methods depend on the evaluator only through the calls that they make, and leave
functions, scopes and names alone.
-/

namespace Console

namespace Eval

variable {I : Machine → Prop} (stable : Stable I) {caller caller' : Caller}

section

variable (callers : Callers I caller caller')
include stable callers

theorem Callers.bracesConvert (text : List Char) (spec : Format.Braces.Spec) (v : Value) :
    Agree I (Format.Braces.convert caller text spec v) (Format.Braces.convert caller' text spec v) := by
  have asText (f : String → List Char) : Agree I (do return f (← Eval.str caller v))
      (do return f (← Eval.str caller' v)) :=
    (callers.str stable v).bind fun text => Agree.pure (f text)
  unfold Format.Braces.convert
  dsimp only
  split
  · split
    · exact Agree.pure _
    · exact Agree.pure _
    · split
      · exact Agree.pure _
      · exact asText _
    · exact asText _
    · exact asText _
    · exact Agree.fail _
  · split
    · exact asText _
    · exact asText _
    · exact Agree.fail _

theorem Callers.bracesWrite (f : Format.Braces.Field) (v : Value) :
    Agree I (Format.Braces.write caller f v) (Format.Braces.write caller' f v) := by
  have shown : Agree I
      (if f.spec.isEmpty then do return (← Eval.str caller v).toList
        else Format.Braces.applySpec caller f.spec v)
      (if f.spec.isEmpty then do return (← Eval.str caller' v).toList
        else Format.Braces.applySpec caller' f.spec v) := by
    split
    · exact (callers.str stable v).bind fun _ => Agree.pure _
    · exact (callers.bracesConvert stable _ _ v).bind fun _ => Agree.pure _
  unfold Format.Braces.write
  split
  · exact (callers.repr stable v).bind fun _ => Agree.pure _
  · exact shown
  · exact shown
  · exact Agree.fail _

theorem Callers.bracesFill (args : Arguments) (next : Nat) (out : List Char)
    (pieces : List Format.Braces.Piece) :
    Agree I (Format.Braces.fill caller args next out pieces)
      (Format.Braces.fill caller' args next out pieces) := by
  induction pieces generalizing next out with
  | nil => exact Agree.pure _
  | cons piece pieces ih =>
    cases piece with
    | plain c => exact ih next _
    | field f =>
      exact (Agree.ofFault _).bind fun v => (callers.bracesWrite stable f v).bind fun text =>
        ih _ _
    | strayClose => exact Agree.fail _
    | strayOpen => exact Agree.fail _

omit stable in
theorem Callers.sorted (callee : String) (items : Array Value) (keywords : List (String × Value)) :
    Agree I (Eval.sorted caller callee items keywords)
      (Eval.sorted caller' callee items keywords) := by
  have options (given : SortOptions) : Agree I (Eval.sortOptions callee given keywords)
      (Eval.sortOptions callee given keywords) := by
    induction keywords generalizing given with
    | nil => exact Agree.pure _
    | cons k keywords ih =>
      unfold Eval.sortOptions
      split
      · exact ih _
      · split
        · exact (Agree.isTrue _).bind fun _ => ih _
        · exact Agree.fail _
  have key (f : Option Value) (item : Value) : Agree I (Eval.sortKey caller f item)
      (Eval.sortKey caller' f item) := by
    cases f with
    | none => exact Agree.pure _
    | some f => exact callers.call f _
  refine (options _).bind fun given => (Agree.mapM (fun item =>
    (key given.key item).bind fun _ => Agree.pure _) _).bind fun keyed =>
      (Agree.ask _).bind fun before => ?_
  split
  · exact Agree.pure _
  · exact Agree.throw _

theorem Callers.strMethod (s : String) (method : StrMethod) (args : Arguments) :
    Agree I (method.call caller s args) (method.call caller' s args) := by
  have mapped (name : String) (map : List Char → Value) (s : List Char) :
      Agree I (StrMethod.mapped name map s args) (StrMethod.mapped name map s args) :=
    (Agree.ofFault _).bind fun _ => Agree.pure _
  have strip (name : String) (left right : Bool) (s : List Char) :
      Agree I (StrMethod.callStrip name left right s args)
        (StrMethod.callStrip name left right s args) :=
    (Agree.ofFault _).bind fun _ => (Agree.ofFault _).bind fun _ => Agree.pure _
  cases method with
  | format =>
    exact ((callers.bracesFill stable args _ _ _).bind fun _ => Agree.pure _).bind fun _ =>
      Agree.pure _
  | split =>
    refine (Agree.ofFault _).bind fun given => (Agree.ofFault _).bind fun limit => ?_
    split
    · exact stable.newList _
    · exact stable.newList _
    · exact (Agree.ofFault _).bind fun sep => (stable.newList _).check
  | replace =>
    refine (Agree.ofFault _).bind fun given => (Agree.ofFault _).bind fun old =>
      (Agree.ofFault _).bind fun new => ?_
    split
    · split <;> simp
    · exact Agree.pure _
  | join =>
    exact (Agree.ofFault _).bind fun v => (Agree.items v).bind fun _ =>
      (Agree.ofFault _).bind fun _ => Agree.pure _
  | isdigit => exact mapped "isdigit" (fun s => .bool (StrMethod.isDigits s)) _
  | lower => exact mapped _ _ _
  | upper => exact mapped _ _ _
  | strip => exact strip _ _ _ _
  | lstrip => exact strip _ _ _ _
  | rstrip => exact strip _ _ _ _
  | _ => exact (Agree.ofFault _).bind fun _ => (Agree.ofFault _).bind fun _ => Agree.pure _

omit stable callers in
theorem Agree.placeOf? (r : Ref .list) (v : Value) :
    Agree I (ListMethod.placeOf? r v) (ListMethod.placeOf? r v) :=
  (Agree.ask _).bind fun answer => Agree.ofDepth answer

theorem Callers.listMethod (r : Ref .list) (method : ListMethod) (args : Arguments) :
    Agree I (method.call caller r args) (method.call caller' r args) := by
  cases method with
  | append =>
    exact (Agree.ofFault _).bind fun _ => (stable.changeList _ _).bind fun _ => Agree.pure _
  | count =>
    exact (Agree.ofFault _).bind fun _ => (Agree.ask _).bind fun _ => (Agree.ofDepth _).bind fun _ =>
      Agree.pure _
  | extend =>
    exact (Agree.ofFault _).bind fun v => (Agree.items v).bind fun _ =>
      (stable.changeList _ _).bind fun _ => Agree.pure _
  | index =>
    refine (Agree.ofFault _).bind fun v => (Agree.placeOf? r v).bind fun found => ?_
    cases found with
    | some i => exact Agree.pure _
    | none => exact (callers.repr stable v).bind fun _ => Agree.fail _
  | insert =>
    refine (Agree.ofFault _).bind fun given => ?_
    obtain ⟨position, item⟩ := given
    cases place : position.asInt? with
    | none => simp [place]
    | some n =>
      simp only [place]
      exact (stable.changeList _ _).bind fun _ => Agree.pure _
  | pop =>
    refine (Agree.ofFault _).bind fun position => (Agree.ask _).bind fun all => ?_
    split
    · cases position with
      | none => exact (Agree.pure _).bind fun _ => (stable.changeList _ _).bind fun _ => Agree.pure _
      | some v =>
        exact (Agree.ofFault _).bind fun _ => (stable.changeList _ _).bind fun _ => Agree.pure _
    · exact Agree.fail _
  | remove =>
    refine (Agree.ofFault _).bind fun v => (Agree.placeOf? r v).bind fun found => ?_
    cases found with
    | some i => exact (stable.changeList _ _).bind fun _ => Agree.pure _
    | none => exact Agree.fail _
  | reverse =>
    exact (Agree.ofFault _).bind fun _ => (stable.changeList _ _).bind fun _ => Agree.pure _
  | sort =>
    exact ((Agree.ask _).bind fun _ => (callers.sorted _ _ _).bind fun _ =>
      (stable.changeList _ _).bind fun _ => Agree.pure _).check

omit stable callers in
theorem Agree.insertAll (entries : Array (Value × Value)) (pairs : List (Value × Value)) :
    Agree I (Eval.insertAll entries pairs) (Eval.insertAll entries pairs) :=
  Agree.foldlM (fun _ _ => Agree.insertInto _ _ _) entries pairs

omit stable callers in
theorem Agree.pairs (v : Value) : Agree I (Eval.pairs v) (Eval.pairs v) := by
  have one (position : Nat) (v : Value) :
      Agree I (Eval.pairOf position v) (Eval.pairOf position v) := by
    refine (Agree.items v).bind fun parts => ?_
    split
    · exact (Agree.checkHashable _).bind fun _ => Agree.pure _
    · exact Agree.fail _
  have all (position : Nat) (done : Array (Value × Value)) (vs : List Value) :
      Agree I (Eval.pairsFrom position done vs) (Eval.pairsFrom position done vs) := by
    induction vs generalizing position done with
    | nil => exact Agree.pure _
    | cons v vs ih => exact (one position v).bind fun pair => ih _ _
  unfold Eval.pairs
  split
  · exact Agree.ask _
  · exact (Agree.items _).bind fun _ => all _ _ _

theorem Callers.dictMethod (r : Ref .dict) (method : DictMethod) (args : Arguments) :
    Agree I (method.call caller r args) (method.call caller' r args) := by
  cases method with
  | items =>
    exact (Agree.ofFault _).bind fun _ => (Agree.ask _).bind fun _ =>
      (Agree.arrayMapM (fun _ => stable.newTuple _) _).bind fun _ => stable.newList _
  | keys => exact (Agree.ofFault _).bind fun _ => (Agree.ask _).bind fun _ => stable.newList _
  | values => exact (Agree.ofFault _).bind fun _ => (Agree.ask _).bind fun _ => stable.newList _
  | get =>
    exact (Agree.ofFault _).bind fun _ => (Agree.lookup? _ _).bind fun _ => Agree.pure _
  | setdefault =>
    refine (Agree.ofFault _).bind fun given => (Agree.lookup? _ _).bind fun found => ?_
    cases found with
    | some v => exact Agree.pure v
    | none => exact (stable.changeDict _ _).bind fun _ => Agree.pure _
  | pop =>
    refine (Agree.ofFault _).bind fun given => (Agree.placeOfKey? _ _).bind fun found => ?_
    split
    · exact (Agree.ask _).bind fun _ => (stable.changeDict _ _).bind fun _ => Agree.pure _
    · exact Agree.pure _
    · exact callers.keyMissing stable _
  | update =>
    have puts (given : Array (Value × Value)) : Agree I
        (do
          let more := given.toList ++ keywordPairs args.keywords
          setDict r (← Eval.insertAll (← Eval.ask (·.dict r)) more)
          return Value.none)
        (do
          let more := given.toList ++ keywordPairs args.keywords
          setDict r (← Eval.insertAll (← Eval.ask (·.dict r)) more)
          return Value.none) :=
      (Agree.ask _).bind fun _ => (Agree.insertAll _ _).bind fun _ =>
        (stable.setDict _ _).bind fun _ => Agree.pure _
    change Agree I (DictMethod.callUpdate r args) (DictMethod.callUpdate r args)
    unfold DictMethod.callUpdate
    split
    · exact (Agree.pure _).bind puts
    · exact (Agree.pairs _).bind puts
    · exact (Agree.fail _).bind puts

omit stable callers in
theorem Agree.callInt (args : Arguments) : Agree I (Builtin.callInt args) (Builtin.callInt args) := by
  refine (Agree.ofFault _).bind fun given => (Agree.ofFault _).bind fun radix => ?_
  split <;> simp

omit stable callers in
theorem Agree.callFloat (args : Arguments) :
    Agree I (Builtin.callFloat args) (Builtin.callFloat args) := by
  refine (Agree.ofFault _).bind fun given => ?_
  split
  · exact Agree.pure _
  · exact Agree.ofFault _
  · split <;> simp

omit stable callers in
theorem Agree.callExtreme (callee : String) (wanted : Ordering) (args : Arguments) :
    Agree I (Builtin.callExtreme callee wanted args) (Builtin.callExtreme callee wanted args) := by
  have among (kept : Value) (vs : List Value) :
      Agree I (Builtin.extreme wanted kept vs) (Builtin.extreme wanted kept vs) := by
    induction vs generalizing kept with
    | nil => exact Agree.pure kept
    | cons v vs ih => exact (Agree.order _ _).bind fun _ => ih _
  have best {x : Eval (List Value)} {next : List Value → Eval Value} (candidates : Agree I x x)
      (nothing : next [] = Eval.fail (.extremeOfNothing callee))
      (follows : ∀ first rest, next (first :: rest) = Builtin.extreme wanted first rest) :
      Agree I (x >>= next) (x >>= next) := by
    refine candidates.bind fun vs => ?_
    cases vs with
    | nil => rw [nothing]; exact Agree.fail _
    | cons first rest => rw [follows]; exact among first rest
  refine (Agree.ofFault _).bind fun given => ?_
  dsimp only
  split
  · exact best (Agree.fail _) rfl fun _ _ => rfl
  · exact (Agree.items _).bind fun _ => best (Agree.pure _) rfl fun _ _ => rfl
  · exact best (Agree.pure _) rfl fun _ _ => rfl

theorem Callers.callSum (args : Arguments) :
    Agree I (Builtin.callSum caller args) (Builtin.callSum caller' args) := by
  refine (Agree.ofFault _).bind fun given => ?_
  dsimp only
  split
  · exact Agree.fail _
  · exact (Agree.items _).bind fun _ =>
      Agree.arrayFoldlM (fun _ _ => callers.binary stable _ _ _) _ _

omit stable callers in
theorem Agree.callLen (args : Arguments) : Agree I (Builtin.callLen args) (Builtin.callLen args) := by
  refine (Agree.ofFault _).bind fun v => ?_
  dsimp only
  split
  · exact (Agree.ask _).bind fun _ => (Agree.pure _).bind fun _ => Agree.pure _
  · exact (Agree.ask _).bind fun _ => (Agree.pure _).bind fun _ => Agree.pure _
  · exact (Agree.ask _).bind fun _ => (Agree.pure _).bind fun _ => Agree.pure _
  · exact (Agree.pure _).bind fun _ => Agree.pure _
  · exact (Agree.fail _).bind fun _ => Agree.pure _

omit callers in
theorem Stable.callRange (args : Arguments) :
    Agree I (Builtin.callRange args) (Builtin.callRange args) := by
  refine (Agree.ofFault _).bind fun given => (Agree.ofFault _).bind fun r => ?_
  exact ((Agree.ofUnchecked _).bind fun _ => stable.newList _).check.check

omit callers in
theorem Stable.callDict (args : Arguments) :
    Agree I (Builtin.callDict args) (Builtin.callDict args) := by
  have makes (given : Array (Value × Value)) : Agree I
      (do Eval.newDict (← Eval.insertAll #[] (given.toList ++ keywordPairs args.keywords)))
      (do Eval.newDict (← Eval.insertAll #[] (given.toList ++ keywordPairs args.keywords))) :=
    (Agree.insertAll _ _).bind fun _ => stable.newDict _
  unfold Builtin.callDict
  dsimp only
  split
  · exact (Agree.pure _).bind makes
  · exact (Agree.pairs _).bind makes
  · exact (Agree.fail _).bind makes

omit stable callers in
theorem Agree.givenItems (given : Option Value) :
    Agree I (Builtin.givenItems given) (Builtin.givenItems given) := by
  cases given with
  | none => exact Agree.pure _
  | some v => exact Agree.items v

omit callers in
theorem Stable.callGetattr (args : Arguments) :
    Agree I (Builtin.callGetattr args) (Builtin.callGetattr args) := by
  refine (Agree.ofFault _).bind fun given => (Agree.ofFault _).bind fun name =>
    (stable.attr? _ _).bind fun found => ?_
  split <;> simp

theorem Callers.builtin (b : Builtin) (args : Arguments) :
    Agree I (b.call caller args) (b.call caller' args) := by
  cases b with
  | print =>
    exact (Agree.ofFault _).bind fun _ =>
      (Agree.mapM (callers.str stable) _).bind fun _ => (stable.write _).bind fun _ => Agree.pure _
  | repr => exact (Agree.ofFault _).bind fun v => (callers.repr stable v).bind fun _ => Agree.pure _
  | str =>
    refine (Agree.ofFault _).bind fun given => ?_
    cases given with
    | none => exact Agree.pure _
    | some v => exact (callers.str stable v).bind fun _ => Agree.pure _
  | abs =>
    refine (Agree.ofFault _).bind fun v => ?_
    cases v.asNumber? <;> simp
  | int => exact Agree.callInt args
  | float => exact Agree.callFloat args
  | bool =>
    refine (Agree.ofFault _).bind fun given => ?_
    cases given with
    | none => exact Agree.pure _
    | some v => exact (Agree.isTrue v).bind fun _ => Agree.pure _
  | divmod =>
    exact (Agree.ofFault _).bind fun _ => (callers.binary stable _ _ _).bind fun _ =>
      (callers.binary stable _ _ _).bind fun _ => stable.newTuple _
  | min => exact Agree.callExtreme _ _ args
  | max => exact Agree.callExtreme _ _ args
  | sum => exact callers.callSum stable args
  | len => exact Agree.callLen args
  | list => exact (Agree.ofFault _).bind fun _ => (Agree.givenItems _).bind fun _ => stable.newList _
  | tuple => exact (Agree.ofFault _).bind fun _ => (Agree.givenItems _).bind fun _ => stable.newTuple _
  | dict => exact stable.callDict args
  | range => exact stable.callRange args
  | sorted =>
    change Agree I (Builtin.callSorted caller args) (Builtin.callSorted caller' args)
    unfold Builtin.callSorted
    split
    · exact (Agree.items _).bind fun _ => (callers.sorted _ _ _).bind fun _ => stable.newList _
    · exact Agree.fail _
  | enumerate =>
    exact (Agree.ofFault _).bind fun _ => (Agree.ofFault _).bind fun _ => (Agree.items _).bind fun _ =>
      (Agree.ofUnchecked _).bind fun _ => (Agree.mapIdxM (fun _ _ => stable.newTuple _) _).bind
        fun _ => stable.newList _
  | zip =>
    exact (Agree.ofFault _).bind fun _ => (Agree.mapM Agree.items _).bind fun _ =>
      (Agree.arrayMapM (fun _ => stable.newTuple _) _).bind fun _ => stable.newList _
  | isinstance =>
    refine (Agree.ofFault _).bind fun given => (Agree.ask _).bind fun answer => ?_
    cases answer with
    | ok same => exact Agree.pure _
    | error stop => exact Agree.throw stop
  | callable => exact (Agree.ofFault _).bind fun _ => Agree.pure _
  | dir => exact (Agree.ofFault _).bind fun _ => Agree.get.bind fun _ => stable.newList _
  | getattr => exact stable.callGetattr args
  | hasattr =>
    exact (Agree.ofFault _).bind fun _ => (Agree.ofFault _).bind fun _ =>
      (stable.attr? _ _).bind fun _ => Agree.pure _
  | setattr =>
    exact (Agree.ofFault _).bind fun _ => (Agree.ofFault _).bind fun _ =>
      (stable.setAttr _ _ _).bind fun _ => Agree.pure _

theorem Callers.exception (kind : ExceptionKind) (args : Arguments) :
    Agree I (Call.exception caller kind args) (Call.exception caller' kind args) := by
  have makes (message : String) : Agree I (Eval.newException kind message)
      (Eval.newException kind message) := stable.newException kind message
  refine (Agree.ofFault _).bind fun given => ?_
  dsimp only
  split
  · exact (Agree.pure _).bind makes
  · exact (callers.str stable _).bind makes
  · exact (stable.newTuple _).bind fun _ => (callers.repr stable _).bind makes

omit callers in
theorem Stable.instantiate {call call' : Value → Arguments → Eval Value}
    (calls : ∀ v args, Agree I (call v args) (call' v args)) (r : Ref .cls) (args : Arguments) :
    Agree I (Call.instantiate call r args) (Call.instantiate call' r args) := by
  refine (stable.newInstance r).bind fun object => (Agree.ask _).bind fun init => ?_
  dsimp only
  split
  · exact (calls _ _).bind fun result => (Agree.pure _).check
  · exact (calls _ _).discard.bind fun _ => Agree.pure _
  · split
    · exact (Agree.ask _).bind fun _ => (Agree.fail _).bind fun _ => Agree.pure _
    · exact Agree.pure _

end

end Eval

end Console
