import Console.Machine

/-!
# Attributes

Reading and writing `object.name`. An instance finds names in itself, then in its class and the
bases of that; a function found in a class is bound to the instance.
-/

namespace Console.Eval

/-- The built-in method of a list, text or dict. -/
def builtinMethod? (object : Value) (name : String) : Option Value :=
  match object with
  | .list r => (ListMethod.ofName? name).map (.listMethod r)
  | .str s => (StrMethod.ofName? name).map (.strMethod s)
  | .dict r => (DictMethod.ofName? name).map (.dictMethod r)
  | _ => none

/-- The names of the built-in methods of a value, in order. -/
def builtinMethodNames : Value → List String
  | .list _ => ListMethod.all.map (·.name)
  | .str _ => StrMethod.all.map (·.name)
  | .dict _ => DictMethod.all.map (·.name)
  | _ => []

/-- What an instance makes of a value found in its class. -/
def boundTo (receiver : Ref .inst) : Value → Value
  | .function f => .boundMethod receiver f
  | v => v

/-- What a name stands for on an instance. -/
def instanceAttr? (h : Heap) (r : Ref .inst) (name : String) : Option Value :=
  match (h.inst r).attrs.get? name with
  | some v => some v
  | none => (h.classAttr? (h.inst r).cls name).map (boundTo r)

/-- How an object is named when it lacks an attribute. -/
def ownerText (h : Heap) : Value → String
  | .instance r => s!"'{(h.cls (h.inst r).cls).name}' object"
  | .cls r => s!"class {(h.cls r).name}"
  | v => s!"'{v.typeName}' object"

def noAttribute {α : Type} (object : Value) (name : String) : Eval α := do
  fail (.noAttribute (← ask (ownerText · object)) name)

/-- What a name stands for on an object, if it is an attribute of it. -/
def attr? (object : Value) (name : String) : Eval (Option Value) := do
  match object with
  | .instance r => ask (instanceAttr? · r name)
  | .cls r =>
    if name = "__name__" then return some (.str (← ask (·.cls r)).name)
    else ask (·.classAttr? r name)
  | .function r =>
    if name = "__name__" then return some (.str (← ask (·.function r)).name) else return none
  | .exception r =>
    let e ← ask (·.exception r)
    if name = "message" then return some (.str e.message)
    else if name = "args" then
      return some (← newTuple (if e.message.isEmpty then #[] else #[.str e.message]))
    else return none
  | v => return builtinMethod? v name

def getAttr (object : Value) (name : String) : Eval Value := do
  match ← attr? object name with
  | some v => return v
  | none => noAttribute object name

def setAttr (object : Value) (name : String) (v : Value) : Eval Unit :=
  match object with
  | .instance r => changeInstance r (·.set name v)
  | .cls r => changeClass r (·.set name v)
  | object => fail (.readOnly object.typeName name)

/-- Removes an attribute that the object itself holds. -/
def deleteAttr (object : Value) (name : String) : Eval Unit := do
  match object with
  | .instance r =>
    if ((← ask (·.inst r)).attrs.get? name).isSome then changeInstance r (·.erase name)
    else noAttribute object name
  | .cls r =>
    if ((← ask (·.cls r)).attrs.get? name).isSome then changeClass r (·.erase name)
    else noAttribute object name
  | object => noAttribute object name

end Console.Eval
