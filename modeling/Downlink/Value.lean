import Downlink.Fault

/-!
Values of a settings document: scalars, lists and mappings. A mapping keeps its fields in order; a
field that is set again keeps its place. Values convert to the numbers and texts that settings need,
and `shown` writes one as text, nested texts in quotes.
-/

namespace Downlink

inductive Value where
  | null
  | flag (b : Bool)
  | number (n : Number)
  | text (s : String)
  | list (items : List Value)
  | mapping (fields : List (Value × Value))

namespace Value

abbrev Fields := List (Value × Value)

def whole (n : Int) : Value := number (.whole n)

def real (x : Float) : Value := number (.real x)

def ofWhole? : Option Int → Value
  | some n => whole n
  | none => null

def ofText? : Option String → Value
  | some s => text s
  | none => null

def isNull : Value → Bool
  | null => true
  | _ => false

/-- Null, false, zero and what is empty count as absent. -/
def isPresent : Value → Bool
  | null => false
  | flag b => b
  | number n => !n.isZero
  | text s => !s.isEmpty
  | list items => !items.isEmpty
  | mapping fields => !fields.isEmpty

def asNumber? : Value → Option Number
  | flag b => some (.whole (if b then 1 else 0))
  | number n => some n
  | _ => none

def sameNumber : Number → Number → Bool
  | .whole a, .whole b => a = b
  | .real a, .real b => a == b
  | .whole a, .real b => Binary64.ofInt? a |>.any (· == b)
  | .real a, .whole b => Binary64.ofInt? b |>.any (· == a)

def sameKey : Value → Value → Bool
  | null, null => true
  | text a, text b => a = b
  | a, b =>
    match a.asNumber?, b.asNumber? with
    | some x, some y => sameNumber x y
    | _, _ => false

def isScalar : Value → Bool
  | list _ => false
  | mapping _ => false
  | _ => true

namespace Fields

def get? (fs : Fields) (name : String) : Option Value :=
  (fs.find? fun f => sameKey f.1 (text name)).map Prod.snd

def getD (fs : Fields) (name : String) (default : Value) : Value := (get? fs name).getD default

def set (fs : Fields) (key value : Value) : Fields :=
  if fs.any fun f => sameKey f.1 key then
    fs.map fun f => if sameKey f.1 key then (f.1, value) else f
  else fs ++ [(key, value)]

def union (fs gs : Fields) : Fields := gs.foldl (fun fs g => set fs g.1 g.2) fs

def without (fs : Fields) (names : List String) : Fields :=
  fs.filter fun f => !names.any fun n => sameKey f.1 (text n)

end Fields

def fields : Value → Except Fault Fields
  | mapping fs => .ok fs
  | _ => .error .noField

mutual

def nested : Value → String
  | null => "None"
  | flag true => "True"
  | flag false => "False"
  | number n => n.text
  | text s => Text.quoted s
  | list items => Text.bracketed (nestedAll items)
  | mapping fields => "\x7b" ++ ", ".intercalate (nestedFields fields) ++ "\x7d"

def nestedAll : List Value → List String
  | [] => []
  | v :: vs => nested v :: nestedAll vs

def nestedFields : List (Value × Value) → List String
  | [] => []
  | (k, v) :: fs => (nested k ++ ": " ++ nested v) :: nestedFields fs

end

def shown : Value → String
  | text s => s
  | v => nested v

def kindName : Value → String
  | null => "NoneType"
  | flag _ => "bool"
  | number (.whole _) => "int"
  | number (.real _) => "float"
  | text _ => "str"
  | list _ => "list"
  | mapping _ => "dict"

/-- Toward zero from a floating-point number; a text is read as a whole number. -/
def toInt : Value → Except NumberFault Int
  | flag b => .ok (if b then 1 else 0)
  | number (.whole n) => .ok n
  | number (.real x) =>
    match Binary64.parts? x with
    | some e => .ok e.truncate
    | none => .error (if x.isNaN then .nanToInteger else .tooLarge)
  | text s =>
    match Text.integer? s.toList with
    | some n => .ok n
    | none => .error (.notInteger s)
  | v => .error (.wrongKind true v.kindName)

def toReal : Value → Except NumberFault Float
  | flag b => .ok (if b then 1 else 0)
  | number n =>
    match n.toReal? with
    | some x => .ok x
    | none => .error .tooLarge
  | text s =>
    match Text.real? s.toList with
    | some x => .ok x
    | none => .error (.notReal s)
  | v => .error (.wrongKind false v.kindName)

/-- What a value yields when it is gone through: the items of a list, the keys of a mapping, the
characters of a text. -/
def members : Value → Except Fault (List Value)
  | list items => .ok items
  | mapping fs => .ok (fs.map Prod.fst)
  | text s => .ok (s.toList.map fun c => text (String.ofList [c]))
  | _ => .error .wrongKind

end Value

end Downlink
