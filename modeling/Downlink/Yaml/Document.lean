import Downlink.Yaml.Token

/-!
YAML documents of block and flow mappings, block and flow lists, and scalars. Block structure
follows the columns: the entries of one mapping or list start in one column, and what belongs to an
entry is further to the right, except that a list may start in the column of the key it belongs to.
-/

namespace Downlink.Yaml

open Value (Fields)

def flowPlain : Nat → Place → List Char → List Char × Place
  | 0, p, acc => (acc, p)
  | fuel + 1, p, acc =>
    let (cs, q) := plain true p
    let acc := if acc.isEmpty then cs else acc ++ ' ' :: cs
    let next := q.skipGap
    match q.skipSpaces.rest with
    | c :: _ =>
      if isEnd c && startsPlain true next.rest then flowPlain fuel next acc else (acc, q)
    | [] => (acc, q)

mutual

def flowNode : Nat → Place → Read Value
  | 0, _ => none
  | fuel + 1, p =>
    match p.rest with
    | '[' :: _ => flowItems fuel p.advance []
    | '\x7b' :: _ => flowFields fuel p.advance []
    | _ =>
      match quoted? p with
      | some r => r.map fun (cs, q) => (.text (String.ofList cs), q)
      | none =>
        if startsPlain true p.rest then
          let (cs, q) := flowPlain p.rest.length p []
          some (resolve cs, q)
        else none

def flowValue : Nat → Place → Read Value
  | 0, _ => none
  | fuel + 1, p =>
    match p.rest with
    | [] => none
    | c :: _ =>
      if c = ',' || c = ']' || c = '\x7d' then some (.null, p) else flowNode fuel p

def flowItems : Nat → Place → List Value → Read Value
  | 0, _, _ => none
  | fuel + 1, p, acc =>
    let p := p.skipGap
    match p.rest with
    | ']' :: _ => some (.list acc, p.advance)
    | _ =>
      match flowNode fuel p with
      | none => none
      | some (v, q) =>
        let q := q.skipGap
        let entry : Read Value :=
          match q.rest with
          | ':' :: _ => (flowValue fuel q.advance.skipGap).map fun (w, q) =>
              (.mapping [(v, w)], q.skipGap)
          | _ => some (v, q)
        match entry with
        | none => none
        | some (v, q) =>
          match q.rest with
          | ',' :: _ => flowItems fuel q.advance (acc ++ [v])
          | ']' :: _ => some (.list (acc ++ [v]), q.advance)
          | _ => none

def flowFields : Nat → Place → Fields → Read Value
  | 0, _, _ => none
  | fuel + 1, p, acc =>
    let p := p.skipGap
    match p.rest with
    | '\x7d' :: _ => some (.mapping acc, p.advance)
    | _ =>
      match flowNode fuel p with
      | none => none
      | some (k, q) =>
        let q := q.skipGap
        let field : Read Value :=
          match q.rest with
          | ':' :: _ => (flowValue fuel q.advance.skipGap).map fun (w, q) => (w, q.skipGap)
          | _ => some (.null, q)
        match field with
        | none => none
        | some (v, q) =>
          let acc := Fields.set acc k v
          match q.rest with
          | ',' :: _ => flowFields fuel q.advance acc
          | '\x7d' :: _ => some (.mapping acc, q.advance)
          | _ => none

end

/-- A plain scalar in block structure goes on over lines that are further in than `parent`. -/
def blockPlain (parent : Int) : Nat → Place → List Char → Read (List Char)
  | 0, _, _ => none
  | fuel + 1, p, acc =>
    let (cs, q) := plain false p
    let acc := if acc.isEmpty then cs else acc ++ ' ' :: cs
    if colonAhead q.skipSpaces then none
    else
      let next := q.skipGap
      match q.skipSpaces.rest with
      | c :: _ =>
        if isEnd c && parent < next.column && !next.rest.isEmpty && !dashAhead next then
          blockPlain parent fuel next acc
        else some (acc, q)
      | [] => some (acc, q)

def inlineValue (parent : Int) (p : Place) : Read Value :=
  match p.rest with
  | [] => none
  | c :: _ =>
    if c = '[' || c = '\x7b' then
      match flowNode (2 * p.rest.length + 2) p with
      | some (v, q) => if lineDone q then some (v, q) else none
      | none => none
    else
      match quoted? p with
      | some (some (cs, q)) => if lineDone q then some (.text (String.ofList cs), q) else none
      | some none => none
      | none =>
        if startsPlain false p.rest then
          (blockPlain parent (p.rest.length + 1) p []).map fun (cs, q) => (resolve cs, q)
        else none

def key? (p : Place) : Read Value :=
  match quoted? p with
  | some (some (cs, q)) =>
    let q := q.skipSpaces
    if colonAhead q then some (.text (String.ofList cs), q.advance) else none
  | some none => none
  | none =>
    if startsPlain false p.rest then
      let (cs, q) := plain false p
      let q := q.skipSpaces
      if colonAhead q then some (resolve cs, q.advance) else none
    else none

mutual

def blockNode : Nat → Int → Place → Read Value
  | 0, _, _ => none
  | fuel + 1, parent, p =>
    if dashAhead p then blockItems fuel p.column p []
    else if (key? p).isSome then blockFields fuel p.column p []
    else inlineValue parent p

def blockItems : Nat → Nat → Place → List Value → Read Value
  | 0, _, _, _ => none
  | fuel + 1, column, p, acc =>
    if p.column = column && dashAhead p then
      let next := p.advance.skipGap
      let item : Read Value :=
        if column < next.column && !next.rest.isEmpty then blockNode fuel column next
        else some (.null, p.advance)
      match item with
      | none => none
      | some (v, q) => blockItems fuel column q.skipGap (acc ++ [v])
    else if p.rest.isEmpty || p.column ≤ column then some (.list acc, p)
    else none

def blockFields : Nat → Nat → Place → Fields → Read Value
  | 0, _, _, _ => none
  | fuel + 1, column, p, acc =>
    if p.rest.isEmpty || p.column < column then some (.mapping acc, p)
    else if column < p.column then none
    else
      match key? p with
      | none => none
      | some (k, q) =>
        let next := q.skipGap
        let value : Read Value :=
          if !lineDone q then inlineValue column q.skipSpaces
          else if next.rest.isEmpty then some (.null, next)
          else if column < next.column then blockNode fuel column next
          else if next.column = column && dashAhead next then blockItems fuel column next []
          else some (.null, next)
        match value with
        | none => none
        | some (v, q) => blockFields fuel column q.skipGap (Fields.set acc k v)

end

def skipMark (p : Place) : Place :=
  match p.rest with
  | '-' :: '-' :: '-' :: r => if p.column = 0 && blankAhead r then Place.skipGap ⟨r, 3⟩ else p
  | _ => p

def parse (text : String) : Except Fault Value :=
  let p := skipMark (Place.skipGap ⟨text.toList, 0⟩)
  if p.rest.isEmpty then .ok .null
  else
    match blockNode (2 * p.rest.length + 2) (-1) p with
    | some (v, q) => if q.skipGap.rest.isEmpty then .ok v else .error .notADocument
    | none => .error .notADocument

end Downlink.Yaml
