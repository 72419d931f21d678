import Downlink.Assignment
import Downlink.ResourceUnit.Sizing
import Downlink.Text.Integer

/-!
The texts exchanged with an external solver. It is called with the horizon length, the packet count,
the position of the unit size and the tone count, then three numbers per packet, with rounds counted
from the start of the horizon; a number that cannot be written keeps it from being called at all. It
answers with one line per served packet, index and round separated by a comma.
-/

namespace Downlink

open Text (decimal)

namespace Exchange

def entryNumbers (start : Int) (e : Entry) : List Int :=
  [e.arrival - start, e.deadline - start, e.penalty]

def numbers (s : Schedule) (z : Sizing) : List Int :=
  [s.rounds, s.entries.length, z.typeIndex, z.totalTones] ++
    s.entries.flatMap (entryNumbers s.start)

def arguments (s : Schedule) (z : Sizing) : Except Fault (List String) :=
  if (numbers s z).all Text.isWritable then .ok ((numbers s z).map decimal)
  else .error (.value .tooManyDigits)

def writtenChars (pairs : List (Int × Int)) : List Char :=
  pairs.flatMap fun p => Text.intDigits p.1 ++ ',' :: (Text.intDigits p.2 ++ ['\n'])

def written (pairs : List (Int × Int)) : String := String.ofList (writtenChars pairs)

def parseLine (number : Nat) (raw : List Char) : Except Fault (Int × Int) :=
  match Text.pieces (· = ',') (Text.strip raw) with
  | [a, b] =>
    match Text.integer? a, Text.integer? b with
    | some index, some round => .ok (index, round)
    | _, _ => .error (.solve (.nonInteger number (String.ofList raw)))
  | _ => .error (.solve (.malformedLine number (String.ofList raw)))

def parseLines (packets offset : Int) : Nat → List (List Char) → Assignment →
    Except Fault Assignment
  | _, [], m => .ok m
  | number, raw :: rest, m =>
    if (Text.strip raw).isEmpty then parseLines packets offset (number + 1) rest m
    else
      match parseLine number raw with
      | .error e => .error e
      | .ok (index, round) =>
        if !(0 ≤ index && index < packets) then
          .error (.solve (.indexOutOfRange number index))
        else if m.serves index then .error (.solve (.mappedTwice number index))
        else parseLines packets offset (number + 1) rest (m ++ [(index, round + offset)])

/-- The assignment written in a text, its rounds shifted by `offset`. -/
def parse (text : List Char) (packets offset : Int) : Except Fault Assignment :=
  parseLines packets offset 1 (Text.lines text) []

end Exchange

end Downlink
