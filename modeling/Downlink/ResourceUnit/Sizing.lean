import Downlink.Fault

/-!
Sizing of a channel: the checks that a width is supported, that a tone count is a unit size and that
the size fits the width, and the cut chosen for a horizon.
-/

namespace Downlink

namespace Width

def check (w : Int) : Except Fault Width :=
  match ofMegahertz? w with
  | some width => .ok width
  | none => .error (.showing [w] (.setup (.unsupportedWidth w)))

theorem check_megahertz (w : Width) : check w.megahertz = .ok w := by
  cases w <;> rfl

end Width

namespace RuType

def check (tones : Int) : Except Fault RuType :=
  match ofTones? tones with
  | some t => .ok t
  | none => .error (.showing [tones] (.value (.unknownRuType tones)))

def checkPinned : Option Int → Except Fault (Option RuType)
  | none => .ok none
  | some tones => (check tones).map some

def perRound (w : Width) (t : RuType) : Except Fault Nat :=
  match perRound? w t with
  | some n => .ok n
  | none => .error (.setup (.unfitting t w))

def index (w : Width) (t : RuType) : Except Fault Nat :=
  match index? w t with
  | some i => .ok i
  | none => .error (.setup (.unfitting t w))

def perRoundAt (totalTones index : Int) : Except Fault Nat :=
  let outside : Fault := .showing [index, totalTones]
    (.setup (.typeIndexOutOfRange index totalTones))
  match Width.ofTotalTones? totalTones with
  | none => .error (.showing [totalTones] (.setup (.unknownTones totalTones)))
  | some w =>
    match index with
    | .ofNat i =>
      match w.splits[i]? with
      | some n => .ok n
      | none => .error outside
    | .negSucc _ => .error outside

def units (t : RuType) (count : Nat) : List Ru :=
  (List.range count).map fun i => ⟨t, Int.ofNat i + 1⟩

end RuType

def Sizing.of (w : Width) (t : RuType) : Except Fault Sizing :=
  match RuType.perRound w t, RuType.index w t with
  | .ok n, .ok i => .ok ⟨w, t, n, i, w.totalTones⟩
  | .error e, _ => .error e
  | _, .error e => .error e

def Sizing.forPackets (width packets : Int) (pinned : Option RuType) : Except Fault Sizing :=
  match Width.check width with
  | .error e => .error e
  | .ok w => Sizing.of w (pinned.getD (RuType.forPackets w packets))

def Sizing.units (s : Sizing) : List Ru := s.ruType.units s.perRound

theorem Sizing.units_length (s : Sizing) : s.units.length = s.perRound := by
  simp [Sizing.units, RuType.units]

end Downlink
