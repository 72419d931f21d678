/-!
Resource units of a channel. A channel of 20 or 40 MHz is cut into equal resource units; the size of
the units, counted in tones, fixes how many of them a round offers.
-/

namespace Downlink

inductive Width where
  | mhz20
  | mhz40
  deriving DecidableEq, Repr

inductive RuType where
  | tones26
  | tones52
  | tones106
  | tones242
  | tones484
  deriving DecidableEq, Repr

structure Ru where
  type : RuType
  index : Int
  deriving DecidableEq, Repr

structure Sizing where
  width : Width
  ruType : RuType
  perRound : Nat
  typeIndex : Nat
  totalTones : Int
  deriving DecidableEq, Repr

namespace Width

def megahertz : Width → Int
  | mhz20 => 20
  | mhz40 => 40

def ofMegahertz? (w : Int) : Option Width :=
  if w = 20 then some mhz20 else if w = 40 then some mhz40 else none

def totalTones : Width → Int
  | mhz20 => 242
  | mhz40 => 484

def ofTotalTones? (tones : Int) : Option Width :=
  if tones = 242 then some mhz20 else if tones = 484 then some mhz40 else none

def sizes : Width → List RuType
  | mhz20 => [.tones26, .tones52, .tones106, .tones242]
  | mhz40 => [.tones26, .tones52, .tones106, .tones242, .tones484]

/-- Units per round for each size, smallest size first, as the external solver tabulates them. -/
def splits : Width → List Nat
  | mhz20 => [9, 4, 2, 1]
  | mhz40 => [18, 8, 4, 2, 1]

end Width

namespace RuType

def all : List RuType := [tones26, tones52, tones106, tones242, tones484]

def tones : RuType → Int
  | tones26 => 26
  | tones52 => 52
  | tones106 => 106
  | tones242 => 242
  | tones484 => 484

def ofTones? (n : Int) : Option RuType := all.find? fun t => t.tones = n

def name (t : RuType) : String := s!"RU_{t.tones}_TONE"

def bandwidth : RuType → Int
  | tones26 => 2
  | tones52 => 4
  | tones106 => 8
  | tones242 => 20
  | tones484 => 40

def perRound? : Width → RuType → Option Nat
  | .mhz20, tones26 => some 9
  | .mhz20, tones52 => some 4
  | .mhz20, tones106 => some 2
  | .mhz20, tones242 => some 1
  | .mhz20, tones484 => none
  | .mhz40, tones26 => some 18
  | .mhz40, tones52 => some 8
  | .mhz40, tones106 => some 4
  | .mhz40, tones242 => some 2
  | .mhz40, tones484 => some 1

def index? (w : Width) (t : RuType) : Option Nat := w.sizes.findIdx? (· = t)

/-- More packets in a horizon call for smaller units, hence for more of them in a round. -/
def forPackets : Width → Int → RuType
  | .mhz20, n =>
    if n ≤ 1 then tones242 else if n = 2 then tones106 else if n ≤ 4 then tones52 else tones26
  | .mhz40, n =>
    if n ≤ 1 then tones484 else if n = 2 then tones242 else if n ≤ 4 then tones106
    else if n ≤ 8 then tones52 else tones26

theorem ofTones?_tones (t : RuType) : ofTones? t.tones = some t := by
  cases t <;> decide

theorem splits_index? (w : Width) (t : RuType) :
    (index? w t).bind (w.splits[·]?) = perRound? w t := by
  cases w <;> cases t <;> decide

end RuType

end Downlink
