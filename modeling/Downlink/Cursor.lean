import Downlink.Fault

/-!
A cursor walks one station's run of the active schedule: it names the entry that the station's next
packet belongs to. Reading past the run means that packets arrived more often than the period
allows.
-/

namespace Downlink

structure Cursor where
  station : Int
  start : Int
  stop : Int
  pos : Int
  deriving DecidableEq, Repr

namespace Cursor

/-- A negative position stands for the start of the run. -/
def make (station start stop pos : Int) : Except Fault Cursor :=
  let pos := if pos < 0 then start else pos
  if start ≤ pos && pos ≤ stop then .ok ⟨station, start, stop, pos⟩
  else .error (.value .cursorOutsideRun)

def atStart (station start stop : Int) : Cursor := ⟨station, start, stop, start⟩

def current (c : Cursor) : Except Fault Int :=
  if c.stop ≤ c.pos then
    .error (.showing [c.station, c.start, c.stop]
      (.desync (.runExhausted c.station c.start c.stop)))
  else .ok c.pos

def advance (c : Cursor) : Except Fault (Int × Cursor) :=
  c.current.map fun i => (i, { c with pos := c.pos + 1 })

def remaining (c : Cursor) : Int := c.stop - c.pos

end Cursor

end Downlink
