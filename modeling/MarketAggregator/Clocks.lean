import Mathlib.Algebra.Group.Nat.Defs
import Mathlib.Data.Int.Basic

/-!
# Instants and durations

A local observation carries a monotonic and a wall reading. Durations and
monotonic readings count nanoseconds from a fixed origin. The wall reading counts
nanoseconds from the Unix epoch and may be negative.
-/

namespace Clocks

def nanosPerMilli : Nat := 1000000

def nanosPerSec : Nat := 1000000000

def u64Max : Nat := 2 ^ 64 - 1

structure IngestTime where
  mono : Nat
  wall : Int
  deriving DecidableEq, Repr

/-- Elapsed monotonic time, zero when `earlier` is later. -/
def IngestTime.since (now earlier : IngestTime) : Nat := now.mono - earlier.mono

/-- Whole milliseconds, clamped to 64 bits. -/
def millis (d : Nat) : Nat := min (d / nanosPerMilli) u64Max

/-- Whole milliseconds since the epoch. A reading before it counts as zero. -/
def unixMillis (wall : Int) : Nat := if wall < 0 then 0 else millis wall.toNat

end Clocks
