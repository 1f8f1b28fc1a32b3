/-!
Instants in milliseconds since the epoch, within the range a calendar can show, and windows of
time.
-/
namespace StreamSelect

/-- A millisecond between the years -262143 and 262142. -/
structure Instant where
  millis : Int64
  least_le : -8334601228800000 ≤ millis.toInt
  le_greatest : millis.toInt ≤ 8210266876799999
  deriving DecidableEq

namespace Instant

/-- The instant at a millisecond, if it is in range. -/
def ofMillis? (millis : Int64) : Option Instant :=
  if h : -8334601228800000 ≤ millis.toInt ∧ millis.toInt ≤ 8210266876799999 then
    some ⟨millis, h.1, h.2⟩
  else none

def epoch : Instant := ⟨0, by decide, by decide⟩

/-- The instant at a millisecond; one out of range becomes the epoch. -/
def ofMillis (millis : Int64) : Instant := (ofMillis? millis).getD epoch

end Instant

/-- The bounds of a window and the instant at which it was complete. -/
structure Window where
  start : Instant
  stop : Instant
  emit : Instant
  deriving DecidableEq

/-- A window that is complete when it ends. -/
def Window.ofMillis (start stop : Int64) : Window :=
  ⟨.ofMillis start, .ofMillis stop, .ofMillis stop⟩

end StreamSelect
