-- Moments as text.
import Std.Time

namespace Assay

/-- A moment in universal time as `2026-01-31T12:00:00.000001+00:00`: to the microsecond, which
is left out where it is zero. -/
def renderInstant (instant : Std.Time.Timestamp) : String :=
  let time := Std.Time.PlainDateTime.ofWallTime (.ofNanoseconds instant.toNanosecondsSinceUnixEpoch)
  let second := time.format "uuuu-MM-dd'T'HH:mm:ss"
  let whole := time.nanosecond.val < 1000
  (if whole then second else time.format "uuuu-MM-dd'T'HH:mm:ss.SSSSSS") ++ "+00:00"

end Assay
