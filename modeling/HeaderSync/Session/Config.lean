/-!
# Settings of a download session
-/

namespace HeaderSync

structure Config where
  /-- One commitment bit is stored per this many headers. -/
  commitmentPeriod : UInt64 := 600
  /-- Number of verified headers that are held back. -/
  bufferSize : UInt64 := 12330
  /-- Seconds that a header's time may run ahead of the local clock. -/
  maxFutureTime : Int64 := 7200
deriving DecidableEq

end HeaderSync
