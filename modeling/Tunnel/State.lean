import Tunnel.Text

/-!
# State shared with the dashboard

What the engine publishes and the dashboard reads.  The counters are atomics that wrap around.
-/

namespace Tunnel.State
open Text

/-- Byte counters at the exit boundary. -/
structure ExitStats where
  /-- Server to us. -/
  read : UInt64
  /-- Us to server. -/
  written : UInt64
deriving DecidableEq

def ExitStats.default : ExitStats := ⟨0, 0⟩

/-- `read.fetch_add(n as u64)`. -/
def ExitStats.addRead (s : ExitStats) (n : ℕ) : ExitStats := { s with read := s.read + .ofNat n }

/-- `written.fetch_add(n as u64)`. -/
def ExitStats.addWritten (s : ExitStats) (n : ℕ) : ExitStats :=
  { s with written := s.written + .ofNat n }

/-- Where the inbound forwarded port stands. -/
inductive Forward where
  | requesting (reason : Text)
  | opened (port : UInt16)
  | failed (reason : Text)
deriving DecidableEq

/-- The fields of `Status` that the exit driver writes. -/
structure Status where
  forward : Option Forward
  forwardedIn : ℕ
deriving DecidableEq

def Status.default : Status := ⟨none, 0⟩

end Tunnel.State
