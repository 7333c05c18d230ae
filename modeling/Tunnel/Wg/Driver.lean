import Tunnel.Inspect.Protocol
import Tunnel.Portmap.Lease
import Tunnel.State
import Tunnel.Wg.Nat44

/-!
# Wg — The exit driver

`route`, which owns the NAT, the session of boringtun and the encrypted socket, and `deliver`.

boringtun is not part of the repository: a session is a type parameter with the three calls the
driver makes on it (`Tunn`).  The sockets and channels are on the other side of the labels: which
packets are read together, what the clock says, and whether the far end of a send is still there.
What the driver hands on is kept in the order it was handed on.  The dashboard's lock is always
taken, and the log is left out.

`DriverStep` is one turn of the driver's loop.
-/

namespace Tunnel.Wg
open Support
open Inspect (Direction)
open State (ExitStats Status)

def DRAIN_BUDGET : ℕ := 1024

/-- Where the forwarded port comes from. -/
inductive ForwardPlan where
  | fixed (host : Ipv4Addr) (port : UInt16)
  | leased (host gateway : Ipv4Addr)
deriving DecidableEq

def ForwardPlan.host : ForwardPlan → Ipv4Addr
  | .fixed host _ => host
  | .leased host _ => host

/-- The fields of `WgConfig` the driver's loop reads. -/
structure WgConfig where
  address : Ipv4Addr
  forward : Option ForwardPlan
deriving DecidableEq

/-! ### boringtun -/

inductive TunnResult where
  | done
  | err
  | writeToNetwork (out : Bytes)
  | writeToTunnelV4 (pkt : Bytes)
  | writeToTunnelV6 (pkt : Bytes)
deriving DecidableEq

/-- The calls the driver makes on a session. -/
structure Tunn (τ : Type) where
  encapsulate : τ → Bytes → TunnResult × τ
  decapsulate : τ → Bytes → TunnResult × τ
  updateTimers : τ → TunnResult × τ

/-! ### The driver's state -/

structure Driver (τ : Type) where
  tunn : τ
  nat : Nat44
  stats : ExitStats
  status : Status
  shed : ℕ
  /-- The packets shown to the monitor. -/
  recorded : List (Direction × Bytes)
  /-- The packets encapsulated, each with the datagram that came of it. -/
  encapsulated : List (Bytes × Option Bytes)
  /-- The datagrams the endpoint socket took. -/
  sent : List Bytes
  /-- The IPv4 packets decapsulated. -/
  decapsulated : List Bytes
  /-- The packets the TUN writer took. -/
  delivered : List Bytes
  /-- The loop was left. -/
  stopped : Bool

section
variable {τ : Type}

def Driver.new (address : Ipv4Addr) (tunn : τ) : Driver τ where
  tunn
  nat := .new address
  stats := .default
  status := .default
  shed := 0
  recorded := []
  encapsulated := []
  sent := []
  decapsulated := []
  delivered := []
  stopped := false

/-- The state in which the loop is entered. -/
def Driver.start (config : WgConfig) (tunn : τ) : Driver τ :=
  let d := Driver.new config.address tunn
  match config.forward with
  | some (.fixed host port) => { d with
      nat := d.nat.setForward host port
      status := { d.status with forward := some (.opened port) } }
  -- the lease thread is started, and has yet to report
  | some (.leased _ _) => d
  | none => d

end

/-! ### Host to peer -/

/-- A packet of a burst, the time it is translated at, and whether the socket takes what comes of
it. -/
structure Outbound where
  pkt : Bytes
  now : Instant
  taken : Bool
deriving DecidableEq

/-- A round of `deliver`: the time, and whether the far end takes what comes of it. -/
structure Round where
  now : Instant
  taken : Bool
deriving DecidableEq

namespace Driver

variable {τ : Type} (T : Tunn τ)

/-- One packet of a burst.  `false` once the endpoint socket is closed. -/
def carry (d : Driver τ) (o : Outbound) : Checked (Bool × Driver τ) := do
  let d := { d with recorded := d.recorded ++ [(Direction.up, o.pkt)] }
  let (verdict, nat, pkt) ← d.nat.translateOut o.pkt o.now
  let d := { d with nat }
  match verdict with
  | .translate =>
    match T.encapsulate d.tunn pkt with
    | (.writeToNetwork out, tunn) =>
      let d := { d with
        tunn
        encapsulated := d.encapsulated ++ [(pkt, some out)]
        stats := d.stats.addWritten pkt.length }
      if o.taken then return (true, { d with sent := d.sent ++ [out] })
      else return (false, d)
    | (_, tunn) => return (true, { d with
        tunn
        encapsulated := d.encapsulated ++ [(pkt, none)] })
  | .exhausted => return (true, { d with shed := d.shed + 1 })
  | .drop => return (true, d)

/-- The packets drained in one wake. -/
def burst : List Outbound → Driver τ → Checked (Bool × Driver τ)
  | [], d => return (true, d)
  | o :: os, d => do
    let (open_, d) ← d.carry T o
    if open_ then burst os d else return (false, d)

/-! ### Peer to host -/

/-- An IPv4 packet that a datagram yielded.  `false` once the TUN writer is gone. -/
def accept (d : Driver τ) (pkt : Bytes) (r : Round) : Checked (Bool × Driver τ) := do
  let d := { d with
    decapsulated := d.decapsulated ++ [pkt]
    stats := d.stats.addRead pkt.length }
  let (verdict, nat, pkt) ← d.nat.translateIn pkt r.now
  let d := { d with nat }
  if verdict = .translate then
    let d := { d with recorded := d.recorded ++ [(Direction.down, pkt)] }
    if r.taken then return (true, { d with delivered := d.delivered ++ [pkt] })
    else return (false, d)
  else return (true, d)

/-- `deliver`, for as many rounds as there are.  `false` once the TUN writer or the endpoint socket
is gone. -/
def deliver : List Round → Bytes → Driver τ → Checked (Bool × Driver τ)
  | [], _, _ => .error .outOfFuel
  | r :: rs, input, d => do
    let (res, tunn) := T.decapsulate d.tunn input
    let d := { d with tunn }
    match res with
    | .writeToNetwork out =>
      if r.taken then deliver rs [] { d with sent := d.sent ++ [out] } else return (false, d)
    | .writeToTunnelV4 pkt =>
      let (open_, d) ← d.accept pkt r
      if open_ then deliver rs [] d else return (false, d)
    | .writeToTunnelV6 _ => deliver rs [] d
    | .done => return (true, d)
    | .err => return (true, d)

/-- The datagrams received in one wake, each with the rounds of its delivery. -/
def receive : List (Bytes × List Round) → Driver τ → Checked (Bool × Driver τ)
  | [], d => return (true, d)
  | (datagram, rounds) :: rest, d => do
    let (open_, d) ← d.deliver T rounds datagram
    if open_ then receive rest d else return (false, d)

/-! ### The other arms -/

def updateTimers (d : Driver τ) (taken : Bool) : Driver τ :=
  match T.updateTimers d.tunn with
  | (.writeToNetwork out, tunn) =>
    { d with tunn, sent := if taken then d.sent ++ [out] else d.sent }
  | (_, tunn) => { d with tunn }

/-- A report of the lease thread. -/
def follow (d : Driver τ) (host : Ipv4Addr) : Portmap.Event → Driver τ
  | .mapped port => { d with
      nat := d.nat.setForward host port
      status := { d.status with forward := some (.opened port) } }
  | .pending reason => { d with
      nat := d.nat.clearForward
      status := { d.status with forward := some (.requesting reason) } }
  | .lost reason => { d with
      nat := d.nat.clearForward
      status := { d.status with forward := some (.failed reason) } }

def housekeeping (config : WgConfig) (d : Driver τ) (now : Instant) : Driver τ :=
  let d := { d with nat := (d.nat.expire now).2 }
  if config.forward.isSome then
    { d with status := { d.status with forwardedIn := d.nat.forwardedIn } }
  else d

end Driver

/-! ### The loop -/

/-- What the loop wakes up to. -/
inductive Arm where
  /-- A shutdown signal, or the end of the TUN reader. -/
  | leave
  | burst (first : Outbound) (rest : List Outbound)
  | receive (first : Bytes × List Round) (rest : List (Bytes × List Round))
  | receiveFailed
  | timer (taken : Bool)
  | event (ev : Portmap.Event)
  | housekeeping (now : Instant)

/-- One wake, and what the shutdown flag reads after it. -/
structure Turn where
  arm : Arm
  shutdown : Bool

/-- An arm that can be taken: a burst is within its budget, and reports are read only where a port
is to be forwarded. -/
def Arm.Enabled (config : WgConfig) : Arm → Prop
  | .burst _ rest => rest.length < DRAIN_BUDGET
  | .event _ => config.forward.isSome = true
  | _ => True

namespace Driver

variable {τ : Type} (T : Tunn τ) (config : WgConfig)

/-- `false` if the arm leaves the loop. -/
def serve (d : Driver τ) : Arm → Checked (Bool × Driver τ)
  | .leave => return (false, d)
  | .burst first rest => burst T (first :: rest) d
  | .receive first rest => receive T (first :: rest) d
  | .receiveFailed => return (true, d)
  | .timer taken => return (true, d.updateTimers T taken)
  | .event ev =>
    match config.forward with
    | some plan => return (true, d.follow plan.host ev)
    | none => return (true, d)
  | .housekeeping now => return (true, d.housekeeping config now)

/-- One turn of the loop.  An error on the socket goes on without looking at the flag. -/
def turn (d : Driver τ) (t : Turn) : Checked (Driver τ) := do
  let (going, d) ← d.serve T config t.arm
  match t.arm with
  | .receiveFailed => return d
  | _ => return { d with stopped := !going || t.shutdown }

end Driver

def DriverStep {τ : Type} (T : Tunn τ) (config : WgConfig) (d : Driver τ) (t : Turn)
    (d' : Driver τ) : Prop :=
  d.stopped = false ∧ t.arm.Enabled config ∧ d.turn T config t = .ok d'

end Tunnel.Wg
