import Mathlib.Data.List.Sort
import Tunnel.Conn.Flow
import Tunnel.Inspect.Protocol
import Tunnel.Support.Runs

/-!
# Conn — The connection manager

`ConnManager`: the two flow maps, the two admission budgets, the ready queue and the deadline heap,
with `on_packet` and `dispatch` as the source has them.  The calls it makes on the traffic monitor
are kept in `notes`.

The heap is a list in the order of `Reverse<(Instant, FlowId)>`, its top first.  `expire` runs on
the number of entries the heap holds when it starts: an entry that is put back lies after `now`.

`ConnStep` is the engine around it: packets and dispatches in any order, between them anything that
smoltcp does to a socket, that an egress task does to its channels, and any flow filed ready.
-/

namespace Tunnel.Conn
open Support
open Inspect (FlowStatus)

def TCP_MEM_BUDGET : ℕ := 1024 * 1024 * 1024
def UDP_MEM_BUDGET : ℕ := 512 * 1024 * 1024

def UDP_PAYLOAD_BUF : ℕ := 256 * 1024
def UDP_META : ℕ := 64

def TCP_FLOW_COST : ℕ := 2 * TCP_BUF + TCP_BUF

/-- `UDP_FLOW_COST`, by the size of smoltcp's packet metadata. -/
def UDP_FLOW_COST (U : Type) [UdpApi U] : ℕ :=
  2 * UDP_PAYLOAD_BUF + 2 * UDP_META * UdpApi.metadataSize U

def MAX_TCP_FLOWS : ℕ := 8192
def MAX_UDP_FLOWS : ℕ := 4096

def TCP_HANDSHAKE_TIMEOUT : ℕ := secs 10

/-! ### Admission -/

structure Budget where
  charged : ℕ
  cost : ℕ
  maxFlows : ℕ
  maxBytes : ℕ
deriving DecidableEq, Repr

namespace Budget

def new (cost maxFlows maxBytes : ℕ) : Budget := ⟨0, cost, maxFlows, maxBytes⟩

def admits (b : Budget) (live : ℕ) : Bool :=
  live < b.maxFlows && b.charged + b.cost ≤ b.maxBytes

def charge (b : Budget) : Budget := { b with charged := b.charged + b.cost }

/-- Saturating. -/
def refund (b : Budget) : Budget := { b with charged := b.charged - b.cost }

end Budget

/-! ### Readiness -/

/-- The ready queue and its membership set. -/
structure Ready where
  queue : List FlowId
  marked : Finset FlowId
deriving DecidableEq

namespace Ready

def new : Ready := ⟨[], ∅⟩

def mark (r : Ready) (id : FlowId) : Ready :=
  if id ∈ r.marked then r else ⟨r.queue ++ [id], insert id r.marked⟩

def take (r : Ready) : List FlowId × Ready := (r.queue, new)

end Ready

/-! ### Deadlines -/

def SockAddr.code (a : SockAddr) : ℕ :=
  (((a.ip.a.toNat * 256 + a.ip.b.toNat) * 256 + a.ip.c.toNat) * 256 + a.ip.d.toNat) * 65536 +
    a.port.toNat

/-- The derived order of `FlowId`, as a number. -/
def FlowId.code : FlowId → ℕ
  | .tcp key => key.src.code * 2 ^ 48 + key.dst.code
  | .udp key => 2 ^ 96 + (key.src.code * 2 ^ 48 + key.dst.code)

abbrev Deadline := Instant × FlowId

/-- The order of the heap, earliest first. -/
def Deadline.le (e f : Deadline) : Prop := e.1 < f.1 ∨ e.1 = f.1 ∧ e.2.code ≤ f.2.code

instance (e f : Deadline) : Decidable (Deadline.le e f) := inferInstanceAs (Decidable (_ ∨ _))

/-- `deadlines.push(Reverse(e))`. -/
def pushDeadline (heap : List Deadline) (e : Deadline) : List Deadline :=
  heap.orderedInsert Deadline.le e

/-! ### The manager -/

/-- A call of `monitor.note_flow`. -/
structure Note where
  isTcp : Bool
  dst : SockAddr
  srcPort : UInt16
  status : FlowStatus
deriving DecidableEq, Repr

/-- What `on_packet` reads of a packet. -/
structure Flow where
  proto : UInt8
  src : SockAddr
  dst : SockAddr
  syn : Bool
deriving DecidableEq, Repr

structure ConnManager where
  tcp : Table FourTuple TcpConn
  udp : Table FourTuple UdpConn
  tcpBudget : Budget
  udpBudget : Budget
  notes : List Note
  ready : Ready
  deadlines : List Deadline
deriving DecidableEq

namespace ConnManager

section
variable (U : Type) [UdpApi U]

def new : ConnManager where
  tcp := ∅
  udp := ∅
  tcpBudget := .new TCP_FLOW_COST MAX_TCP_FLOWS TCP_MEM_BUDGET
  udpBudget := .new (UDP_FLOW_COST U) MAX_UDP_FLOWS UDP_MEM_BUDGET
  notes := []
  ready := .new
  deadlines := []

end

def nextDeadline (m : ConnManager) : Option Instant := m.deadlines.head?.map (·.1)

/-- `monitor.note_flow(is_tcp, key.dst, key.src.port(), status)`. -/
def noteFlow (m : ConnManager) (isTcp : Bool) (key : FourTuple) (status : FlowStatus) :
    ConnManager :=
  { m with notes := m.notes ++ [⟨isTcp, key.dst, key.src.port, status⟩] }

variable {T U : Type} [TcpApi T] [UdpApi U]

/-! ### Opening -/

/-- `handle` is what `sockets.add` returns. -/
def openTcp (m : ConnManager) (sockets : SocketSet T U) (key : FourTuple) (handle : ℕ)
    (now : Instant) : ConnManager × SocketSet T U :=
  let id := FlowId.tcp key
  match TcpApi.listen key.dst with
  | none => (m, sockets)
  | some sock =>
    let sockets := sockets.insert handle (.tcp sock)
    let deadline := now + TCP_HANDSHAKE_TIMEOUT
    let conn : TcpConn := {
      handle
      appToOut := some .new
      outToApp := .new
      pendingOut := .empty
      established := false
      outEof := false
      deadline }
    ({ m with
      tcp := m.tcp.insert key conn
      tcpBudget := m.tcpBudget.charge
      deadlines := pushDeadline m.deadlines (deadline, id)
      ready := m.ready.mark id }.noteFlow true key .active, sockets)

def openUdp (m : ConnManager) (sockets : SocketSet T U) (key : FourTuple) (handle : ℕ)
    (now : Instant) : ConnManager × SocketSet T U :=
  let id := FlowId.udp key
  match UdpApi.bind key.dst with
  | none => (m, sockets)
  | some sock =>
    let sockets := sockets.insert handle (.udp sock)
    let conn : UdpConn := {
      handle
      appToOut := .new
      outToApp := .new
      appSrc := none
      last := now
      deadline := now + UDP_IDLE }
    ({ m with
      udp := m.udp.insert key conn
      udpBudget := m.udpBudget.charge
      deadlines := pushDeadline m.deadlines (now + UDP_IDLE, id)
      ready := m.ready.mark id }.noteFlow false key .active, sockets)

def onPacket (m : ConnManager) (sockets : SocketSet T U) (flow : Flow) (handle : ℕ)
    (now : Instant) : ConnManager × SocketSet T U :=
  let key : FourTuple := { src := flow.src, dst := flow.dst }
  if flow.proto = 6 ∧ flow.syn = true ∧ m.tcp.lookup key = none then
    if m.tcpBudget.admits m.tcp.size then m.openTcp sockets key handle now
    else (m.noteFlow true key .shed, sockets)
  else if flow.proto = 17 ∧ m.udp.lookup key = none then
    if m.udpBudget.admits m.udp.size then m.openUdp sockets key handle now
    else (m.noteFlow false key .shed, sockets)
  else (m, sockets)

/-! ### Servicing -/

def serviceTcp (m : ConnManager) (sockets : SocketSet T U) (key : FourTuple) :
    Checked (Bool × ConnManager × SocketSet T U) := do
  let some conn := m.tcp.lookup key | return (false, m, sockets)
  let sock ← sockets.getTcp conn.handle
  let (queued, conn, sock) := serviceConn conn sock
  let sockets := sockets.insert conn.handle (.tcp sock)
  if TcpApi.state sock = .closed then
    let sockets ← SocketSet.remove sockets conn.handle
    return (queued, { m with
      tcp := m.tcp.erase key
      tcpBudget := m.tcpBudget.refund }, sockets)
  else return (queued, { m with tcp := m.tcp.insert key conn }, sockets)

def serviceUdp (m : ConnManager) (sockets : SocketSet T U) (key : FourTuple) (now : Instant) :
    Checked (Bool × ConnManager × SocketSet T U) := do
  let some conn := m.udp.lookup key | return (false, m, sockets)
  let sock ← sockets.getUdp conn.handle
  let (queued, conn, sock) := serviceDatagrams conn sock now
  return (queued, { m with udp := m.udp.insert key conn },
    sockets.insert conn.handle (.udp sock))

/-! ### Retiring -/

/-- One entry of the heap that has come due. -/
def expireEntry (m : ConnManager) (sockets : SocketSet T U) (now due : Instant) :
    FlowId → Checked (ConnManager × SocketSet T U)
  | .tcp key => do
    let some conn := m.tcp.lookup key | return (m, sockets)
    if conn.established then return (m, sockets)
    if conn.deadline ≠ due then return (m, sockets)
    let sock ← sockets.getTcp conn.handle
    let sockets := sockets.insert conn.handle (.tcp (TcpApi.abort sock))
    let m := { m with tcp := m.tcp.erase key }
    let sockets ← SocketSet.remove sockets conn.handle
    let m := { m with tcpBudget := m.tcpBudget.refund }
    return (m.noteFlow true key .reaped, sockets)
  | .udp key => do
    let some conn := m.udp.lookup key | return (m, sockets)
    if conn.deadline ≠ due then return (m, sockets)
    if durationSince now conn.last < UDP_IDLE then
      let next := conn.last + UDP_IDLE
      return ({ m with
        udp := m.udp.insert key { conn with deadline := next }
        deadlines := pushDeadline m.deadlines (next, .udp key) }, sockets)
    let m := { m with udp := m.udp.erase key }
    let sockets ← SocketSet.remove sockets conn.handle
    return ({ m with udpBudget := m.udpBudget.refund }, sockets)

/-- The loop of `expire`, for at most `n` entries. -/
def expireLoop (now : Instant) : ℕ → ConnManager → SocketSet T U →
    Checked (ConnManager × SocketSet T U)
  | 0, m, sockets => return (m, sockets)
  | n + 1, m, sockets =>
    match m.deadlines with
    | [] => return (m, sockets)
    | (due, id) :: rest =>
      if due > now then return (m, sockets)
      else do
        let (m, sockets) ← { m with deadlines := rest }.expireEntry sockets now due id
        expireLoop now n m sockets

def expire (m : ConnManager) (sockets : SocketSet T U) (now : Instant) :
    Checked (ConnManager × SocketSet T U) :=
  expireLoop now m.deadlines.length m sockets

/-- The ids of the ready queue, in order. -/
def serviceAll (now : Instant) : List FlowId → Bool → ConnManager → SocketSet T U →
    Checked (Bool × ConnManager × SocketSet T U)
  | [], queued, m, sockets => return (queued, m, sockets)
  | id :: ids, queued, m, sockets => do
    let (q, m, sockets) ← match id with
      | .tcp key => m.serviceTcp sockets key
      | .udp key => m.serviceUdp sockets key now
    serviceAll now ids (queued || q) m sockets

def dispatch (m : ConnManager) (sockets : SocketSet T U) (now : Instant) :
    Checked (Bool × ConnManager × SocketSet T U) := do
  let (m, sockets) ← m.expire sockets now
  let (ids, ready) := m.ready.take
  serviceAll now ids false { m with ready } sockets

end ConnManager

/-! ### The engine -/

/-- What an egress task does to the channels of its flow. -/
inductive EgressAct where
  /-- It takes a chunk of app bytes. -/
  | recv
  /-- It delivers server bytes. -/
  | send (data : Bytes)
  /-- It stops reading. -/
  | dropRx
  /-- It stops delivering. -/
  | dropTx
deriving DecidableEq

/-- The act, on the two channels. -/
def EgressAct.apply (appToOut outToApp : Chan) : EgressAct → Chan × Chan
  | .recv => ({ appToOut with queue := appToOut.queue.tail }, outToApp)
  | .send data =>
    (appToOut, if outToApp.peer && outToApp.queue.length < CHAN_CAP then outToApp.send data
      else outToApp)
  | .dropRx => ({ appToOut with queue := [], peer := false }, outToApp)
  | .dropTx => (appToOut, { outToApp with peer := false })

/-- The act on a TCP flow, whose manager may have closed its sending end. -/
def TcpConn.egress (conn : TcpConn) (act : EgressAct) : TcpConn :=
  { conn with
    appToOut := conn.appToOut.map fun tx => (act.apply tx conn.outToApp).1
    outToApp := (act.apply .new conn.outToApp).2 }

def UdpConn.egress (conn : UdpConn) (act : EgressAct) : UdpConn :=
  { conn with
    appToOut := (act.apply conn.appToOut conn.outToApp).1
    outToApp := (act.apply conn.appToOut conn.outToApp).2 }

/-- The manager with the socket set the engine owns. -/
structure Engine (T U : Type) where
  mgr : ConnManager
  sockets : SocketSet T U

inductive ConnEvent (T U : Type) where
  | onPacket (flow : Flow) (handle : ℕ) (now : Instant)
  | dispatch (now : Instant)
  /-- smoltcp moves a socket on. -/
  | pollTcp (handle : ℕ) (sock : T)
  | pollUdp (handle : ℕ) (sock : U)
  | mark (id : FlowId)
  | egress (id : FlowId) (act : EgressAct)

variable {T U : Type} [TcpApi T] [UdpApi U]

def Engine.new (T U : Type) [UdpApi U] : Engine T U := ⟨.new U, ∅⟩

/-- An egress task acts on its flow, if the flow lives. -/
def ConnManager.egress (m : ConnManager) (act : EgressAct) : FlowId → ConnManager
  | .tcp key =>
    match m.tcp.lookup key with
    | some conn => { m with tcp := m.tcp.insert key (conn.egress act) }
    | none => m
  | .udp key =>
    match m.udp.lookup key with
    | some conn => { m with udp := m.udp.insert key (conn.egress act) }
    | none => m

/-- One step of the engine. -/
def ConnStep (s : Engine T U) : ConnEvent T U → Engine T U → Prop
  | .onPacket flow handle now, s' =>
    s.sockets.lookup handle = none ∧
      s.mgr.onPacket s.sockets flow handle now = (s'.mgr, s'.sockets)
  | .dispatch now, s' =>
    ∃ queued, s.mgr.dispatch s.sockets now = .ok (queued, s'.mgr, s'.sockets)
  | .pollTcp handle sock, s' =>
    (∃ old, s.sockets.lookup handle = some (.tcp old)) ∧
      s' = { s with sockets := s.sockets.insert handle (.tcp sock) }
  | .pollUdp handle sock, s' =>
    (∃ old, s.sockets.lookup handle = some (.udp old)) ∧
      s' = { s with sockets := s.sockets.insert handle (.udp sock) }
  | .mark id, s' => s' = { s with mgr := { s.mgr with ready := s.mgr.ready.mark id } }
  | .egress id act, s' => s' = { s with mgr := s.mgr.egress act id }

/-- The states the engine reaches. -/
def ConnReachable : Engine T U → Prop := Reachable (· = Engine.new T U) ConnStep

theorem ConnReachable.new : ConnReachable (Engine.new T U) := Reachable.of_start rfl

theorem ConnReachable.step {s s' : Engine T U} {e : ConnEvent T U} (h : ConnReachable s)
    (hs : ConnStep s e s') : ConnReachable s' := Reachable.run h (.one hs)

/-! ### Runs that compute -/

namespace Engine

/-- The state an event leads to. -/
def apply (s : Engine T U) : ConnEvent T U → Engine T U
  | .onPacket flow handle now =>
    ⟨(s.mgr.onPacket s.sockets flow handle now).1, (s.mgr.onPacket s.sockets flow handle now).2⟩
  | .dispatch now =>
    match s.mgr.dispatch s.sockets now with
    | .ok (_, m, sockets) => ⟨m, sockets⟩
    | .error _ => s
  | .pollTcp handle sock => { s with sockets := s.sockets.insert handle (.tcp sock) }
  | .pollUdp handle sock => { s with sockets := s.sockets.insert handle (.udp sock) }
  | .mark id => { s with mgr := { s.mgr with ready := s.mgr.ready.mark id } }
  | .egress id act => { s with mgr := s.mgr.egress act id }

/-- A new socket has a new handle, and smoltcp moves on a socket of its kind. -/
def enabled (s : Engine T U) : ConnEvent T U → Bool
  | .onPacket _ handle _ => (s.sockets.lookup handle).isNone
  | .pollTcp handle _ =>
    match s.sockets.lookup handle with
    | some (.tcp _) => true
    | _ => false
  | .pollUdp handle _ =>
    match s.sockets.lookup handle with
    | some (.udp _) => true
    | _ => false
  | _ => true

end Engine

end Tunnel.Conn
