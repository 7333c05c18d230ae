import Tunnel.Conn.Smoltcp

/-!
# Conn — One flow

The state of one flow and one service pass over it, `serviceTcp` and `serviceUdp` of the manager
without its maps: the loops between the channels, the pending queue and the socket.

Each loop runs on a bound it cannot outlast: the chunks in the channel, the bytes that are pending,
the free places of a channel.  Wakers are not modelled; a flow may be filed ready at any time.
-/

namespace Tunnel.Conn
open Support

def TCP_BUF : ℕ := 128 * 1024

structure FourTuple where
  src : SockAddr
  dst : SockAddr
deriving DecidableEq, Repr

/-- Identifies one flow across the ready queue and the deadline heap. -/
inductive FlowId where
  | tcp (key : FourTuple)
  | udp (key : FourTuple)
deriving DecidableEq, Repr

/-! ### Server bytes waiting for room -/

structure Pending where
  chunks : List Bytes
  /-- Bytes of the first chunk already handed to smoltcp. -/
  head : ℕ
  bytes : ℕ
deriving DecidableEq, Repr

namespace Pending

def empty : Pending := ⟨[], 0, 0⟩

def push (p : Pending) (v : Bytes) : Pending :=
  if v.isEmpty then p else { p with bytes := p.bytes + v.length, chunks := p.chunks ++ [v] }

def len (p : Pending) : ℕ := p.bytes

def isEmpty (p : Pending) : Bool := p.bytes == 0

/-- Contiguous unconsumed prefix. -/
def front (p : Pending) : Bytes :=
  match p.chunks with
  | c :: _ => c.drop p.head
  | [] => []

def advance (p : Pending) (n : ℕ) : Pending :=
  let p := { p with head := p.head + n, bytes := p.bytes - n }
  match p.chunks with
  | c :: rest => if c.length ≤ p.head then { p with chunks := rest, head := 0 } else p
  | [] => p

end Pending

/-! ### TCP -/

structure TcpConn where
  handle : ℕ
  /-- To the egress; `none` once the app half-closed. -/
  appToOut : Option Chan
  /-- From the egress. -/
  outToApp : Chan
  pendingOut : Pending
  established : Bool
  outEof : Bool
  /-- The heap entry that owns this flow's timeout. -/
  deadline : Instant
deriving DecidableEq, Repr

/-- egress → `pending_out`, over the chunks in the channel. -/
def fillPending (conn : TcpConn) : List Bytes → TcpConn
  | data :: rest =>
    if TCP_BUF ≤ conn.pendingOut.len then conn
    else fillPending { conn with
      pendingOut := conn.pendingOut.push data
      outToApp := { conn.outToApp with queue := rest } } rest
  | [] =>
    if TCP_BUF ≤ conn.pendingOut.len then conn
    else if conn.outToApp.peer then conn else { conn with outEof := true }

section Tcp
variable {T : Type} [TcpApi T]

/-- `pending_out` → smoltcp tx, for at most `n` rounds; `true` if bytes were queued. -/
def drainPending : ℕ → Pending → T → Bool → Pending × T × Bool
  | 0, pending, sock, queued => (pending, sock, queued)
  | n + 1, pending, sock, queued =>
    if TcpApi.canSend sock && !pending.isEmpty then
      match TcpApi.sendSlice sock pending.front with
      | (none, sock) => (pending, sock, queued)
      | (some 0, sock) => (pending, sock, queued)
      | (some (k + 1), sock) => drainPending n (pending.advance (k + 1)) sock true
    else (pending, sock, queued)

/-- smoltcp rx → egress, for at most `n` chunks. -/
def relayOut : ℕ → Chan → T → Chan × T
  | 0, tx, sock => (tx, sock)
  | n + 1, tx, sock =>
    if TcpApi.canRecv sock && tx.canReserve then
      match TcpApi.recv sock with
      | (some data, sock) => if data.isEmpty then (tx, sock) else relayOut n (tx.send data) sock
      | (none, sock) => (tx, sock)
    else (tx, sock)

/-- The free places of a channel. -/
def Chan.room (c : Chan) : ℕ := CHAN_CAP - c.queue.length

/-- The flag is a sample of the socket's state. -/
def TcpConn.sample (conn : TcpConn) (sock : T) : TcpConn :=
  if !conn.established && TcpApi.state sock == .established then { conn with established := true }
  else conn

def TcpConn.drain (conn : TcpConn) (sock : T) : Bool × TcpConn × T :=
  let (pending, sock, queued) := drainPending conn.pendingOut.len conn.pendingOut sock false
  (queued, { conn with pendingOut := pending }, sock)

def TcpConn.relay (conn : TcpConn) (sock : T) : TcpConn × T :=
  match conn.appToOut with
  | some tx =>
    let (tx, sock) := relayOut tx.room tx sock
    ({ conn with appToOut := some tx }, sock)
  | none => (conn, sock)

/-- FIN received and rx drained: stop writing to the egress. -/
def TcpConn.halfClose (conn : TcpConn) (sock : T) : TcpConn :=
  if conn.established && conn.appToOut.isSome && !TcpApi.mayRecv sock && !TcpApi.canRecv sock then
    { conn with appToOut := none }
  else conn

/-- The flow's part of `service_tcp`. -/
def serviceConn (conn : TcpConn) (sock : T) : Bool × TcpConn × T :=
  let conn := conn.sample sock
  let conn := fillPending conn conn.outToApp.queue
  let (queued, conn, sock) := conn.drain sock
  let (conn, sock) := conn.relay sock
  let conn := conn.halfClose sock
  -- egress closed and everything flushed -> close our side
  if conn.outEof && conn.pendingOut.isEmpty then (true, conn, TcpApi.close sock)
  else (queued, conn, sock)

end Tcp

/-! ### UDP -/

def UDP_IDLE : ℕ := secs 30

structure UdpConn where
  handle : ℕ
  appToOut : Chan
  outToApp : Chan
  /-- The app-side endpoint to send replies to. -/
  appSrc : Option SockAddr
  last : Instant
  deadline : Instant
deriving DecidableEq, Repr

section Udp
variable {U : Type} [UdpApi U]

/-- smoltcp rx → egress, for at most `n` datagrams. -/
def relayDatagrams (now : Instant) : ℕ → UdpConn → U → UdpConn × U
  | 0, conn, sock => (conn, sock)
  | n + 1, conn, sock =>
    if UdpApi.canRecv sock && conn.appToOut.canReserve then
      match UdpApi.recv sock with
      | (some (data, endpoint), sock) =>
        relayDatagrams now n { conn with
          appSrc := some endpoint, last := now, appToOut := conn.appToOut.send data } sock
      | (none, sock) => (conn, sock)
    else (conn, sock)

/-- egress → smoltcp tx, to `src`, over the datagrams in the channel. -/
def replyDatagrams (now : Instant) (src : SockAddr) :
    List Bytes → UdpConn → U → Bool → UdpConn × U × Bool
  | [], conn, sock, queued => (conn, sock, queued)
  | data :: rest, conn, sock, queued =>
    if UdpApi.canSend sock then
      let conn := { conn with outToApp := { conn.outToApp with queue := rest } }
      match UdpApi.sendSlice sock data src with
      | (true, sock) => replyDatagrams now src rest { conn with last := now } sock true
      | (false, sock) => (conn, sock, queued)
    else (conn, sock, queued)

/-- The flow's part of `service_udp`. -/
def serviceDatagrams (conn : UdpConn) (sock : U) (now : Instant) : Bool × UdpConn × U :=
  let (conn, sock) := relayDatagrams now conn.appToOut.room conn sock
  match conn.appSrc with
  | some src =>
    let (conn, sock, queued) := replyDatagrams now src conn.outToApp.queue conn sock false
    (queued, conn, sock)
  | none => (false, conn, sock)

end Udp

end Tunnel.Conn
