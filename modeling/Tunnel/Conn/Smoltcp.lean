import Tunnel.Net
import Tunnel.Support.Table

/-!
# Conn — Sockets and channels

What the connection manager is built on: smoltcp's sockets and its socket set, and tokio's bounded
channels.

smoltcp is not part of the repository.  Its sockets are two type parameters with the calls the
manager makes on them (`TcpApi`, `UdpApi`), each returning the socket it leaves behind; results that
depend on more than the calls' existence assume the laws they need where they need them.  A call on
a handle that the set does not hold, or holds at the other kind, panics.

A channel end that a flow holds is the queue of chunks in flight and whether the far end lives.
-/

namespace Tunnel.Conn
open Support

/-- An IPv4 address and port: `SocketAddrV4`, and smoltcp's `IpEndpoint`. -/
structure SockAddr where
  ip : Ipv4Addr
  port : UInt16
deriving DecidableEq, Repr

/-! ### Sockets -/

/-- `tcp::State`. -/
inductive TcpState where
  | closed
  | listen
  | synSent
  | synReceived
  | established
  | finWait1
  | finWait2
  | closeWait
  | closing
  | lastAck
  | timeWait
deriving DecidableEq, Repr

/-- The calls on `tcp::Socket`. -/
class TcpApi (T : Type) where
  /-- `tcp::Socket::new` and `listen`, which may fail. -/
  listen : SockAddr → Option T
  state : T → TcpState
  canSend : T → Bool
  /-- The bytes accepted, or an error. -/
  sendSlice : T → Bytes → Option ℕ × T
  canRecv : T → Bool
  mayRecv : T → Bool
  /-- `recv(|buf| (buf.len(), buf.to_vec()))`: a contiguous part of the receive queue. -/
  recv : T → Option Bytes × T
  close : T → T
  abort : T → T

/-- The calls on `udp::Socket`. -/
class UdpApi (U : Type) where
  /-- `udp::Socket::new` and `bind`, which may fail. -/
  bind : SockAddr → Option U
  canRecv : U → Bool
  /-- A datagram and the endpoint it came from, or an error. -/
  recv : U → Option (Bytes × SockAddr) × U
  canSend : U → Bool
  /-- Whether the datagram was queued. -/
  sendSlice : U → Bytes → SockAddr → Bool × U
  /-- `size_of::<udp::PacketMetadata>()`. -/
  metadataSize : ℕ

/-- A socket in the set. -/
inductive Socket (T U : Type) where
  | tcp (sock : T)
  | udp (sock : U)
deriving DecidableEq

/-- `SocketSet`: the sockets by handle. -/
abbrev SocketSet (T U : Type) := Table ℕ (Socket T U)

namespace SocketSet

variable {T U : Type}

/-- `sockets.get_mut::<tcp::Socket>(handle)`. -/
def getTcp (sockets : SocketSet T U) (handle : ℕ) : Checked T :=
  match sockets.lookup handle with
  | some (.tcp sock) => .ok sock
  | _ => .error .noSuchKey

/-- `sockets.get_mut::<udp::Socket>(handle)`. -/
def getUdp (sockets : SocketSet T U) (handle : ℕ) : Checked U :=
  match sockets.lookup handle with
  | some (.udp sock) => .ok sock
  | _ => .error .noSuchKey

/-- `sockets.remove(handle)`. -/
def remove (sockets : SocketSet T U) (handle : ℕ) : Checked (SocketSet T U) :=
  match sockets.lookup handle with
  | some _ => .ok (sockets.erase handle)
  | none => .error .noSuchKey

theorem getTcp_eq {sockets : SocketSet T U} {handle : ℕ} {sock : T}
    (h : sockets.lookup handle = some (.tcp sock)) : sockets.getTcp handle = .ok sock := by
  rw [getTcp, h]

theorem getUdp_eq {sockets : SocketSet T U} {handle : ℕ} {sock : U}
    (h : sockets.lookup handle = some (.udp sock)) : sockets.getUdp handle = .ok sock := by
  rw [getUdp, h]

theorem remove_eq {sockets : SocketSet T U} {handle : ℕ} {sock : Socket T U}
    (h : sockets.lookup handle = some sock) :
    sockets.remove handle = .ok (sockets.erase handle) := by
  rw [remove, h]

end SocketSet

/-! ### Channels -/

def CHAN_CAP : ℕ := 128

/-- A channel, seen from the end the flow holds. -/
structure Chan where
  queue : List Bytes
  /-- The far end has not been dropped. -/
  peer : Bool
deriving DecidableEq, Repr

namespace Chan

/-- `mpsc::channel(CHAN_CAP)`. -/
def new : Chan := ⟨[], true⟩

/-- `tx.try_reserve()` succeeds. -/
def canReserve (c : Chan) : Bool := c.peer && c.queue.length < CHAN_CAP

/-- `permit.send(data)`. -/
def send (c : Chan) (data : Bytes) : Chan := { c with queue := c.queue ++ [data] }

end Chan

end Tunnel.Conn
