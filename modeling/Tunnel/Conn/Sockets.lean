import Tunnel.Conn.Smoltcp

/-!
# Conn — The laws of the sockets

What smoltcp documents of the calls the manager makes, in terms of the receive queue that the calls
read: `TcpLaws` and `UdpLaws`.

`SimTcp` and `SimUdp` are the smallest sockets that obey them: a TCP socket is its state and the
bytes not yet read, a UDP socket is its endpoint and the datagrams not yet read, and what is sent
goes out at once.
-/

namespace Tunnel.Conn
open Support

/-! ### TCP -/

/-- `tcp::Socket::close`, on the state. -/
def TcpState.close : TcpState → TcpState
  | .listen | .synSent => .closed
  | .synReceived | .established => .finWait1
  | .closeWait => .lastAck
  | state => state

class TcpLaws (T : Type) [TcpApi T] where
  /-- The bytes received and not yet read, in the contiguous parts that `recv` hands out. -/
  rx : T → List Bytes
  rx_ne : ∀ (sock : T), ∀ part ∈ rx sock, part ≠ []
  listen_state : ∀ addr (sock : T), TcpApi.listen addr = some sock → TcpApi.state sock = .listen
  listen_rx : ∀ addr (sock : T), TcpApi.listen addr = some sock → rx sock = []
  /-- Readable, in whatever state, while bytes are left. -/
  canRecv_iff : ∀ sock : T, TcpApi.canRecv sock = true ↔ rx sock ≠ []
  mayRecv_iff : ∀ sock : T, TcpApi.mayRecv sock = true ↔ TcpApi.state sock = .established ∨
    TcpApi.state sock = .finWait1 ∨ TcpApi.state sock = .finWait2 ∨ rx sock ≠ []
  recv_rx : ∀ (sock : T) part rest, rx sock = part :: rest →
    (TcpApi.recv sock).1 = some part ∧ rx (TcpApi.recv sock).2 = rest
  recv_state : ∀ sock : T, TcpApi.state (TcpApi.recv sock).2 = TcpApi.state sock
  sendSlice_rx : ∀ (sock : T) data, rx (TcpApi.sendSlice sock data).2 = rx sock
  sendSlice_state : ∀ (sock : T) data,
    TcpApi.state (TcpApi.sendSlice sock data).2 = TcpApi.state sock
  close_rx : ∀ sock : T, rx (TcpApi.close sock) = rx sock
  close_state : ∀ sock : T, TcpApi.state (TcpApi.close sock) = (TcpApi.state sock).close

structure SimTcp where
  state : TcpState
  rx : Bytes
deriving DecidableEq, Repr

/-- Port 0 cannot be listened on. -/
instance : TcpApi SimTcp where
  listen addr := if addr.port = 0 then none else some ⟨.listen, []⟩
  state := SimTcp.state
  canSend sock := sock.state = .established ∨ sock.state = .closeWait
  sendSlice sock data :=
    (if sock.state = .established ∨ sock.state = .closeWait then some data.length else none, sock)
  canRecv sock := !sock.rx.isEmpty
  mayRecv sock :=
    sock.state = .established ∨ sock.state = .finWait1 ∨ sock.state = .finWait2 ∨ sock.rx ≠ []
  recv sock := if sock.rx = [] then (none, sock) else (some sock.rx, { sock with rx := [] })
  close sock := { sock with state := sock.state.close }
  abort sock := { sock with state := .closed }

instance : TcpLaws SimTcp where
  rx sock := if sock.rx = [] then [] else [sock.rx]
  rx_ne sock part h := by
    by_cases hr : sock.rx = [] <;> simp only [hr, if_true, if_false] at h
    · cases h
    · rw [List.mem_singleton.mp h]; exact hr
  listen_state addr sock h := by
    simp only [TcpApi.listen, Option.ite_none_left_eq_some, Option.some.injEq] at h
    rw [← h.2]; rfl
  listen_rx addr sock h := by
    simp only [TcpApi.listen, Option.ite_none_left_eq_some, Option.some.injEq] at h
    rw [← h.2]; rfl
  canRecv_iff sock := by simp [TcpApi.canRecv]
  mayRecv_iff sock := by simp [TcpApi.mayRecv, TcpApi.state]
  recv_rx sock part rest h := by
    by_cases hr : sock.rx = []
    · rw [if_pos hr] at h
      cases h
    · rw [if_neg hr] at h
      cases h
      simp [TcpApi.recv, hr]
  recv_state sock := by
    by_cases h : sock.rx = [] <;> simp [TcpApi.recv, TcpApi.state, h]
  sendSlice_rx _ _ := rfl
  sendSlice_state _ _ := rfl
  close_rx _ := rfl
  close_state _ := rfl

/-! ### UDP -/

class UdpLaws (U : Type) [UdpApi U] where
  /-- The endpoint the socket is bound to. -/
  bound : U → SockAddr
  /-- The datagrams received and not yet read. -/
  rx : U → List (Bytes × SockAddr)
  bind_bound : ∀ addr (sock : U), UdpApi.bind addr = some sock → bound sock = addr
  bind_rx : ∀ addr (sock : U), UdpApi.bind addr = some sock → rx sock = []
  recv_bound : ∀ sock : U, bound (UdpApi.recv sock).2 = bound sock
  /-- A datagram handed out was the first in the queue. -/
  recv_some : ∀ (sock : U) dgram, (UdpApi.recv sock).1 = some dgram →
    rx sock = dgram :: rx (UdpApi.recv sock).2
  /-- An error, as for a datagram too long for its buffer, puts nothing new in the queue. -/
  recv_none : ∀ sock : U, (UdpApi.recv sock).1 = none → rx (UdpApi.recv sock).2 ⊆ rx sock
  sendSlice_bound : ∀ (sock : U) data dst, bound (UdpApi.sendSlice sock data dst).2 = bound sock
  sendSlice_rx : ∀ (sock : U) data dst, rx (UdpApi.sendSlice sock data dst).2 = rx sock

structure SimUdp where
  bound : SockAddr
  rx : List (Bytes × SockAddr)
deriving DecidableEq, Repr

/-- Port 0 cannot be bound. -/
instance : UdpApi SimUdp where
  bind addr := if addr.port = 0 then none else some ⟨addr, []⟩
  canRecv sock := !sock.rx.isEmpty
  recv sock :=
    match sock.rx with
    | dgram :: rest => (some dgram, { sock with rx := rest })
    | [] => (none, sock)
  canSend _ := true
  sendSlice sock _ _ := (true, sock)
  metadataSize := 40

instance : UdpLaws SimUdp where
  bound := SimUdp.bound
  rx := SimUdp.rx
  bind_bound addr sock h := by
    simp only [UdpApi.bind, Option.ite_none_left_eq_some, Option.some.injEq] at h
    rw [← h.2]
  bind_rx addr sock h := by
    simp only [UdpApi.bind, Option.ite_none_left_eq_some, Option.some.injEq] at h
    rw [← h.2]
  recv_bound sock := by
    obtain ⟨addr, rx⟩ := sock
    cases rx <;> rfl
  recv_some sock dgram h := by
    obtain ⟨addr, rx⟩ := sock
    cases rx <;> cases h
    rfl
  recv_none sock h := by
    obtain ⟨addr, rx⟩ := sock
    cases rx with
    | nil => exact List.Subset.refl _
    | cons => cases h
  sendSlice_bound _ _ _ := rfl
  sendSlice_rx _ _ _ := rfl

end Tunnel.Conn
