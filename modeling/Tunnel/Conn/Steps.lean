import Tunnel.Conn.Manager

/-!
# Conn — What one call does

Each operation of the manager on a flow whose socket is in the set, as the state it leaves.

* `serviceConn_handle`, `serviceDatagrams_handle`: a pass leaves a flow its socket.  Of the flow's
  timeout it changes the flag alone (`serviceConn_deadline`, `serviceConn_established`).
* `serviceTcp_eq`, `serviceUdp_eq`, `expireEntry_tcp`, `expireEntry_udp`: the operations on a live
  flow.  Those on a flow that is gone change nothing (`serviceTcp_none`, …).
* `onPacket_tcp`: a packet, for the TCP flows.
-/

namespace Tunnel.Conn
open Support
open Inspect (FlowStatus)

variable {T U : Type}

/-! ### A pass leaves a flow its socket -/

/-- What only the sample at the head of a pass may change. -/
def TcpConn.ident (conn : TcpConn) : ℕ × Instant × Bool :=
  (conn.handle, conn.deadline, conn.established)

theorem fillPending_ident (conn : TcpConn) (chunks : List Bytes) :
    (fillPending conn chunks).ident = conn.ident := by
  induction chunks generalizing conn with
  | nil =>
      unfold fillPending
      split
      · rfl
      · split <;> rfl
  | cons data rest ih =>
      unfold fillPending
      split
      · rfl
      · rw [ih]; rfl

section Tcp
variable [TcpApi T] (conn : TcpConn) (sock : T)

theorem relay_ident : (conn.relay sock).1.ident = conn.ident := by
  unfold TcpConn.relay; split <;> rfl

theorem halfClose_ident : (conn.halfClose sock).ident = conn.ident := by
  unfold TcpConn.halfClose; split <;> rfl

theorem serviceConn_ident : (serviceConn conn sock).2.1.ident = (conn.sample sock).ident := by
  have h : ∀ (c : TcpConn) (s : T), (((c.drain s).2.1.relay (c.drain s).2.2).1.halfClose
      ((c.drain s).2.1.relay (c.drain s).2.2).2).ident = c.ident := by
    intro c s
    rw [halfClose_ident, relay_ident]; rfl
  unfold serviceConn
  dsimp only
  split <;> exact (h _ _).trans (fillPending_ident _ _)

theorem serviceConn_handle : (serviceConn conn sock).2.1.handle = conn.handle := by
  have h := congrArg (·.1) (serviceConn_ident conn sock)
  refine h.trans ?_
  unfold TcpConn.sample
  split <;> rfl

theorem serviceConn_deadline : (serviceConn conn sock).2.1.deadline = conn.deadline := by
  have h := congrArg (·.2.1) (serviceConn_ident conn sock)
  refine h.trans ?_
  unfold TcpConn.sample
  split <;> rfl

/-- The flag is set by a pass that finds the socket Established, and stays. -/
theorem serviceConn_established : (serviceConn conn sock).2.1.established = true ↔
    conn.established = true ∨ TcpApi.state sock = .established := by
  have h : (serviceConn conn sock).2.1.established = (conn.sample sock).established :=
    congrArg (·.2.2) (serviceConn_ident conn sock)
  rw [h]
  unfold TcpConn.sample
  cases he : conn.established <;> by_cases hs : TcpApi.state sock = .established <;> simp [he, hs]

end Tcp

/-- An egress task acts on its flow alone. -/
theorem ConnManager.lookup_egress (m : ConnManager) (act : EgressAct) (key key' : FourTuple) :
    (m.egress act (.tcp key)).tcp.lookup key' =
      if key' = key then (m.tcp.lookup key).map (·.egress act) else m.tcp.lookup key' := by
  unfold ConnManager.egress
  dsimp only
  cases hc : m.tcp.lookup key with
  | none =>
      by_cases hk : key' = key
      · subst hk
        simp [hc]
      · simp [hk]
  | some conn =>
      change Finmap.lookup key' (m.tcp.insert key _) = _
      rw [Finmap.lookup_insert_eq]
      rfl

@[simp] theorem ConnManager.egress_udp (m : ConnManager) (act : EgressAct) (key : FourTuple) :
    (m.egress act (.udp key)).tcp = m.tcp := by
  unfold ConnManager.egress
  dsimp only
  split <;> rfl

/-- An egress task changes no more of a flow. -/
theorem ConnManager.egress_flow {m : ConnManager} {act : EgressAct} {id : FlowId} {key : FourTuple}
    {conn' : TcpConn} (h : (m.egress act id).tcp.lookup key = some conn') :
    ∃ conn, m.tcp.lookup key = some conn ∧ conn'.ident = conn.ident := by
  cases id with
  | tcp key' =>
      rw [lookup_egress] at h
      split at h
      · next hk =>
          obtain ⟨conn, hc, rfl⟩ := Option.map_eq_some_iff.mp h
          exact ⟨conn, hk ▸ hc, rfl⟩
      · exact ⟨conn', h, rfl⟩
  | udp key' =>
      rw [egress_udp] at h
      exact ⟨conn', h, rfl⟩

theorem relayDatagrams_handle [UdpApi U] (now : Instant) (n : ℕ) (conn : UdpConn) (sock : U) :
    (relayDatagrams now n conn sock).1.handle = conn.handle := by
  induction n generalizing conn sock with
  | zero => rfl
  | succ n ih =>
      unfold relayDatagrams
      split
      · split
        · rw [ih]
        · rfl
      · rfl

theorem replyDatagrams_handle [UdpApi U] (now : Instant) (src : SockAddr) (data : List Bytes)
    (conn : UdpConn) (sock : U) (queued : Bool) :
    (replyDatagrams now src data conn sock queued).1.handle = conn.handle := by
  induction data generalizing conn sock queued with
  | nil => rfl
  | cons d rest ih =>
      unfold replyDatagrams
      split
      · split
        · rw [ih]
        · rfl
      · rfl

theorem serviceDatagrams_handle [UdpApi U] (conn : UdpConn) (sock : U) (now : Instant) :
    (serviceDatagrams conn sock now).2.1.handle = conn.handle := by
  have h := relayDatagrams_handle now conn.appToOut.room conn sock
  unfold serviceDatagrams
  dsimp only
  split
  · exact (replyDatagrams_handle _ _ _ _ _ _).trans h
  · exact h

/-! ### The operations on a live flow -/

namespace ConnManager

variable {m : ConnManager} {sockets : SocketSet T U} {key : FourTuple}

/-- A TCP flow leaves, and gives its cost back. -/
def closeTcp (m : ConnManager) (key : FourTuple) : ConnManager :=
  { m with tcp := m.tcp.erase key, tcpBudget := m.tcpBudget.refund }

def closeUdp (m : ConnManager) (key : FourTuple) : ConnManager :=
  { m with udp := m.udp.erase key, udpBudget := m.udpBudget.refund }

theorem lookup_closeTcp (m : ConnManager) (key key' : FourTuple) :
    (m.closeTcp key).tcp.lookup key' = if key' = key then none else m.tcp.lookup key' :=
  Finmap.lookup_erase_eq _ _ _

@[simp] theorem noteFlow_tcp (m : ConnManager) (isTcp : Bool) (key : FourTuple)
    (status : FlowStatus) : (m.noteFlow isTcp key status).tcp = m.tcp := rfl

theorem remove_insert (sockets : SocketSet T U) (handle : ℕ) (s : Socket T U) :
    SocketSet.remove (sockets.insert handle s) handle = .ok (sockets.erase handle) := by
  rw [SocketSet.remove_eq (Finmap.lookup_insert _)]
  exact congrArg _ (Finmap.ext_lookup fun j => by
    rw [Finmap.lookup_erase_eq, Finmap.lookup_erase_eq, Finmap.lookup_insert_eq]
    split <;> rfl)

section Tcp
variable [TcpApi T]

theorem serviceTcp_none (h : m.tcp.lookup key = none) :
    m.serviceTcp sockets key = .ok (false, m, sockets) := by
  rw [serviceTcp, h]; rfl

/-- A pass over a live flow: the pass itself, and the removal of a flow found closed. -/
theorem serviceTcp_eq {conn : TcpConn} {sock : T} (hc : m.tcp.lookup key = some conn)
    (hs : sockets.lookup conn.handle = some (.tcp sock)) :
    m.serviceTcp sockets key = .ok (
      if TcpApi.state (serviceConn conn sock).2.2 = .closed then
        ((serviceConn conn sock).1, m.closeTcp key, sockets.erase conn.handle)
      else ((serviceConn conn sock).1,
        { m with tcp := m.tcp.insert key (serviceConn conn sock).2.1 },
        sockets.insert conn.handle (.tcp (serviceConn conn sock).2.2))) := by
  have hh := serviceConn_handle conn sock
  rw [serviceTcp, hc]
  dsimp only
  rw [SocketSet.getTcp_eq hs, ok_bind, hh, remove_insert]
  split <;> rfl

theorem expireEntry_tcp_none (now due : Instant) (h : m.tcp.lookup key = none) :
    m.expireEntry sockets now due (.tcp key) = .ok (m, sockets) := by
  rw [expireEntry, h]; rfl

/-- A due entry reaps its flow if the flow is not established and the entry is its own. -/
theorem expireEntry_tcp (now due : Instant) {conn : TcpConn} {sock : T}
    (hc : m.tcp.lookup key = some conn) (hs : sockets.lookup conn.handle = some (.tcp sock)) :
    m.expireEntry sockets now due (.tcp key) = .ok (
      if conn.established = true ∨ conn.deadline ≠ due then (m, sockets)
      else ((m.closeTcp key).noteFlow true key .reaped, sockets.erase conn.handle)) := by
  rw [expireEntry, hc]
  dsimp only
  by_cases he : conn.established = true
  · rw [if_pos he, if_pos (Or.inl he)]; rfl
  by_cases hd : conn.deadline ≠ due
  · rw [if_neg he, if_pos hd, if_pos (Or.inr hd)]; rfl
  rw [if_neg he, if_neg hd, if_neg (by tauto), SocketSet.getTcp_eq hs, ok_bind, remove_insert]
  rfl

end Tcp

section Udp
variable [UdpApi U] (now : Instant)

theorem serviceUdp_none (h : m.udp.lookup key = none) :
    m.serviceUdp sockets key now = .ok (false, m, sockets) := by
  rw [serviceUdp, h]; rfl

theorem serviceUdp_eq {conn : UdpConn} {sock : U} (hc : m.udp.lookup key = some conn)
    (hs : sockets.lookup conn.handle = some (.udp sock)) :
    m.serviceUdp sockets key now = .ok ((serviceDatagrams conn sock now).1,
      { m with udp := m.udp.insert key (serviceDatagrams conn sock now).2.1 },
      sockets.insert conn.handle (.udp (serviceDatagrams conn sock now).2.2)) := by
  have hh := serviceDatagrams_handle conn sock now
  rw [serviceUdp, hc]
  dsimp only
  rw [SocketSet.getUdp_eq hs, ok_bind, hh]
  rfl

end Udp

section Udp
variable [TcpApi T] (now due : Instant)

theorem expireEntry_udp_none (h : m.udp.lookup key = none) :
    m.expireEntry sockets now due (.udp key) = .ok (m, sockets) := by
  rw [expireEntry, h]; rfl

/-- A due entry that is its flow's own files the flow's next one if the flow is live, and retires
the flow if not. -/
theorem expireEntry_udp {conn : UdpConn} {s : Socket T U} (hc : m.udp.lookup key = some conn)
    (hs : sockets.lookup conn.handle = some s) :
    m.expireEntry sockets now due (.udp key) = .ok (
      if conn.deadline ≠ due then (m, sockets)
      else if durationSince now conn.last < UDP_IDLE then
        ({ m with
          udp := m.udp.insert key { conn with deadline := conn.last + UDP_IDLE }
          deadlines := pushDeadline m.deadlines (conn.last + UDP_IDLE, .udp key) }, sockets)
      else (m.closeUdp key, sockets.erase conn.handle)) := by
  rw [expireEntry, hc]
  dsimp only
  split
  · rfl
  split
  · rfl
  rw [SocketSet.remove_eq hs]
  rfl

end Udp

/-! ### Flows that come -/

/-- A packet opens one TCP flow at most, with its socket, and leaves the others. -/
theorem onPacket_tcp [TcpApi T] [UdpApi U] {flow : Flow} {handle : ℕ} {now : Instant}
    {conn : TcpConn}
    (hc : (m.onPacket sockets flow handle now).1.tcp.lookup key = some conn) :
    m.tcp.lookup key = some conn ∨ m.tcp.lookup key = none ∧
      conn = ⟨handle, some .new, .new, .empty, false, false, now + TCP_HANDSHAKE_TIMEOUT⟩ ∧
      ∃ sock, TcpApi.listen flow.dst = some sock ∧
        (m.onPacket sockets flow handle now).2.lookup handle = some (.tcp sock) := by
  unfold onPacket at hc ⊢
  dsimp only at hc ⊢
  split at hc
  · next hp =>
      rw [if_pos hp]
      split at hc
      · next ha =>
          rw [if_pos ha]
          unfold openTcp at hc ⊢
          cases hl : TcpApi.listen (T := T) flow.dst with
          | none =>
              rw [hl] at hc
              exact .inl hc
          | some sock =>
              rw [hl] at hc
              change Finmap.lookup key (m.tcp.insert _ _) = _ at hc
              rw [Finmap.lookup_insert_eq] at hc
              split at hc
              · next hk =>
                  cases hc
                  exact .inr ⟨hk ▸ hp.2.2, rfl, sock, rfl, Finmap.lookup_insert _⟩
              · exact .inl hc
      · exact .inl hc
  · -- a datagram, or a packet of a flow that is there
    left
    split at hc
    · split at hc
      · unfold openUdp at hc
        cases hl : UdpApi.bind (U := U) flow.dst with
        | none =>
            rw [hl] at hc
            exact hc
        | some sock =>
            rw [hl] at hc
            exact hc
      · exact hc
    · exact hc

end ConnManager

end Tunnel.Conn
