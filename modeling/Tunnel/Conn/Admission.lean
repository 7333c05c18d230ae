import Tunnel.Conn.Sockets
import Tunnel.Conn.Steps
import Tunnel.Support.Pool

/-!
# Conn — Admission

The budgets and the socket set are exact: each budget is charged for the flows there are and no
others, within its ceilings, and the set holds one socket for each flow.  So no call on a flow's
handle panics, and no refund saturates.

* `Account`: a budget that is charged for `n` flows.
* `Sound`: the invariant of the manager and the set.  `Sound.onPacket`, `Sound.expire`,
  `Sound.serviceAll`: each operation returns, and keeps it.
* `admission_exact`: the invariant in every reachable state, and every dispatch returns.
-/

namespace Tunnel.Conn
open Support

/-! ### Budgets -/

/-- A budget of these constants, charged for `n` flows, within its ceilings. -/
structure Account (cost maxFlows maxBytes : ℕ) (b : Budget) (n : ℕ) : Prop where
  eq : b = ⟨cost * n, cost, maxFlows, maxBytes⟩
  bytes_le : cost * n ≤ maxBytes
  flows_le : n ≤ maxFlows

namespace Account

variable {cost maxFlows maxBytes n : ℕ} {b : Budget}

theorem new : Account cost maxFlows maxBytes (.new cost maxFlows maxBytes) 0 :=
  ⟨rfl, Nat.zero_le _, Nat.zero_le _⟩

theorem charge (h : Account cost maxFlows maxBytes b n) (ha : b.admits n = true) :
    Account cost maxFlows maxBytes b.charge (n + 1) := by
  obtain ⟨rfl, -, -⟩ := h
  simp only [Budget.admits, Bool.and_eq_true, decide_eq_true_eq] at ha
  exact ⟨rfl, ha.2, ha.1⟩

/-- A refund for a flow there is gives its cost back. -/
theorem refund (h : Account cost maxFlows maxBytes b (n + 1)) :
    Account cost maxFlows maxBytes b.refund n := by
  obtain ⟨rfl, hb, hf⟩ := h
  rw [Nat.mul_succ] at hb
  refine ⟨?_, by omega, by omega⟩
  rw [Budget.refund, Nat.mul_succ, Nat.add_sub_cancel]

end Account

/-! ### The invariant -/

variable {T U : Type}

def Socket.IsTcp : Socket T U → Prop
  | .tcp _ => True
  | .udp _ => False

def Socket.IsUdp : Socket T U → Prop
  | .tcp _ => False
  | .udp _ => True

theorem Socket.isTcp_iff {s : Socket T U} : s.IsTcp ↔ ∃ sock, s = .tcp sock := by
  cases s <;> simp [IsTcp]

theorem Socket.isUdp_iff {s : Socket T U} : s.IsUdp ↔ ∃ sock, s = .udp sock := by
  cases s <;> simp [IsUdp]

/-- A TCP socket is none of the UDP flows'. -/
theorem SocketSet.not_udp {sockets : SocketSet T U} {handle : ℕ} {sock : T}
    (hs : sockets.lookup handle = some (.tcp sock)) :
    ∀ s, sockets.lookup handle = some s → ¬ s.IsUdp := by
  intro s h hk
  rw [hs] at h
  cases h
  exact hk

theorem SocketSet.not_tcp {sockets : SocketSet T U} {handle : ℕ} {sock : U}
    (hs : sockets.lookup handle = some (.udp sock)) :
    ∀ s, sockets.lookup handle = some s → ¬ s.IsTcp := by
  intro s h hk
  rw [hs] at h
  cases h
  exact hk

variable [UdpApi U]

/-- Both budgets are charged for the flows there are, and each flow owns one socket of its kind. -/
structure Sound (m : ConnManager) (sockets : SocketSet T U) : Prop where
  tcp : Account TCP_FLOW_COST MAX_TCP_FLOWS TCP_MEM_BUDGET m.tcpBudget m.tcp.size
  udp : Account (UDP_FLOW_COST U) MAX_UDP_FLOWS UDP_MEM_BUDGET m.udpBudget m.udp.size
  tcpPool : Pool TcpConn.handle Socket.IsTcp m.tcp sockets
  udpPool : Pool UdpConn.handle Socket.IsUdp m.udp sockets

namespace Sound

variable {m m' : ConnManager} {sockets : SocketSet T U}

/-- The invariant is about the maps and the budgets alone. -/
theorem congr (h : Sound m sockets) (h₁ : m'.tcp = m.tcp) (h₂ : m'.udp = m.udp)
    (h₃ : m'.tcpBudget = m.tcpBudget) (h₄ : m'.udpBudget = m.udpBudget) : Sound m' sockets :=
  ⟨h₁ ▸ h₃ ▸ h.tcp, h₂ ▸ h₄ ▸ h.udp, h₁ ▸ h.tcpPool, h₂ ▸ h.udpPool⟩

theorem new : Sound (.new U) (∅ : SocketSet T U) :=
  ⟨Account.new, Account.new, Pool.empty, Pool.empty⟩

theorem tcp_socket (h : Sound m sockets) {key : FourTuple} {conn : TcpConn}
    (hc : m.tcp.lookup key = some conn) :
    ∃ sock, sockets.lookup conn.handle = some (.tcp sock) := by
  obtain ⟨s, hs, hk⟩ := h.tcpPool.held key conn hc
  obtain ⟨sock, rfl⟩ := Socket.isTcp_iff.mp hk
  exact ⟨sock, hs⟩

theorem udp_socket (h : Sound m sockets) {key : FourTuple} {conn : UdpConn}
    (hc : m.udp.lookup key = some conn) :
    ∃ sock, sockets.lookup conn.handle = some (.udp sock) := by
  obtain ⟨s, hs, hk⟩ := h.udpPool.held key conn hc
  obtain ⟨sock, rfl⟩ := Socket.isUdp_iff.mp hk
  exact ⟨sock, hs⟩

/-- No TCP flow and UDP flow share a socket. -/
theorem handle_ne (h : Sound m sockets) {key key' : FourTuple} {conn : TcpConn} {conn' : UdpConn}
    (hc : m.tcp.lookup key = some conn) (hc' : m.udp.lookup key' = some conn') :
    conn.handle ≠ conn'.handle := by
  intro he
  obtain ⟨sock, hs⟩ := h.tcp_socket hc
  obtain ⟨sock', hs'⟩ := h.udp_socket hc'
  rw [he, hs'] at hs
  cases hs

/-! ### Flows that come, change and go -/

theorem openTcp (h : Sound m sockets) {key : FourTuple} (conn : TcpConn) (sock : T)
    (hk : m.tcp.lookup key = none) (hh : sockets.lookup conn.handle = none)
    (ha : m.tcpBudget.admits m.tcp.size = true) :
    Sound { m with tcp := m.tcp.insert key conn, tcpBudget := m.tcpBudget.charge }
      (sockets.insert conn.handle (.tcp sock)) where
  tcp := by
    change Account _ _ _ _ (m.tcp.insert key conn).size
    rw [Finmap.size_insert_of_lookup_none _ hk]
    exact h.tcp.charge ha
  udp := h.udp
  tcpPool := h.tcpPool.acquire hh trivial hk
  udpPool := h.udpPool.frame_insert (fun s hs => by rw [hh] at hs; cases hs) id

theorem openUdp (h : Sound m sockets) {key : FourTuple} (conn : UdpConn) (sock : U)
    (hk : m.udp.lookup key = none) (hh : sockets.lookup conn.handle = none)
    (ha : m.udpBudget.admits m.udp.size = true) :
    Sound { m with udp := m.udp.insert key conn, udpBudget := m.udpBudget.charge }
      (sockets.insert conn.handle (.udp sock)) where
  tcp := h.tcp
  udp := by
    change Account _ _ _ _ (m.udp.insert key conn).size
    rw [Finmap.size_insert_of_lookup_none _ hk]
    exact h.udp.charge ha
  tcpPool := h.tcpPool.frame_insert (fun s hs => by rw [hh] at hs; cases hs) id
  udpPool := h.udpPool.acquire hh trivial hk

theorem closeTcp (h : Sound m sockets) {key : FourTuple} {conn : TcpConn}
    (hc : m.tcp.lookup key = some conn) :
    Sound { m with tcp := m.tcp.erase key, tcpBudget := m.tcpBudget.refund }
      (sockets.erase conn.handle) := by
  obtain ⟨sock, hs⟩ := h.tcp_socket hc
  refine ⟨?_, h.udp, h.tcpPool.release hc, h.udpPool.frame_erase (SocketSet.not_udp hs)⟩
  have ht := h.tcp
  rw [← Finmap.size_erase_add_one hc] at ht
  exact ht.refund

theorem closeUdp (h : Sound m sockets) {key : FourTuple} {conn : UdpConn}
    (hc : m.udp.lookup key = some conn) :
    Sound { m with udp := m.udp.erase key, udpBudget := m.udpBudget.refund }
      (sockets.erase conn.handle) := by
  obtain ⟨sock, hs⟩ := h.udp_socket hc
  refine ⟨h.tcp, ?_, h.tcpPool.frame_erase (SocketSet.not_tcp hs), h.udpPool.release hc⟩
  have hu := h.udp
  rw [← Finmap.size_erase_add_one hc] at hu
  exact hu.refund

theorem updateTcp (h : Sound m sockets) {key : FourTuple} {conn conn' : TcpConn} (sock : T)
    (hc : m.tcp.lookup key = some conn) (hh : conn'.handle = conn.handle) :
    Sound { m with tcp := m.tcp.insert key conn' } (sockets.insert conn.handle (.tcp sock)) := by
  obtain ⟨old, hs⟩ := h.tcp_socket hc
  refine ⟨?_, h.udp, h.tcpPool.update hc hh trivial,
    h.udpPool.frame_insert (SocketSet.not_udp hs) id⟩
  change Account _ _ _ _ (m.tcp.insert key conn').size
  rw [Finmap.size_insert_of_lookup_some hc]
  exact h.tcp

theorem updateUdp (h : Sound m sockets) {key : FourTuple} {conn conn' : UdpConn} (sock : U)
    (hc : m.udp.lookup key = some conn) (hh : conn'.handle = conn.handle) :
    Sound { m with udp := m.udp.insert key conn' } (sockets.insert conn.handle (.udp sock)) := by
  obtain ⟨old, hs⟩ := h.udp_socket hc
  refine ⟨h.tcp, ?_, h.tcpPool.frame_insert (SocketSet.not_tcp hs) id,
    h.udpPool.update hc hh trivial⟩
  change Account _ _ _ _ (m.udp.insert key conn').size
  rw [Finmap.size_insert_of_lookup_some hc]
  exact h.udp

/-- A flow changes and its socket stays. -/
theorem setTcp (h : Sound m sockets) {key : FourTuple} {conn conn' : TcpConn}
    (hc : m.tcp.lookup key = some conn) (hh : conn'.handle = conn.handle) :
    Sound { m with tcp := m.tcp.insert key conn' } sockets := by
  obtain ⟨sock, hs⟩ := h.tcp_socket hc
  have h' := h.updateTcp sock hc hh
  rwa [Finmap.insert_lookup hs] at h'

theorem setUdp (h : Sound m sockets) {key : FourTuple} {conn conn' : UdpConn}
    (hc : m.udp.lookup key = some conn) (hh : conn'.handle = conn.handle) :
    Sound { m with udp := m.udp.insert key conn' } sockets := by
  obtain ⟨sock, hs⟩ := h.udp_socket hc
  have h' := h.updateUdp sock hc hh
  rwa [Finmap.insert_lookup hs] at h'

theorem pollTcp (h : Sound m sockets) {handle : ℕ} {old sock : T}
    (hs : sockets.lookup handle = some (.tcp old)) :
    Sound m (sockets.insert handle (.tcp sock)) :=
  ⟨h.tcp, h.udp, h.tcpPool.poll hs trivial trivial,
    h.udpPool.frame_insert (SocketSet.not_udp hs) id⟩

theorem pollUdp (h : Sound m sockets) {handle : ℕ} {old sock : U}
    (hs : sockets.lookup handle = some (.udp old)) :
    Sound m (sockets.insert handle (.udp sock)) :=
  ⟨h.tcp, h.udp, h.tcpPool.frame_insert (SocketSet.not_tcp hs) id,
    h.udpPool.poll hs trivial trivial⟩

/-! ### The operations -/

theorem serviceUdp (h : Sound m sockets) (key : FourTuple) (now : Instant) :
    ∃ queued m' sockets', m.serviceUdp sockets key now = .ok (queued, m', sockets') ∧
      Sound m' sockets' := by
  cases hc : m.udp.lookup key with
  | none => exact ⟨_, _, _, ConnManager.serviceUdp_none now hc, h⟩
  | some conn =>
      obtain ⟨sock, hs⟩ := h.udp_socket hc
      exact ⟨_, _, _, ConnManager.serviceUdp_eq now hc hs,
        h.updateUdp _ hc (serviceDatagrams_handle conn sock now)⟩

/-- The ready queue is taken. -/
theorem drained (h : Sound m sockets) : Sound { m with ready := .new } sockets :=
  h.congr rfl rfl rfl rfl

theorem egress (h : Sound m sockets) (act : EgressAct) (id : FlowId) :
    Sound (m.egress act id) sockets := by
  unfold ConnManager.egress
  cases id with
  | tcp key =>
      dsimp only
      split
      · next conn hc => exact h.setTcp hc rfl
      · exact h
  | udp key =>
      dsimp only
      split
      · next conn hc => exact h.setUdp hc rfl
      · exact h

variable [TcpApi T]

theorem onPacket (h : Sound m sockets) (flow : Flow) {handle : ℕ} (now : Instant)
    (hh : sockets.lookup handle = none) :
    Sound (m.onPacket sockets flow handle now).1 (m.onPacket sockets flow handle now).2 := by
  unfold ConnManager.onPacket
  dsimp only
  split
  · next hn =>
      split
      · next ha =>
          unfold ConnManager.openTcp
          cases TcpApi.listen (T := T) flow.dst with
          | none => exact h
          | some sock =>
              have ho := h.openTcp
                ⟨handle, some .new, .new, .empty, false, false, now + TCP_HANDSHAKE_TIMEOUT⟩ sock
                hn.2.2 hh ha
              exact ho.congr rfl rfl rfl rfl
      · exact h.congr rfl rfl rfl rfl
  split
  · next hn =>
      split
      · next ha =>
          unfold ConnManager.openUdp
          cases UdpApi.bind (U := U) flow.dst with
          | none => exact h
          | some sock =>
              have ho := h.openUdp
                ⟨handle, .new, .new, none, now, now + UDP_IDLE⟩ sock hn.2 hh ha
              exact ho.congr rfl rfl rfl rfl
      · exact h.congr rfl rfl rfl rfl
  · exact h

theorem serviceTcp (h : Sound m sockets) (key : FourTuple) :
    ∃ queued m' sockets', m.serviceTcp sockets key = .ok (queued, m', sockets') ∧
      Sound m' sockets' := by
  cases hc : m.tcp.lookup key with
  | none => exact ⟨_, _, _, ConnManager.serviceTcp_none hc, h⟩
  | some conn =>
      obtain ⟨sock, hs⟩ := h.tcp_socket hc
      have e := ConnManager.serviceTcp_eq hc hs
      split at e
      · exact ⟨_, _, _, e, h.closeTcp hc⟩
      · exact ⟨_, _, _, e, h.updateTcp _ hc (serviceConn_handle conn sock)⟩

theorem serviceAll (now : Instant) (ids : List FlowId) (queued : Bool) (h : Sound m sockets) :
    ∃ queued' m' sockets',
      ConnManager.serviceAll now ids queued m sockets = .ok (queued', m', sockets') ∧
        Sound m' sockets' := by
  induction ids generalizing queued m sockets with
  | nil => exact ⟨queued, m, sockets, rfl, h⟩
  | cons id ids ih =>
      unfold ConnManager.serviceAll
      cases id with
      | tcp key =>
          obtain ⟨q, m₁, sockets₁, e₁, h₁⟩ := h.serviceTcp key
          dsimp only
          rw [e₁, ok_bind]
          exact ih _ h₁
      | udp key =>
          obtain ⟨q, m₁, sockets₁, e₁, h₁⟩ := h.serviceUdp key now
          dsimp only
          rw [e₁, ok_bind]
          exact ih _ h₁

theorem expireEntry (h : Sound m sockets) (now due : Instant) (id : FlowId) :
    ∃ m' sockets', m.expireEntry sockets now due id = .ok (m', sockets') ∧ Sound m' sockets' := by
  cases id with
  | tcp key =>
      cases hc : m.tcp.lookup key with
      | none => exact ⟨_, _, ConnManager.expireEntry_tcp_none now due hc, h⟩
      | some conn =>
          obtain ⟨sock, hs⟩ := h.tcp_socket hc
          have e := ConnManager.expireEntry_tcp now due hc hs
          split at e
          · exact ⟨_, _, e, h⟩
          · exact ⟨_, _, e, (h.closeTcp hc).congr rfl rfl rfl rfl⟩
  | udp key =>
      cases hc : m.udp.lookup key with
      | none => exact ⟨_, _, ConnManager.expireEntry_udp_none now due hc, h⟩
      | some conn =>
          obtain ⟨sock, hs⟩ := h.udp_socket hc
          have e := ConnManager.expireEntry_udp now due hc hs
          split at e
          · exact ⟨_, _, e, h⟩
          split at e
          · have hu : Sound { m with
                udp := m.udp.insert key { conn with deadline := conn.last + UDP_IDLE } } sockets :=
              h.setUdp hc rfl
            exact ⟨_, _, e, hu.congr rfl rfl rfl rfl⟩
          · exact ⟨_, _, e, h.closeUdp hc⟩

theorem expireLoop (now : Instant) (n : ℕ) (h : Sound m sockets) :
    ∃ m' sockets', ConnManager.expireLoop now n m sockets = .ok (m', sockets') ∧
      Sound m' sockets' := by
  induction n generalizing m sockets with
  | zero => exact ⟨m, sockets, rfl, h⟩
  | succ n ih =>
      unfold ConnManager.expireLoop
      cases hd : m.deadlines with
      | nil => exact ⟨m, sockets, rfl, h⟩
      | cons e rest =>
          obtain ⟨due, id⟩ := e
          dsimp only
          split
          · exact ⟨m, sockets, rfl, h⟩
          · have hr : Sound { m with deadlines := rest } sockets := h.congr rfl rfl rfl rfl
            obtain ⟨m₁, sockets₁, e₁, h₁⟩ := hr.expireEntry now due id
            rw [e₁, ok_bind]
            exact ih h₁

/-- A dispatch returns, at any time. -/
theorem dispatch (h : Sound m sockets) (now : Instant) :
    ∃ queued m' sockets', m.dispatch sockets now = .ok (queued, m', sockets') ∧
      Sound m' sockets' := by
  obtain ⟨m₁, sockets₁, e₁, h₁⟩ := h.expireLoop now m.deadlines.length
  obtain ⟨q, m₂, sockets₂, e₂, h₂⟩ := h₁.drained.serviceAll now m₁.ready.take.1 false
  refine ⟨q, m₂, sockets₂, ?_, h₂⟩
  rw [ConnManager.dispatch, ConnManager.expire, e₁, ok_bind]
  exact e₂

theorem step {s s' : Engine T U} {e : ConnEvent T U} (h : Sound s.mgr s.sockets)
    (hs : ConnStep s e s') : Sound s'.mgr s'.sockets := by
  cases e with
  | onPacket flow handle now =>
      obtain ⟨hh, he⟩ := hs
      have h' := h.onPacket flow now hh
      rwa [he] at h'
  | dispatch now =>
      obtain ⟨queued, he⟩ := hs
      obtain ⟨q, m', sockets', e', h'⟩ := h.dispatch now
      rw [he] at e'
      cases e'
      exact h'
  | pollTcp handle sock =>
      obtain ⟨⟨old, ho⟩, rfl⟩ := hs
      exact h.pollTcp ho
  | pollUdp handle sock =>
      obtain ⟨⟨old, ho⟩, rfl⟩ := hs
      exact h.pollUdp ho
  | mark id =>
      cases hs
      exact h.congr rfl rfl rfl rfl
  | egress id act =>
      cases hs
      exact h.egress act id

end Sound

/-- An enabled event happens. -/
theorem ConnStep.of_enabled [TcpApi T] {s : Engine T U} {e : ConnEvent T U}
    (h : Sound s.mgr s.sockets) (he : s.enabled e = true) : ConnStep s e (s.apply e) := by
  cases e with
  | onPacket flow handle now => exact ⟨Option.isNone_iff_eq_none.mp he, rfl⟩
  | dispatch now =>
      obtain ⟨q, m, sockets, e, -⟩ := h.dispatch now
      unfold Engine.apply
      dsimp only
      rw [e]
      exact ⟨q, e⟩
  | pollTcp handle sock =>
      unfold Engine.enabled at he
      dsimp only at he
      split at he
      · next old ho => exact ⟨⟨old, ho⟩, rfl⟩
      · cases he
  | pollUdp handle sock =>
      unfold Engine.enabled at he
      dsimp only at he
      split at he
      · next old ho => exact ⟨⟨old, ho⟩, rfl⟩
      · cases he
  | mark id => rfl
  | egress id act => rfl

/-- Events that are each enabled make a run. -/
theorem Run.of_enabled [TcpApi T] {s : Engine T U} {es : List (ConnEvent T U)}
    (h : Sound s.mgr s.sockets) (he : allAlong Engine.apply Engine.enabled s es = true) :
    Run ConnStep s es (es.foldl Engine.apply s) :=
  Run.of_allAlong (I := fun s => Sound s.mgr s.sockets) (fun _ _ _ hs => hs.step)
    (fun _ _ hs he => ConnStep.of_enabled hs he) he h

/-! ### Every reachable state -/

/-- The budgets and the socket set, in the manager's own fields. -/
structure Exact (m : ConnManager) (sockets : SocketSet T U) : Prop where
  tcp_charged : m.tcpBudget.charged = TCP_FLOW_COST * m.tcp.size
  tcp_bytes : m.tcpBudget.charged ≤ TCP_MEM_BUDGET
  tcp_flows : m.tcp.size ≤ MAX_TCP_FLOWS
  udp_charged : m.udpBudget.charged = UDP_FLOW_COST U * m.udp.size
  udp_bytes : m.udpBudget.charged ≤ UDP_MEM_BUDGET
  udp_flows : m.udp.size ≤ MAX_UDP_FLOWS
  /-- A refund for a flow there is gives back its whole cost. -/
  tcp_refund : ∀ key conn, m.tcp.lookup key = some conn →
    m.tcpBudget.refund.charged + TCP_FLOW_COST = m.tcpBudget.charged
  udp_refund : ∀ key conn, m.udp.lookup key = some conn →
    m.udpBudget.refund.charged + UDP_FLOW_COST U = m.udpBudget.charged
  /-- `get_mut` succeeds. -/
  tcp_socket : ∀ key conn, m.tcp.lookup key = some conn →
    ∃ sock, sockets.getTcp conn.handle = .ok sock
  udp_socket : ∀ key conn, m.udp.lookup key = some conn →
    ∃ sock, sockets.getUdp conn.handle = .ok sock
  tcp_distinct : ∀ key key' conn conn', m.tcp.lookup key = some conn →
    m.tcp.lookup key' = some conn' → conn.handle = conn'.handle → key = key'
  udp_distinct : ∀ key key' conn conn', m.udp.lookup key = some conn →
    m.udp.lookup key' = some conn' → conn.handle = conn'.handle → key = key'
  disjoint : ∀ key key' conn conn', m.tcp.lookup key = some conn →
    m.udp.lookup key' = some conn' → conn.handle ≠ conn'.handle
  /-- No socket is left behind. -/
  owned : ∀ handle sock, sockets.lookup handle = some sock →
    (∃ key conn, m.tcp.lookup key = some conn ∧ conn.handle = handle) ∨
      ∃ key conn, m.udp.lookup key = some conn ∧ conn.handle = handle

theorem Account.refund_exact {cost maxFlows maxBytes : ℕ} {b : Budget} {K V : Type} [DecidableEq K]
    {t : Table K V} (h : Account cost maxFlows maxBytes b t.size) {key : K} {v : V}
    (hv : t.lookup key = some v) : b.refund.charged + cost = b.charged := by
  obtain ⟨rfl, -, -⟩ := h
  rw [← Finmap.size_erase_add_one hv, Nat.mul_succ]
  exact Nat.sub_add_cancel (Nat.le_add_left _ _)

theorem Sound.exact {m : ConnManager} {sockets : SocketSet T U} (h : Sound m sockets) :
    Exact m sockets where
  tcp_charged := congrArg Budget.charged h.tcp.eq
  tcp_bytes := (congrArg Budget.charged h.tcp.eq).trans_le h.tcp.bytes_le
  tcp_flows := h.tcp.flows_le
  udp_charged := congrArg Budget.charged h.udp.eq
  udp_bytes := (congrArg Budget.charged h.udp.eq).trans_le h.udp.bytes_le
  udp_flows := h.udp.flows_le
  tcp_refund _ _ hc := h.tcp.refund_exact hc
  udp_refund _ _ hc := h.udp.refund_exact hc
  tcp_socket _ _ hc := by
    obtain ⟨sock, hs⟩ := h.tcp_socket hc
    exact ⟨sock, SocketSet.getTcp_eq hs⟩
  udp_socket _ _ hc := by
    obtain ⟨sock, hs⟩ := h.udp_socket hc
    exact ⟨sock, SocketSet.getUdp_eq hs⟩
  tcp_distinct := h.tcpPool.inj
  udp_distinct := h.udpPool.inj
  disjoint _ _ _ _ hc hc' := h.handle_ne hc hc'
  owned handle sock hs := by
    cases sock with
    | tcp sock => exact .inl (h.tcpPool.owned handle _ hs trivial)
    | udp sock => exact .inr (h.udpPool.owned handle _ hs trivial)

variable [TcpApi T]

theorem ConnReachable.sound {s : Engine T U} (h : ConnReachable s) : Sound s.mgr s.sockets := by
  refine Reachable.invariant (I := fun s : Engine T U => Sound s.mgr s.sockets) ?_ ?_ h
  · rintro _ rfl
    exact Sound.new
  · exact fun _ _ _ => Sound.step

/-- Admission is exact in every reachable state, and inside every dispatch: after any number of due
heap entries, and after any passes from there.  So every dispatch returns. -/
theorem admission_exact {s : Engine T U} (h : ConnReachable s) :
    Exact s.mgr s.sockets ∧ ∀ now,
      (∀ n, ∃ m sockets, ConnManager.expireLoop now n s.mgr s.sockets = .ok (m, sockets) ∧
        Exact m sockets ∧
        ∀ ids, ∃ queued m' sockets', ConnManager.serviceAll now ids false { m with ready := .new }
            sockets = .ok (queued, m', sockets') ∧ Exact m' sockets') ∧
      ∃ queued m sockets, s.mgr.dispatch s.sockets now = .ok (queued, m, sockets) := by
  have hs := h.sound
  refine ⟨hs.exact, fun now => ⟨fun n => ?_, ?_⟩⟩
  · obtain ⟨m, sockets, e, hm⟩ := hs.expireLoop now n
    refine ⟨m, sockets, e, hm.exact, fun ids => ?_⟩
    obtain ⟨q, m', sockets', e', hm'⟩ := hm.drained.serviceAll now ids false
    exact ⟨q, m', sockets', e', hm'.exact⟩
  · obtain ⟨q, m, sockets, e, -⟩ := hs.dispatch now
    exact ⟨q, m, sockets, e⟩

/-- A SYN to a web server, and a datagram to a name server. -/
def webSyn : Flow := ⟨6, ⟨⟨10, 0, 0, 2⟩, 40000⟩, ⟨⟨1, 1, 1, 1⟩, 443⟩, true⟩
def dnsQuery : Flow := ⟨17, ⟨⟨10, 0, 0, 2⟩, 40001⟩, ⟨⟨1, 1, 1, 1⟩, 53⟩, false⟩

/-- One flow of each kind opens. -/
def twoFlows : List (ConnEvent SimTcp SimUdp) := [.onPacket webSyn 0 0, .onPacket dnsQuery 1 5]

theorem admission_exact_twoFlows : ∃ s : Engine SimTcp SimUdp,
    Run ConnStep (.new SimTcp SimUdp) twoFlows s ∧ s.mgr.tcp.size = 1 ∧ s.mgr.udp.size = 1 ∧
      Exact s.mgr s.sockets := by
  have hr : Run ConnStep (.new SimTcp SimUdp) twoFlows _ :=
    Run.of_enabled Sound.new (by decide +kernel)
  exact ⟨_, hr, by decide +kernel, by decide +kernel,
    (admission_exact (ConnReachable.new.run hr)).1⟩

end Tunnel.Conn
