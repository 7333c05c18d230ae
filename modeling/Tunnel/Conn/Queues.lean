import Tunnel.Conn.Relay

/-!
# Conn — The bytes of one flow

The bytes that wait in the queues of a TCP flow, and what a service pass does to their number, by the
laws of the socket's send buffer.

* `Pending.Wf`: `pending_out` counts the bytes it holds.
* `drainPending_len`: smoltcp takes what its send buffer has room for.
* `serviceConn_inbound`, `sends_eq`: what a pass leaves for the app, and what it adds for the egress.

`BufTcp` is the smallest socket that obeys the laws: one of the others with a send buffer that nothing
but `sendSlice` touches.
-/

namespace Tunnel.Conn
open Support TcpLaws

/-! ### The send buffer -/

class TcpBufferLaws (T : Type) [TcpApi T] extends TcpLaws T where
  /-- The bytes the send buffer takes: its free space where the socket may send, and none
  elsewhere. -/
  txRoom : T → ℕ
  canSend_iff : ∀ sock : T, TcpApi.canSend sock = true ↔ 0 < txRoom sock
  /-- As much is queued as there is free space for. -/
  sendSlice_room : ∀ (sock : T) (data : Bytes), 0 < txRoom sock →
    (TcpApi.sendSlice sock data).1 = some (min data.length (txRoom sock)) ∧
      txRoom (TcpApi.sendSlice sock data).2 = txRoom sock - data.length
  /-- Nothing is received before the handshake. -/
  rx_unopened : ∀ sock : T, TcpApi.state sock = .listen ∨ TcpApi.state sock = .synSent →
    rx sock = []

structure BufTcp where
  sim : SimTcp
  room : ℕ
  unopened : sim.state = .listen ∨ sim.state = .synSent → sim.rx = []
deriving DecidableEq

instance : TcpApi BufTcp where
  listen addr :=
    match (TcpApi.listen addr : Option SimTcp) with
    | some _ => some ⟨⟨.listen, []⟩, TCP_BUF, fun _ => rfl⟩
    | none => none
  state sock := sock.sim.state
  canSend sock := TcpApi.canSend sock.sim && 0 < sock.room
  sendSlice sock data :=
    if TcpApi.canSend sock.sim then
      (some (min data.length sock.room), { sock with room := sock.room - data.length })
    else (none, sock)
  canRecv sock := TcpApi.canRecv sock.sim
  mayRecv sock := TcpApi.mayRecv sock.sim
  recv sock := if sock.sim.rx = [] then (none, sock)
    else (some sock.sim.rx, ⟨{ sock.sim with rx := [] }, sock.room, fun _ => rfl⟩)
  close sock := ⟨{ sock.sim with state := sock.sim.state.close }, sock.room,
    fun h => absurd h TcpState.close_not_opening⟩
  abort sock := ⟨{ sock.sim with state := .closed }, sock.room, nofun⟩

instance : TcpBufferLaws BufTcp where
  rx sock := rx sock.sim
  rx_ne sock := rx_ne sock.sim
  listen_state addr sock h := by
    simp only [TcpApi.listen] at h
    split at h <;> cases h
    rfl
  listen_rx addr sock h := by
    simp only [TcpApi.listen] at h
    split at h <;> cases h
    rfl
  canRecv_iff sock := canRecv_iff sock.sim
  mayRecv_iff sock := mayRecv_iff sock.sim
  recv_rx sock part rest h := by
    by_cases hr : sock.sim.rx = []
    · simp [rx, hr] at h
    · simp only [rx, hr, if_false, List.cons.injEq] at h
      obtain ⟨rfl, rfl⟩ := h
      simp [TcpApi.recv, rx, hr]
  recv_state sock := by
    by_cases h : sock.sim.rx = [] <;> simp [TcpApi.recv, TcpApi.state, h]
  sendSlice_rx sock data := by
    simp only [TcpApi.sendSlice]
    split <;> rfl
  sendSlice_state sock data := by
    simp only [TcpApi.sendSlice]
    split <;> rfl
  close_rx _ := rfl
  close_state _ := rfl
  txRoom sock := if TcpApi.canSend sock.sim then sock.room else 0
  canSend_iff sock := by
    change (TcpApi.canSend sock.sim && decide (0 < sock.room)) = true ↔ _
    cases TcpApi.canSend sock.sim <;> simp
  sendSlice_room sock data h := by
    cases hs : TcpApi.canSend sock.sim <;> simp [TcpApi.sendSlice, hs] at h ⊢
  rx_unopened sock h := by
    simp [rx, sock.unopened h]

/-! ### Bytes in chunks -/

def queuedBytes (chunks : List Bytes) : ℕ := (chunks.map List.length).sum

@[simp] theorem queuedBytes_nil : queuedBytes [] = 0 := rfl

@[simp] theorem queuedBytes_cons (c : Bytes) (chunks : List Bytes) :
    queuedBytes (c :: chunks) = c.length + queuedBytes chunks := rfl

@[simp] theorem queuedBytes_append (xs ys : List Bytes) :
    queuedBytes (xs ++ ys) = queuedBytes xs + queuedBytes ys := by
  simp [queuedBytes]

theorem queuedBytes_tail_le (chunks : List Bytes) : queuedBytes chunks.tail ≤ queuedBytes chunks := by
  cases chunks <;> simp

namespace Pending

/-- The count is of the bytes not consumed, and the first chunk has some left. -/
structure Wf (p : Pending) : Prop where
  bytes_eq : p.bytes + p.head = queuedBytes p.chunks
  head_lt : ∀ c rest, p.chunks = c :: rest → p.head < c.length
  chunk_ne : ∀ c ∈ p.chunks, c ≠ []

namespace Wf

variable {p : Pending}

theorem empty : Wf .empty := ⟨rfl, nofun, nofun⟩

theorem push (h : p.Wf) (v : Bytes) : (p.push v).Wf ∧ (p.push v).len = p.len + v.length := by
  unfold Pending.push
  by_cases hv : v.isEmpty = true
  · rw [if_pos hv]
    exact ⟨h, by rw [List.isEmpty_iff.mp hv]; rfl⟩
  · rw [if_neg hv]
    refine ⟨⟨?_, ?_, ?_⟩, rfl⟩
    · have hb := h.bytes_eq
      simp only [queuedBytes_append, queuedBytes_cons, queuedBytes_nil]
      omega
    · intro c rest he
      cases hc : p.chunks with
      | nil =>
          have hb := h.bytes_eq
          rw [hc] at he hb
          cases he
          have hpos : 0 < v.length := List.length_pos_iff.mpr (by simpa using hv)
          simp only [queuedBytes_nil] at hb
          change p.head < v.length
          omega
      | cons d chunks =>
          rw [hc] at he
          cases he
          exact h.head_lt _ _ hc
    · intro c hc
      rcases List.mem_append.mp hc with hc | hc
      · exact h.chunk_ne c hc
      · rw [List.mem_singleton.mp hc]
        simpa using hv

/-- What is pending has a first part. -/
theorem front (h : p.Wf) (hne : p.isEmpty = false) :
    ∃ c rest, p.chunks = c :: rest ∧ p.front.length = c.length - p.head ∧ p.head < c.length := by
  cases hc : p.chunks with
  | nil =>
      have hb := h.bytes_eq
      rw [hc, queuedBytes_nil] at hb
      simp only [Pending.isEmpty, beq_eq_false_iff_ne, ne_eq] at hne
      omega
  | cons c rest =>
      refine ⟨c, rest, rfl, ?_, h.head_lt c rest hc⟩
      simp [Pending.front, hc]

theorem advance (h : p.Wf) {n : ℕ} (hn : n ≤ p.front.length) (hne : p.isEmpty = false) :
    (p.advance n).Wf ∧ (p.advance n).len = p.len - n := by
  obtain ⟨c, rest, hc, hfront, hhead⟩ := h.front hne
  have hb := h.bytes_eq
  rw [hc, queuedBytes_cons] at hb
  rw [hfront] at hn
  unfold Pending.advance
  simp only [hc]
  split
  · next hle =>
      refine ⟨⟨?_, ?_, fun d hd => h.chunk_ne d (by simp [hc, hd])⟩, rfl⟩
      · dsimp only
        omega
      · intro d rest' he
        have hd : d ∈ rest := (congrArg (d ∈ ·) he).mpr List.mem_cons_self
        exact List.length_pos_iff.mpr (h.chunk_ne d (by simp [hc, hd]))
  · next hlt =>
      refine ⟨⟨?_, ?_, fun d hd => h.chunk_ne d (hc ▸ hd)⟩, rfl⟩
      · simp only [queuedBytes_cons]
        omega
      · intro d rest' he
        cases he
        exact Nat.lt_of_not_le hlt

end Wf

end Pending

/-! ### Towards the app -/

/-- The bytes that wait for the app outside smoltcp. -/
def TcpConn.inbound (conn : TcpConn) : ℕ :=
  conn.pendingOut.len + queuedBytes conn.outToApp.queue

/-- What a pass reads from the egress it keeps, and it reads until `TCP_BUF` or the end. -/
theorem fillPending_inbound {conn : TcpConn} {chunks : List Bytes} (hc : conn.outToApp.queue = chunks)
    (h : conn.pendingOut.Wf) :
    (fillPending conn chunks).pendingOut.Wf ∧
      (fillPending conn chunks).inbound = conn.inbound ∧
      (TCP_BUF ≤ (fillPending conn chunks).pendingOut.len ∨
        (fillPending conn chunks).outToApp.queue = []) := by
  induction chunks generalizing conn with
  | nil =>
      unfold fillPending
      split
      · next hle => exact ⟨h, rfl, .inl hle⟩
      · split <;> exact ⟨h, rfl, .inr hc⟩
  | cons data rest ih =>
      unfold fillPending
      split
      · next hle => exact ⟨h, rfl, .inl hle⟩
      · obtain ⟨hw, hlen⟩ := h.push data
        obtain ⟨hw', hin, hend⟩ := @ih { conn with
          pendingOut := conn.pendingOut.push data
          outToApp := { conn.outToApp with queue := rest } } rfl hw
        refine ⟨hw', hin.trans ?_, hend⟩
        change (conn.pendingOut.push data).len + queuedBytes rest = conn.inbound
        rw [hlen, TcpConn.inbound, hc, queuedBytes_cons, Nat.add_assoc]

variable {T : Type} [TcpApi T]

theorem sample_queues (conn : TcpConn) (sock : T) :
    (conn.sample sock).pendingOut = conn.pendingOut ∧
      (conn.sample sock).outToApp = conn.outToApp := by
  unfold TcpConn.sample
  split <;> exact ⟨rfl, rfl⟩

/-- The relay and the half-close leave the queues towards the app. -/
theorem serviceConn_queues (conn : TcpConn) (sock : T) :
    (serviceConn conn sock).2.1.pendingOut = ((conn.filled sock).drain sock).2.1.pendingOut ∧
      (serviceConn conn sock).2.1.outToApp = (conn.filled sock).outToApp := by
  have hrelay : (conn.relayed sock).1.pendingOut = ((conn.filled sock).drain sock).2.1.pendingOut ∧
      (conn.relayed sock).1.outToApp = (conn.filled sock).outToApp := by
    unfold TcpConn.relayed TcpConn.relay
    split <;> exact ⟨rfl, rfl⟩
  rw [(serviceConn_relayed conn sock).1]
  unfold TcpConn.halfClose
  split <;> exact hrelay

variable [TcpBufferLaws T]

open TcpBufferLaws

/-- smoltcp takes what its send buffer has room for. -/
theorem drainPending_len {n : ℕ} {p : Pending} (hn : p.len ≤ n) (h : p.Wf) (sock : T)
    (queued : Bool) :
    (drainPending n p sock queued).1.Wf ∧
      (drainPending n p sock queued).1.len = p.len - txRoom sock := by
  induction n generalizing p sock queued with
  | zero => exact ⟨h, by simp [drainPending, Nat.le_zero.mp hn]⟩
  | succ n ih =>
      unfold drainPending
      split
      · next hc =>
          simp only [Bool.and_eq_true, Bool.not_eq_true'] at hc
          obtain ⟨hcan, hne⟩ := hc
          have hroom := (canSend_iff sock).mp hcan
          obtain ⟨c, rest, -, hfront, hhead⟩ := h.front hne
          obtain ⟨htaken, hleft⟩ := sendSlice_room sock p.front hroom
          split
          · next e => rw [e] at htaken; cases htaken
          · next e =>
              rw [e] at htaken
              simp only [Option.some.injEq] at htaken
              omega
          · next k sock' e =>
              rw [e] at htaken hleft
              simp only [Option.some.injEq] at htaken
              obtain ⟨hw, hlen⟩ := h.advance (n := k + 1) (by omega) hne
              obtain ⟨hw', hlen'⟩ := ih (by omega) hw sock' true
              refine ⟨hw', ?_⟩
              rw [hlen', hlen, hleft]
              omega
      · next hc =>
          refine ⟨h, ?_⟩
          rw [Bool.and_eq_true, not_and_or] at hc
          rcases hc with hc | hc
          · have hroom : txRoom sock = 0 := by
              by_contra hne
              exact hc ((canSend_iff sock).mpr (Nat.pos_of_ne_zero hne))
            rw [hroom, Nat.sub_zero]
          · have hzero : p.len = 0 := by simpa [Pending.isEmpty, Pending.len] using hc
            rw [hzero, Nat.zero_sub]

omit [TcpBufferLaws T] in
theorem filled_inbound {conn : TcpConn} (sock : T) (h : conn.pendingOut.Wf) :
    (conn.filled sock).pendingOut.Wf ∧ (conn.filled sock).inbound = conn.inbound ∧
      (TCP_BUF ≤ (conn.filled sock).pendingOut.len ∨ (conn.filled sock).outToApp.queue = []) := by
  obtain ⟨hpend, hout⟩ := sample_queues conn sock
  obtain ⟨hw, hin, hend⟩ := @fillPending_inbound (conn.sample sock) _ rfl (hpend ▸ h)
  refine ⟨hw, hin.trans ?_, hend⟩
  rw [TcpConn.inbound, hpend, hout, TcpConn.inbound]

theorem serviceConn_wf {conn : TcpConn} (sock : T) (h : conn.pendingOut.Wf) :
    (serviceConn conn sock).2.1.pendingOut.Wf := by
  rw [(serviceConn_queues conn sock).1]
  exact (drainPending_len le_rfl (filled_inbound sock h).1 sock false).1

/-- A pass over a flow within `TCP_BUF` hands all that waits for the app to smoltcp, as far as the send
buffer has room. -/
theorem serviceConn_inbound {conn : TcpConn} (sock : T) (h : conn.pendingOut.Wf)
    (hle : conn.inbound ≤ TCP_BUF) :
    (serviceConn conn sock).2.1.inbound = conn.inbound - txRoom sock := by
  obtain ⟨hw, hin, hend⟩ := filled_inbound sock h
  have hempty : queuedBytes (conn.filled sock).outToApp.queue = 0 := by
    rcases hend with hfull | hnil
    · rw [TcpConn.inbound] at hin
      omega
    · rw [hnil, queuedBytes_nil]
  obtain ⟨-, hlen⟩ := drainPending_len le_rfl hw sock false
  obtain ⟨hp, ho⟩ := serviceConn_queues conn sock
  rw [TcpConn.inbound, hempty, Nat.add_zero] at hin
  rw [TcpConn.inbound, hp, ho, hempty, ← hin]
  exact hlen

/-! ### Towards the egress -/

/-- The parts a relay sends: those that the channel has places for, if its far end lives. -/
def TcpConn.takes (conn : TcpConn) (sock : T) : List Bytes :=
  match conn.appToOut with
  | some tx => if tx.peer then (rx sock).take tx.room else []
  | none => []

omit [TcpBufferLaws T] in
theorem relayOut_of_not_peer {tx : Chan} (hp : tx.peer = false) (n : ℕ) (sock : T) :
    relayOut n tx sock = (tx, sock) := by
  cases n with
  | zero => rfl
  | succ n => simp [relayOut, Chan.canReserve, hp]

/-- What a pass leaves of the channel to the egress. -/
theorem relayed_appToOut (conn : TcpConn) (sock : T) :
    conn.sends sock = conn.takes sock ∧ (conn.relayed sock).1.appToOut =
      conn.appToOut.map fun tx => { tx with queue := tx.queue ++ conn.takes sock } := by
  have ha := drain_appToOut conn sock
  unfold TcpConn.relayed TcpConn.relay TcpConn.sends TcpConn.takes
  rw [ha]
  cases htx : conn.appToOut with
  | none => exact ⟨rfl, by simp [ha, htx]⟩
  | some tx =>
      cases hp : tx.peer with
      | true =>
          obtain ⟨h₁, -⟩ := relayOut_spec hp le_rfl (conn.relaySock sock)
          rw [relaySock_rx] at h₁
          simp [h₁, hp]
      | false =>
          obtain ⟨queue, peer⟩ := tx
          cases hp
          simp [relayOut_of_not_peer]

theorem sends_eq (conn : TcpConn) (sock : T) : conn.sends sock = conn.takes sock :=
  (relayed_appToOut conn sock).1

theorem serviceConn_appToOut {conn : TcpConn} {sock : T} {tx' : Chan}
    (h : (serviceConn conn sock).2.1.appToOut = some tx') :
    ∃ tx, conn.appToOut = some tx ∧ tx'.queue = tx.queue ++ conn.takes sock := by
  rw [(serviceConn_relayed conn sock).1] at h
  have hr := Intact.halfClose_some h
  rw [(relayed_appToOut conn sock).2] at hr
  obtain ⟨tx, htx, rfl⟩ := Option.map_eq_some_iff.mp hr
  exact ⟨tx, htx, rfl⟩

end Tunnel.Conn
