import Tunnel.Conn.Sockets
import Tunnel.Conn.Steps

/-!
# Conn — A pass and the socket

What one service pass does to a TCP flow's socket and sending channel, by the laws of the socket.

* `serviceConn_state`: the socket's state moves by `close` or not at all.
* `relayOut_spec`: what leaves the receive queue enters the channel, in order, and the relay stops
  only where one of them ends.
-/

namespace Tunnel.Conn
open Support TcpLaws

variable {T : Type} [TcpApi T]

/-! ### The relay in a pass -/

/-- The flow as a pass has it before it relays. -/
def TcpConn.filled (conn : TcpConn) (sock : T) : TcpConn :=
  fillPending (conn.sample sock) (conn.sample sock).outToApp.queue

/-- What a pass relays from. -/
def TcpConn.relaySock (conn : TcpConn) (sock : T) : T := ((conn.filled sock).drain sock).2.2

/-- The flow and its socket when a pass has relayed. -/
def TcpConn.relayed (conn : TcpConn) (sock : T) : TcpConn × T :=
  ((conn.filled sock).drain sock).2.1.relay (conn.relaySock sock)

/-- A pass, from its relay on. -/
theorem serviceConn_relayed (conn : TcpConn) (sock : T) :
    (serviceConn conn sock).2.1 = (conn.relayed sock).1.halfClose (conn.relayed sock).2 ∧
      ((serviceConn conn sock).2.2 = (conn.relayed sock).2 ∨
        (serviceConn conn sock).2.2 = TcpApi.close (conn.relayed sock).2) := by
  unfold serviceConn
  dsimp only
  split
  · exact ⟨rfl, .inr rfl⟩
  · exact ⟨rfl, .inl rfl⟩

variable [TcpLaws T]

/-! ### Towards the app -/

theorem drainPending_keeps (n : ℕ) (pending : Pending) (sock : T) (queued : Bool) :
    TcpApi.state (drainPending n pending sock queued).2.1 = TcpApi.state sock ∧
      rx (drainPending n pending sock queued).2.1 = rx sock := by
  induction n generalizing pending sock queued with
  | zero => exact ⟨rfl, rfl⟩
  | succ n ih =>
      have hs := sendSlice_state sock pending.front
      have hr := sendSlice_rx sock pending.front
      unfold drainPending
      split
      · split
        · next e => rw [e] at hs hr; exact ⟨hs, hr⟩
        · next e => rw [e] at hs hr; exact ⟨hs, hr⟩
        · next e =>
            rw [e] at hs hr
            obtain ⟨h₁, h₂⟩ := ih _ _ _
            exact ⟨h₁.trans hs, h₂.trans hr⟩
      · exact ⟨rfl, rfl⟩

/-! ### Towards the egress -/

theorem relayOut_state (n : ℕ) (tx : Chan) (sock : T) :
    TcpApi.state (relayOut n tx sock).2 = TcpApi.state sock := by
  induction n generalizing tx sock with
  | zero => rfl
  | succ n ih =>
      have hs := recv_state sock
      unfold relayOut
      split
      · split
        · next e =>
            rw [e] at hs
            split
            · exact hs
            · exact (ih _ _).trans hs
        · next e => rw [e] at hs; exact hs
      · rfl

/-- The relay sends the parts there is room for, in order, and leaves the others. -/
theorem relayOut_spec {n : ℕ} {tx : Chan} (hp : tx.peer = true) (hn : n ≤ tx.room) (sock : T) :
    (relayOut n tx sock).1 = { tx with queue := tx.queue ++ (rx sock).take n } ∧
      rx (relayOut n tx sock).2 = (rx sock).drop n := by
  induction n generalizing tx sock with
  | zero => exact ⟨by simp [relayOut], rfl⟩
  | succ n ih =>
      have hcap : tx.canReserve = true := by
        have hlt : tx.queue.length < CHAN_CAP :=
          Nat.lt_of_sub_pos (Nat.lt_of_lt_of_le n.succ_pos hn)
        simp [Chan.canReserve, hp, hlt]
      unfold relayOut
      cases hr : rx sock with
      | nil =>
          have hno : TcpApi.canRecv sock = false :=
            Bool.eq_false_iff.mpr fun h => (canRecv_iff sock).mp h hr
          simp [hno, hr]
      | cons part rest =>
          have hyes : TcpApi.canRecv sock = true := (canRecv_iff sock).mpr (by simp [hr])
          obtain ⟨hd, hrest⟩ := recv_rx sock part rest hr
          have hne : part.isEmpty = false := by
            simpa using rx_ne sock part (by simp [hr])
          have hroom : n ≤ (tx.send part).room := by
            unfold Chan.room at hn ⊢
            simp only [Chan.send, List.length_append, List.length_singleton]
            omega
          have hp' : (tx.send part).peer = true := hp
          obtain ⟨h₁, h₂⟩ := ih hp' hroom (TcpApi.recv sock).2
          rw [if_pos (by rw [hyes, hcap]; rfl)]
          cases hrecv : TcpApi.recv sock with
          | mk data sock' =>
              rw [hrecv] at hd hrest h₁ h₂
              cases hd
              simp only [hne, Bool.false_eq_true, if_false, List.take_succ_cons,
                List.drop_succ_cons]
              rw [h₁, h₂, hrest]
              exact ⟨by simp [Chan.send], rfl⟩

theorem relay_state (conn : TcpConn) (sock : T) :
    TcpApi.state (conn.relay sock).2 = TcpApi.state sock := by
  unfold TcpConn.relay
  split
  · exact relayOut_state _ _ _
  · rfl

/-! ### The pass -/

theorem serviceConn_state (conn : TcpConn) (sock : T) :
    TcpApi.state (serviceConn conn sock).2.2 = TcpApi.state sock ∨
      TcpApi.state (serviceConn conn sock).2.2 = (TcpApi.state sock).close := by
  have h : ∀ (c : TcpConn) (s : T),
      TcpApi.state ((c.drain s).2.1.relay (c.drain s).2.2).2 = TcpApi.state s := fun c s =>
    (relay_state _ _).trans (drainPending_keeps _ _ _ _).1
  unfold serviceConn
  dsimp only
  split
  · exact .inr ((close_state _).trans (congrArg _ (h _ _)))
  · exact .inl (h _ _)

/-- A pass that leaves its socket Established found it Established. -/
theorem serviceConn_of_established {conn : TcpConn} {sock : T}
    (h : TcpApi.state (serviceConn conn sock).2.2 = .established) :
    TcpApi.state sock = .established := by
  rcases serviceConn_state conn sock with he | he
  · exact he.symm.trans h
  · rw [he] at h
    cases hs : TcpApi.state sock <;> rw [hs] at h <;> cases h

end Tunnel.Conn
