import Tunnel.Conn.Expiry
import Tunnel.Conn.UdpIdentity

/-!
# Conn — A UDP flow whose egress is gone

An egress task that fails drops both of its channel ends and files its flow ready.  The pass that
services the flow does not look at the channels' ends: an empty channel and one that was dropped end
its loops alike.  So the flow goes when its idle time has ended, and not before.

* `DeadLeg`: a live flow whose egress is gone, filed ready.  `DeadLeg.run`: it stays so, whatever comes
  before the next dispatch.
* `dispatch_udp`: the flows a dispatch removes are those whose idle time has ended.
* `Owned`: a flow has its socket, or neither is there.
* `dead_leg_retired_iff`: the law.
-/

namespace Tunnel.Conn
open Support

variable {T U : Type}

/-! ### Until the next dispatch -/

/-- A live flow whose egress task dropped its ends of both channels, filed ready. -/
structure DeadLeg (s : Engine T U) (key : FourTuple) (conn : UdpConn) : Prop where
  live : s.mgr.udp.lookup key = some conn
  sender : conn.outToApp.peer = false
  receiver : conn.appToOut.peer = false
  ready : FlowId.udp key ∈ s.mgr.ready.queue

def ConnEvent.isDispatch : ConnEvent T U → Bool
  | .dispatch _ => true
  | _ => false

theorem Ready.mem_mark {r : Ready} {id : FlowId} (h : id ∈ r.queue) (id' : FlowId) :
    id ∈ (r.mark id').queue := by
  unfold Ready.mark
  split
  · exact h
  · exact List.mem_append_left _ h

/-- What an egress task does to another channel end leaves a dropped one dropped. -/
theorem EgressAct.apply_peer (act : EgressAct) (tx rx : Chan) :
    (tx.peer = false → (act.apply tx rx).1.peer = false) ∧
      (rx.peer = false → (act.apply tx rx).2.peer = false) := by
  cases act with
  | recv | dropRx | dropTx => simp [apply]
  | send data => simp +contextual [apply]

namespace DeadLeg

variable {s s' : Engine T U} {key : FourTuple} {conn : UdpConn}

/-- What does not touch the flow. -/
theorem congr (h : DeadLeg s key conn) (hu : s'.mgr.udp.lookup key = s.mgr.udp.lookup key)
    (hr : FlowId.udp key ∈ s'.mgr.ready.queue) : DeadLeg s' key conn :=
  ⟨hu.trans h.live, h.sender, h.receiver, hr⟩

theorem egress (h : DeadLeg s key conn) (act : EgressAct) (id : FlowId) :
    ∃ conn', DeadLeg ⟨s.mgr.egress act id, s.sockets⟩ key conn' ∧ conn'.last = conn.last ∧
      conn'.handle = conn.handle := by
  unfold ConnManager.egress
  cases id with
  | tcp key' =>
      dsimp only
      split <;> exact ⟨conn, h.congr rfl h.ready, rfl, rfl⟩
  | udp key' =>
      dsimp only
      split
      · next conn' hc =>
          by_cases hk : key = key'
          · subst hk
            rw [h.live, Option.some.injEq] at hc
            subst hc
            refine ⟨conn.egress act, ⟨Finmap.lookup_insert _, ?_, ?_, h.ready⟩, rfl, rfl⟩
            · exact (act.apply_peer _ _).2 h.sender
            · exact (act.apply_peer _ _).1 h.receiver
          · exact ⟨conn, h.congr (Finmap.lookup_insert_of_ne _ hk) h.ready, rfl, rfl⟩
      · exact ⟨conn, h, rfl, rfl⟩

variable [TcpApi T] [UdpApi U]

theorem onPacket (h : DeadLeg s key conn) (flow : Flow) (handle : ℕ) (now : Instant) :
    DeadLeg ⟨(s.mgr.onPacket s.sockets flow handle now).1,
      (s.mgr.onPacket s.sockets flow handle now).2⟩ key conn := by
  unfold ConnManager.onPacket
  dsimp only
  split
  · split
    · unfold ConnManager.openTcp
      split
      · exact h
      · exact h.congr rfl (Ready.mem_mark h.ready _)
    · exact h.congr rfl h.ready
  split
  · next hk =>
    split
    · unfold ConnManager.openUdp
      split
      · exact h
      · have hne : key ≠ ⟨flow.src, flow.dst⟩ := by
          rintro rfl
          rw [h.live] at hk
          cases hk.2
        exact h.congr (Finmap.lookup_insert_of_ne _ hne) (Ready.mem_mark h.ready _)
    · exact h.congr rfl h.ready
  · exact h

theorem step {e : ConnEvent T U} (h : DeadLeg s key conn) (hs : ConnStep s e s')
    (he : e.isDispatch = false) :
    ∃ conn', DeadLeg s' key conn' ∧ conn'.last = conn.last ∧ conn'.handle = conn.handle := by
  cases e with
  | onPacket flow handle now =>
      have hp := h.onPacket flow handle now
      rw [hs.2] at hp
      exact ⟨conn, hp, rfl, rfl⟩
  | dispatch now => cases he
  | pollTcp handle sock | pollUdp handle sock =>
      obtain ⟨-, rfl⟩ := hs
      exact ⟨conn, h.congr rfl h.ready, rfl, rfl⟩
  | mark id =>
      cases hs
      exact ⟨conn, h.congr rfl (Ready.mem_mark h.ready id), rfl, rfl⟩
  | egress id act =>
      cases hs
      exact h.egress act id

/-- Nothing but a dispatch brings a dead flow to an end, or to life. -/
theorem run {c c' : Clocked T U} {es : List (ConnEvent T U)} (h : DeadLeg c.engine key conn)
    (hr : Run ClockStep c es c') (hes : ∀ e ∈ es, e.isDispatch = false) :
    ∃ conn', DeadLeg c'.engine key conn' ∧ conn'.last = conn.last ∧ conn'.handle = conn.handle := by
  induction hr generalizing conn with
  | refl => exact ⟨conn, h, rfl, rfl⟩
  | @more c c₁ c' e es hs _ ih =>
      obtain ⟨conn₁, h₁, hl₁, hh₁⟩ := h.step hs.1 (hes e List.mem_cons_self)
      obtain ⟨conn', h', hl, hh⟩ := ih h₁ fun e' he' => hes e' (List.mem_cons_of_mem e he')
      exact ⟨conn', h', hl.trans hl₁, hh.trans hh₁⟩

end DeadLeg

/-! ### The dispatch -/

/-- A live flow has the socket of `handle`, and one that is gone left none. -/
def Owned (key : FourTuple) (handle : ℕ) (m : ConnManager) (sockets : SocketSet T U) : Prop :=
  (∃ conn, m.udp.lookup key = some conn ∧ conn.handle = handle) ∨
    (m.udp.lookup key = none ∧ sockets.lookup handle = none)

namespace Owned

variable {key : FourTuple} {handle : ℕ} {m m' : ConnManager} {sockets sockets' : SocketSet T U}

theorem congr (h : Owned key handle m sockets) (hu : m'.udp.lookup key = m.udp.lookup key)
    (hs : sockets.lookup handle = none → sockets'.lookup handle = none) :
    Owned key handle m' sockets' := by
  rcases h with ⟨conn, hc, hh⟩ | ⟨hn, hk⟩
  · exact .inl ⟨conn, hu.trans hc, hh⟩
  · exact .inr ⟨hu.trans hn, hs hk⟩

/-- A live flow moves on, and keeps its socket. -/
theorem moved (h : Owned key handle m sockets) {key' : FourTuple} {conn conn' : UdpConn}
    (hc : m.udp.lookup key' = some conn) (hu : m'.udp = m.udp.insert key' conn')
    (hh : conn'.handle = conn.handle)
    (hs : sockets.lookup handle = none → sockets'.lookup handle = none) :
    Owned key handle m' sockets' := by
  by_cases hk : key = key'
  · subst hk
    rcases h with ⟨conn₁, hc₁, rfl⟩ | ⟨hn, -⟩
    · rw [hc, Option.some.injEq] at hc₁
      exact .inl ⟨conn', by rw [hu, Finmap.lookup_insert], by rw [hh, hc₁]⟩
    · rw [hc] at hn
      cases hn
  · exact h.congr (by rw [hu, Finmap.lookup_insert_of_ne _ hk]) hs

theorem lookup_erase_none {handle' : ℕ} (h : sockets.lookup handle = none) :
    (sockets.erase handle').lookup handle = none := by
  rw [Finmap.lookup_erase_eq]
  split
  · rfl
  · exact h

/-- A socket that changes is not one that is gone. -/
theorem lookup_insert_none {handle' : ℕ} {s s' : Socket T U} (hs : sockets.lookup handle' = some s)
    (h : sockets.lookup handle = none) : (sockets.insert handle' s').lookup handle = none := by
  rw [Finmap.lookup_insert_of_ne _ ?_]
  · exact h
  · rintro rfl
    rw [h] at hs
    cases hs

variable [UdpApi U] {now : Instant}

theorem serviceUdp (hs : Sound m sockets) (h : Owned key handle m sockets) {key' : FourTuple} {q : Bool}
    (e : m.serviceUdp sockets key' now = .ok (q, m', sockets')) : Owned key handle m' sockets' := by
  rcases serviceUdp_cases hs e with ⟨-, rfl, rfl⟩ | ⟨conn, sock, hc, hk, rfl, rfl⟩
  · exact h
  · exact h.moved hc rfl (serviceDatagrams_handle conn sock now) (lookup_insert_none hk)

variable [TcpApi T]

theorem serviceTcp (hs : Sound m sockets) (h : Owned key handle m sockets) {key' : FourTuple} {q : Bool}
    (e : m.serviceTcp sockets key' = .ok (q, m', sockets')) : Owned key handle m' sockets' := by
  rcases serviceTcp_cases hs e with ⟨-, rfl, rfl⟩ | ⟨conn, sock, -, hk, ⟨-, rfl, rfl⟩ | ⟨-, rfl, rfl⟩⟩
  · exact h
  · exact h.congr rfl lookup_erase_none
  · exact h.congr rfl (lookup_insert_none hk)

theorem expireEntry (hs : Sound m sockets) (h : Owned key handle m sockets) {due : Instant}
    {id : FlowId} (e : m.expireEntry sockets now due id = .ok (m', sockets')) :
    Owned key handle m' sockets' := by
  rcases expireEntry_cases hs e with ⟨rfl, rfl, -⟩ | ⟨_, _, -, -, -, -, rfl, rfl⟩ |
      ⟨key', conn, -, hc, -, -, rfl, rfl⟩ | ⟨key', conn, -, hc, -, -, rfl, rfl⟩
  · exact h
  · exact h.congr rfl lookup_erase_none
  · exact h.moved hc rfl rfl fun hn => hn
  · have hlook : (m.closeUdp key').udp.lookup key = if key = key' then none else m.udp.lookup key :=
      Finmap.lookup_erase_eq _ _ _
    by_cases hk : key = key'
    · subst hk
      refine .inr ⟨by rw [hlook, if_pos rfl], ?_⟩
      rcases h with ⟨conn', hc', rfl⟩ | ⟨-, hk⟩
      · rw [hc, Option.some.injEq] at hc'
        rw [hc', Finmap.lookup_erase]
      · exact lookup_erase_none hk
    · exact h.congr (by rw [hlook, if_neg hk]) lookup_erase_none

theorem dispatch (hs : Sound m sockets) (h : Owned key handle m sockets) {q : Bool}
    (e : m.dispatch sockets now = .ok (q, m', sockets')) : Owned key handle m' sockets' := by
  obtain ⟨m₁, sockets₁, e₁, h₁, e₂⟩ := dispatch_split hs e
  have ho : Owned key handle m₁ sockets₁ :=
    expireLoop_invariant (P := Owned key handle) (fun m sockets _ _ rest _ _ hs h _ _ e =>
      expireEntry (m := { m with deadlines := rest }) (hs.congr rfl rfl rfl rfl) (h.congr rfl id) e)
      hs h e₁
  exact serviceAll_invariant (P := Owned key handle)
    (fun _ _ _ _ _ _ hs h e => serviceTcp hs h e) (fun _ _ _ _ _ _ hs h e => serviceUdp hs h e)
    h₁.drained (ho.congr rfl id) e₂

end Owned

section Dispatch
variable [TcpApi T] [UdpApi U] {m m' : ConnManager} {sockets sockets' : SocketSet T U}
  {clock now : Instant}

/-- A service pass neither opens a UDP flow nor closes one. -/
theorem serviceAll_udp (hs : Sound m sockets) {ids : List FlowId} {queued q : Bool}
    (e : ConnManager.serviceAll now ids queued m sockets = .ok (q, m', sockets')) (key : FourTuple) :
    m'.udp.lookup key = none ↔ m.udp.lookup key = none := by
  refine serviceAll_invariant (P := fun m₁ _ => m₁.udp.lookup key = none ↔ m.udp.lookup key = none)
    ?_ ?_ hs .rfl e
  · intro m₁ sockets₁ key' q m₂ sockets₂ h₁ hP e₁
    rcases serviceTcp_cases h₁ e₁ with ⟨-, rfl, -⟩ | ⟨_, _, -, -, ⟨-, rfl, -⟩ | ⟨-, rfl, -⟩⟩ <;> exact hP
  · intro m₁ sockets₁ key' q m₂ sockets₂ h₁ hP e₁
    rcases serviceUdp_cases h₁ e₁ with ⟨-, rfl, -⟩ | ⟨conn, sock, hc, -, rfl, -⟩
    · exact hP
    · rw [← hP]
      dsimp only
      rw [Finmap.lookup_insert_eq]
      split
      · next hk =>
          subst hk
          rw [hc]
          exact iff_of_false nofun nofun
      · rfl

/-- The flows a dispatch leaves are those whose idle time has not ended. -/
theorem dispatch_udp (hs : Sound m sockets) (ht : Filed m) (hu : UdpFiled m clock) {q : Bool}
    (e : m.dispatch sockets now = .ok (q, m', sockets')) (key : FourTuple) :
    m'.udp.lookup key = none ↔
      ∀ conn, m.udp.lookup key = some conn → UDP_IDLE ≤ durationSince now conn.last := by
  obtain ⟨m₁, sockets₁, e₁, h₁, e₂⟩ := dispatch_split hs e
  rw [serviceAll_udp h₁.drained e₂, ← Option.map_eq_none_iff (f := UdpConn.undated)]
  change (m₁.udp.lookup key).map UdpConn.undated = none ↔ _
  rw [expire_udp hs ht hu e₁, Option.map_eq_none_iff, Option.filter_eq_none_iff]
  simp

/-- A dispatch that takes a flow gives its cost back. -/
theorem charged_dispatch (hs : Sound m sockets) (ht : Filed m) (hu : UdpFiled m clock) {q : Bool}
    (e : m.dispatch sockets now = .ok (q, m', sockets')) {key : FourTuple} {conn : UdpConn}
    (hc : m.udp.lookup key = some conn) (hgone : m'.udp.lookup key = none) :
    m'.udpBudget.charged + UDP_FLOW_COST U ≤ m.udpBudget.charged := by
  obtain ⟨q', m₁, sockets₁, e₁, hs'⟩ := hs.dispatch now
  rw [e] at e₁
  cases e₁
  have hkeys : insert key m'.udp.keys ⊆ m.udp.keys := by
    intro k hk
    rw [Finmap.mem_keys, ← Finmap.lookup_isSome, Option.isSome_iff_ne_none]
    rcases Finset.mem_insert.mp hk with rfl | hk
    · rw [hc]
      exact Option.some_ne_none conn
    · rw [Finmap.mem_keys, ← Finmap.lookup_isSome, Option.isSome_iff_ne_none] at hk
      intro hn
      refine hk ((dispatch_udp hs ht hu e k).mpr fun conn' hc' => ?_)
      rw [hn] at hc'
      cases hc'
  have hnot : key ∉ m'.udp.keys := by
    rw [Finmap.mem_keys, ← Finmap.lookup_isSome, hgone]
    exact Bool.false_ne_true
  have hcard := Finset.card_le_card hkeys
  rw [Finset.card_insert_of_notMem hnot, ← Finmap.size_eq_card_keys, ← Finmap.size_eq_card_keys]
    at hcard
  rw [hs.udp.eq, hs'.udp.eq]
  exact (Nat.mul_succ _ _).symm.trans_le (Nat.mul_le_mul_left _ hcard)

end Dispatch

/-! ### The law -/

/-- The flow is gone, and its socket, and its cost is given back. -/
structure Retired [UdpApi U] (s s' : Engine T U) (key : FourTuple) (conn : UdpConn) : Prop where
  flow : s'.mgr.udp.lookup key = none
  socket : s'.sockets.lookup conn.handle = none
  budget : s'.mgr.udpBudget.charged + UDP_FLOW_COST U ≤ s.mgr.udpBudget.charged

/-- **A dead leg waits for the timer.**  In every reachable state, a live flow whose egress is gone and
which is filed ready stays so until the next dispatch, whatever comes in between.  That dispatch retires
it if and only if its idle time has ended by then. -/
theorem dead_leg_retired_iff [TcpApi T] [UdpApi U] {c c₁ c₂ : Clocked T U} {key : FourTuple}
    {conn : UdpConn} {es : List (ConnEvent T U)} {now : Instant} (h : ClockReachable c)
    (hd : DeadLeg c.engine key conn) (hr : Run ClockStep c es c₁)
    (hes : ∀ e ∈ es, e.isDispatch = false) (hs : ClockStep c₁ (.dispatch now) c₂) :
    Retired c₁.engine c₂.engine key conn ↔ UDP_IDLE ≤ durationSince now conn.last := by
  obtain ⟨conn₁, hd₁, hl, hh⟩ := hd.run hr hes
  have h₁ : ClockReachable c₁ := Reachable.run h hr
  obtain ⟨hsound, ht, hu⟩ := h₁.inv
  obtain ⟨⟨q, e⟩, -, -⟩ := hs
  have hgone := dispatch_udp hsound ht hu e key
  rw [← hl]
  constructor
  · exact fun hret => hgone.mp hret.flow conn₁ hd₁.live
  · intro hidle
    have hflow : c₂.engine.mgr.udp.lookup key = none := by
      refine hgone.mpr fun conn' hc' => ?_
      rw [hd₁.live, Option.some.injEq] at hc'
      rwa [← hc']
    refine ⟨hflow, ?_, charged_dispatch hsound ht hu e hd₁.live hflow⟩
    rcases Owned.dispatch hsound (.inl ⟨conn₁, hd₁.live, hh⟩) e with ⟨conn', hc', -⟩ | ⟨-, hk⟩
    · rw [hflow] at hc'
      cases hc'
    · exact hk

/-! ### A name server that cannot be reached -/

/-- A flow opens, and its egress cannot bind or connect. -/
def unreachableDns : List (ConnEvent SimTcp SimUdp) :=
  [.onPacket dnsQuery 0 0, .egress (.udp dnsKey) .dropTx, .mark (.udp dnsKey),
    .egress (.udp dnsKey) .dropRx]

def failedDns : Clocked SimTcp SimUdp :=
  let w := unreachableDns.foldl Watched.apply (.new SimTcp SimUdp)
  ⟨w.engine, w.clock⟩

theorem reachable_failedDns : ClockReachable failedDns :=
  ⟨_, unreachableDns, rfl, Run.clocked (Run.watched .new (by decide +kernel))⟩

theorem deadLeg_failedDns :
    DeadLeg failedDns.engine dnsKey ⟨0, ⟨[], false⟩, ⟨[], false⟩, none, 0, UDP_IDLE⟩ :=
  ⟨by decide +kernel, rfl, rfl, by decide +kernel⟩

theorem dispatch_failedDns (now : Instant) : ClockStep failedDns (.dispatch now)
    ⟨failedDns.engine.apply (.dispatch now), now⟩ := by
  refine ⟨ConnStep.of_enabled reachable_failedDns.inv.sound rfl, fun _ _ => Nat.zero_le _, rfl⟩

/-- After thirty seconds the timer takes the flow. -/
theorem dead_leg_retired_failedDns :
    Retired failedDns.engine (failedDns.engine.apply (.dispatch (secs 30))) dnsKey
      ⟨0, ⟨[], false⟩, ⟨[], false⟩, none, 0, UDP_IDLE⟩ :=
  (dead_leg_retired_iff reachable_failedDns deadLeg_failedDns (.refl _) nofun
    (dispatch_failedDns (secs 30))).mpr (by decide)

/-- The dispatch that the failure asked for leaves the flow. -/
theorem dead_leg_kept : ¬ ∀ (c c₁ c₂ : Clocked SimTcp SimUdp) (key : FourTuple) (conn : UdpConn)
    (es : List (ConnEvent SimTcp SimUdp)) (now : Instant), ClockReachable c →
      DeadLeg c.engine key conn → Run ClockStep c es c₁ → (∀ e ∈ es, e.isDispatch = false) →
        ClockStep c₁ (.dispatch now) c₂ → Retired c₁.engine c₂.engine key conn := by
  intro h
  have hgone := (h _ _ _ _ _ [] 1 reachable_failedDns deadLeg_failedDns (.refl _) nofun
    (dispatch_failedDns 1)).flow
  have hlive : (failedDns.engine.apply (.dispatch 1)).mgr.udp.lookup dnsKey ≠ none := by
    decide +kernel
  exact hlive hgone

end Tunnel.Conn
