import Tunnel.Engine.Proxy

/-!
# Engine — The proxy loop, over its runs

What holds of the proxy loop after any steps: of the connection manager that it drives, of the
packets that it carries, and of the time that it sleeps.

* `Proxy.Inv`: what every step keeps.
* `proxy_relays`: every packet is shown to the monitor once and handed on once, in order.
* `proxy_refines`: the loop drives the connection manager by its own steps, at nondecreasing times,
  and does not panic.
* `reaped_in_time`: what the loop sleeps for lets no flow outlive its deadline.
* `shutdown_observed`: it leaves soon after the dashboard closes.
-/

namespace Tunnel.Engine
open Support
open Conn (ClockReachable Clocked ConnManager EgressAct FlowId SocketSet TcpApi UDP_IDLE UdpApi)
open Inspect (Direction)
open Wg (shown)

section
variable {T U : Type} [TcpApi T] [UdpApi U] {s s' : Proxy T U}

/-! ### The heap -/

/-- What a packet adds to the heap comes due at the end of a handshake, or later. -/
theorem deadlines_shownTo {engine : Conn.Engine T U} {r : Read} {f : Conn.Deadline}
    (hf : f ∈ (shownTo engine r).mgr.deadlines) :
    f ∈ engine.mgr.deadlines ∨ r.now + Conn.TCP_HANDSHAKE_TIMEOUT ≤ f.1 := by
  unfold shownTo at hf
  split at hf
  · next flow _ =>
      change f ∈ (engine.mgr.onPacket engine.sockets flow r.handle r.now).1.deadlines at hf
      unfold ConnManager.onPacket at hf
      dsimp only at hf
      split at hf
      · split at hf
        · unfold ConnManager.openTcp at hf
          split at hf
          · exact .inl hf
          · rcases Conn.mem_pushDeadline.mp hf with rfl | hf
            · exact .inr (le_refl _)
            · exact .inl hf
        · exact .inl hf
      split at hf
      · split at hf
        · unfold ConnManager.openUdp at hf
          split at hf
          · exact .inl hf
          · rcases Conn.mem_pushDeadline.mp hf with rfl | hf
            · exact .inr (Nat.add_le_add_left (by decide) r.now)
            · exact .inl hf
        · exact .inl hf
      · exact .inl hf
  · exact .inl hf

theorem egress_deadlines (mgr : ConnManager) (act : EgressAct) (id : FlowId) :
    (mgr.egress act id).deadlines = mgr.deadlines := by
  unfold ConnManager.egress
  split <;> split <;> rfl

theorem sleepFor_le_deadline (protocol : Option ℕ) (deadline : ℕ) :
    sleepFor protocol (some deadline) ≤ deadline := by
  unfold sleepFor
  cases protocol with
  | none => exact Nat.min_le_left _ _
  | some a => exact (Nat.min_le_left _ _).trans (Nat.min_le_right _ _)

/-- The loop sleeps past no entry. -/
theorem sleepFor_le {mgr : ConnManager} (ho : Conn.Ordered mgr.deadlines) {f : Conn.Deadline}
    (hf : f ∈ mgr.deadlines) (protocol : Option ℕ) (now : Instant) :
    sleepFor protocol (mgr.nextDeadline.map fun due => due - now) ≤ f.1 - now := by
  unfold ConnManager.nextDeadline
  cases hd : mgr.deadlines with
  | nil =>
      rw [hd] at hf
      cases hf
  | cons first rest =>
      rw [hd] at hf ho
      have hle : first.1 ≤ f.1 := by
        rcases List.mem_cons.mp hf with rfl | hf
        · exact le_refl _
        · exact (List.pairwise_cons.mp ho).1 f hf
      exact (sleepFor_le_deadline protocol _).trans (Nat.sub_le_sub_right hle now)

/-- No entry that a dispatch leaves has come due. -/
theorem dispatch_past {m m' : ConnManager} {sockets sockets' : SocketSet T U} {now : Instant}
    {q : Bool} (hs : Conn.Sound m sockets) (hf : Conn.Filed m)
    (e : m.dispatch sockets now = .ok (q, m', sockets')) : ∀ f ∈ m'.deadlines, now < f.1 := by
  obtain ⟨m₁, sockets₁, e₁, h₁, e₂⟩ := Conn.dispatch_split hs e
  have hpast := Conn.expire_past hs hf e₁
  refine Conn.serviceAll_invariant (P := fun m _ => ∀ f ∈ m.deadlines, now < f.1) ?_ ?_
    h₁.drained hpast e₂
  · intro m sockets key q m' sockets' h hP e
    rcases Conn.serviceTcp_cases h e with ⟨-, rfl, -⟩ | ⟨_, _, -, -, ⟨-, rfl, -⟩ | ⟨-, rfl, -⟩⟩ <;>
      exact hP
  · intro m sockets key q m' sockets' h hP e
    rcases Conn.serviceUdp_cases h e with ⟨-, rfl, -⟩ | ⟨_, _, -, -, rfl, -⟩ <;> exact hP

omit [TcpApi T] in
/-- The entry of a UDP flow. -/
theorem mem_deadlines {m : ConnManager} {clock : Instant} (h : Conn.UdpFiled m clock)
    {key : Conn.FourTuple} {conn : Conn.UdpConn} (hc : m.udp.lookup key = some conn) :
    (conn.deadline, FlowId.udp key) ∈ m.deadlines := by
  have he := h.entry key
  rw [hc, Option.map_some, Option.toList_some] at he
  exact List.mem_of_mem_filter (he ▸ List.mem_singleton_self (conn.entry key))

/-- A dispatch past its deadline takes a flow whose handshake is not done. -/
theorem dispatch_reaps {m m' : ConnManager} {sockets sockets' : SocketSet T U} {now : Instant}
    {q : Bool} (hs : Conn.Sound m sockets) (hf : Conn.Filed m)
    (e : m.dispatch sockets now = .ok (q, m', sockets')) {key : Conn.FourTuple}
    {conn : Conn.TcpConn} (hc : m.tcp.lookup key = some conn) (he : conn.established = false)
    (hd : conn.deadline ≤ now) : m'.tcp.lookup key = none := by
  obtain ⟨m₁, sockets₁, e₁, h₁, e₂⟩ := Conn.dispatch_split hs e
  have hgone := (Conn.expire_tcp hs hf e₁ hc).mpr ⟨he, hd⟩
  refine Conn.serviceAll_invariant (P := fun m _ => m.tcp.lookup key = none) ?_ ?_
    h₁.drained hgone e₂
  · intro m sockets key' q m' sockets' h hP e
    rcases Conn.serviceTcp_cases h e with
      ⟨-, rfl, -⟩ | ⟨conn', _, hc', -, ⟨-, rfl, -⟩ | ⟨-, rfl, -⟩⟩
    · exact hP
    · rw [ConnManager.lookup_closeTcp]
      split
      · rfl
      · exact hP
    · have hne : key ≠ key' := fun hk => by
        rw [← hk, hP] at hc'
        cases hc'
      exact (Finmap.lookup_insert_of_ne _ hne).trans hP
  · intro m sockets key' q m' sockets' h hP e
    rcases Conn.serviceUdp_cases h e with ⟨-, rfl, -⟩ | ⟨_, _, -, -, rfl, -⟩ <;> exact hP

/-- A dispatch past its idle time takes a UDP flow. -/
theorem dispatch_retires {m m' : ConnManager} {sockets sockets' : SocketSet T U}
    {clock now : Instant} {q : Bool} (hs : Conn.Sound m sockets) (hf : Conn.Filed m)
    (hu : Conn.UdpFiled m clock) (e : m.dispatch sockets now = .ok (q, m', sockets'))
    {key : Conn.FourTuple} {conn : Conn.UdpConn} (hc : m.udp.lookup key = some conn)
    (hd : conn.last + UDP_IDLE ≤ now) : m'.udp.lookup key = none := by
  obtain ⟨m₁, sockets₁, e₁, h₁, e₂⟩ := Conn.dispatch_split hs e
  have hidle : UDP_IDLE ≤ durationSince now conn.last := Nat.le_sub_of_add_le' hd
  have hgone : m₁.udp.lookup key = none := by
    have hk := Conn.expire_udp hs hf hu e₁ key
    rw [hc, Option.filter_some, if_neg (by simpa using hidle)] at hk
    exact Option.map_eq_none_iff.mp hk
  refine Conn.serviceAll_invariant (P := fun m _ => m.udp.lookup key = none) ?_ ?_
    h₁.drained hgone e₂
  · intro m sockets key' q m' sockets' h hP e
    rcases Conn.serviceTcp_cases h e with ⟨-, rfl, -⟩ | ⟨_, _, -, -, ⟨-, rfl, -⟩ | ⟨-, rfl, -⟩⟩ <;>
      exact hP
  · intro m sockets key' q m' sockets' h hP e
    rcases Conn.serviceUdp_cases h e with ⟨-, rfl, -⟩ | ⟨conn', _, hc', -, rfl, -⟩
    · exact hP
    · have hne : key ≠ key' := fun hk => by
        rw [← hk, hP] at hc'
        cases hc'
      exact (Finmap.lookup_insert_of_ne _ hne).trans hP

/-! ### What the loop keeps -/

namespace Proxy

/-- Where the packets are. -/
structure Kept (s : Proxy T U) : Prop where
  up : shown .up s.recorded = s.consumed ++ s.device.inbound
  down : s.emitted = shown .down s.recorded ++ s.device.outbound
  delivered : shown .down s.recorded = s.delivered ∨
    s.phase = .stopped ∧ ∃ pkt, shown .down s.recorded = s.delivered ++ [pkt]
  flushed : s.phase.Quiet → s.device.outbound = []

/-- What the timers are for. -/
structure Timed (s : Proxy T U) : Prop where
  delay : s.delay ≤ MAX_IDLE
  dispatched : s.dispatched ≤ s.clock
  deadlines : ∀ f ∈ s.engine.mgr.deadlines, s.dispatched + s.delay ≤ f.1

structure Inv (s : Proxy T U) : Prop where
  driven : Driven s.engine s.clock
  kept : s.Kept
  timed : s.Timed

theorem driven_step {e : ProxyEvent T U} (h : Driven s.engine s.clock) (he : e.Enabled s)
    (hs : ProxyMoves s e s') : Driven s'.engine s'.clock := by
  cases hs with
  | park hp => exact h.later he
  | leave ha hp => exact h
  | takeIn ha hp hd =>
      rcases ha with rfl | rfl
      · exact h.shownTo he.1 he.2
      · exact h.shownTo he.1 he.2
  | wake ha hp => exact h
  | check hp => exact h
  | poll hp => exact h.poll he.2
  | flush hp =>
      unfold Proxy.flush
      split
      · exact h
      · dsimp only
        split <;> exact h
  | dispatch hp hd => exact h.call (e := .dispatch _) rfl he ⟨_, hd⟩
  | shutdown => exact h
  | egress => exact h.others (e := .egress _ _) rfl rfl
  | mark => exact h.others (e := .mark _) rfl rfl

omit [TcpApi T] [UdpApi U] in
/-- The packets stay where they are. -/
theorem Kept.stay (h : s.Kept) (hq : s.phase.Quiet) (hdevice : s'.device = s.device)
    (hrecorded : s'.recorded = s.recorded) (hconsumed : s'.consumed = s.consumed)
    (hemitted : s'.emitted = s.emitted) (hdelivered : s'.delivered = s.delivered) : s'.Kept where
  up := by rw [hrecorded, hconsumed, hdevice]; exact h.up
  down := by rw [hrecorded, hemitted, hdevice]; exact h.down
  delivered := by
    rw [hrecorded, hdelivered]
    exact .inl (h.delivered.resolve_right fun hst => hq.2 hst.1)
  flushed _ := by rw [hdevice]; exact h.flushed hq

/-- A packet comes in. -/
theorem Kept.inject (h : s.Kept) (hq : s.phase.Quiet) (r : Read) (drained : ℕ) : Kept { s with
      recorded := s.recorded ++ [(Direction.up, r.pkt)]
      clock := r.now
      engine := shownTo s.engine r
      device := s.device.inject r.pkt
      phase := .draining drained } where
  up := by
    change shown .up (s.recorded ++ [(.up, r.pkt)]) = s.consumed ++ (s.device.inbound ++ [r.pkt])
    rw [Wg.shown_append, if_pos rfl, h.up, List.append_assoc]
  down := by
    change s.emitted = shown .down (s.recorded ++ [(.up, r.pkt)]) ++ s.device.outbound
    rw [Wg.shown_append, if_neg nofun, List.append_nil]
    exact h.down
  delivered := by
    refine .inl ?_
    change shown .down (s.recorded ++ [(.up, r.pkt)]) = s.delivered
    rw [Wg.shown_append, if_neg nofun, List.append_nil]
    exact h.delivered.resolve_right fun hst => hq.2 hst.1
  flushed _ := h.flushed hq

omit [TcpApi T] [UdpApi U] in
theorem Kept.polled (h : s.Kept) (hq : s.phase.Quiet) (p : Polled T U) (again : Bool) :
    (s.polled p again).Kept where
  up := by
    change shown .up s.recorded =
      (s.consumed ++ s.device.inbound.take p.consumed) ++ s.device.inbound.drop p.consumed
    rw [List.append_assoc, List.take_append_drop]
    exact h.up
  down := by
    change s.emitted ++ p.emitted = shown .down s.recorded ++ (s.device.outbound ++ p.emitted)
    rw [h.down, List.append_assoc]
  delivered := .inl (h.delivered.resolve_right fun hst => hq.2 hst.1)
  flushed hn := absurd rfl (hn.1 again)

omit [TcpApi T] [UdpApi U] in
theorem Kept.flush (h : s.Kept) {again : Bool} (hp : s.phase = .flushing again) (taken : Bool) :
    (s.flush again taken).Kept := by
  have hdel : shown .down s.recorded = s.delivered :=
    h.delivered.resolve_right fun hst => by rw [hp] at hst; cases hst.1
  cases hout : s.device.outbound with
  | nil =>
      have he : s.flush again taken =
          { s with phase := if again then .parking else .dispatching } := by
        rw [Proxy.flush, TunDevice.popOutbound, hout]
      rw [he]
      exact ⟨h.up, h.down, .inl hdel, fun _ => hout⟩
  | cons pkt rest =>
      have he : s.flush again taken =
          let s := { s with
            device := { s.device with outbound := rest }
            recorded := s.recorded ++ [(Direction.down, pkt)] }
          if taken then { s with delivered := s.delivered ++ [pkt] }
          else { s with phase := .stopped } := by
        rw [Proxy.flush, TunDevice.popOutbound, hout]
      have hup : shown .up (s.recorded ++ [(.down, pkt)]) = s.consumed ++ s.device.inbound := by
        rw [Wg.shown_append, if_neg nofun, List.append_nil]
        exact h.up
      have hshown : shown .down (s.recorded ++ [(.down, pkt)]) = s.delivered ++ [pkt] := by
        rw [Wg.shown_append, if_pos rfl, hdel]
      have hdown : s.emitted = shown .down (s.recorded ++ [(.down, pkt)]) ++ rest := by
        rw [hshown, List.append_assoc, h.down, hdel, hout]
        rfl
      rw [he]
      cases taken with
      | true =>
          exact ⟨hup, hdown, .inl hshown, fun hn => absurd hp (hn.1 again)⟩
      | false => exact ⟨hup, hdown, .inr ⟨rfl, pkt, hshown⟩, fun hn => absurd rfl hn.2⟩

omit [TcpApi T] [UdpApi U] in
theorem quiet_of_burst (hp : s.phase = .selecting ∨ ∃ n, s.phase = .draining n) :
    s.phase.Quiet := by
  rcases hp with hp | ⟨n, hp⟩
  · rw [hp]
    exact ⟨nofun, nofun⟩
  · rw [hp]
    exact ⟨nofun, nofun⟩

theorem Kept.step {e : ProxyEvent T U} (h : s.Kept) (hs : ProxyMoves s e s') : s'.Kept := by
  cases hs with
  | park hp => exact h.stay (by rw [hp]; exact ⟨nofun, nofun⟩) rfl rfl rfl rfl rfl
  | leave he hp => exact h.stay (by rw [hp]; exact ⟨nofun, nofun⟩) rfl rfl rfl rfl rfl
  | takeIn he hp hd => exact h.inject (quiet_of_burst hp) _ _
  | wake he hp => exact h.stay (quiet_of_burst hp) rfl rfl rfl rfl rfl
  | check hp => exact h.stay (by rw [hp]; exact ⟨nofun, nofun⟩) rfl rfl rfl rfl rfl
  | poll hp => exact h.polled (by rw [hp]; exact ⟨nofun, nofun⟩) _ _
  | flush hp => exact h.flush hp _
  | dispatch hp hd => exact h.stay (by rw [hp]; exact ⟨nofun, nofun⟩) rfl rfl rfl rfl rfl
  | shutdown => exact ⟨h.up, h.down, h.delivered, h.flushed⟩
  | egress => exact ⟨h.up, h.down, h.delivered, h.flushed⟩
  | mark => exact ⟨h.up, h.down, h.delivered, h.flushed⟩

/-! ### The timers -/

theorem Timed.inject (h : s.Timed) {r : Read} (ht : s.clock ≤ r.now) {device : TunDevice}
    {phase : Phase} {recorded : List (Direction × Bytes)} : Timed { s with
      recorded
      clock := r.now
      engine := shownTo s.engine r
      device
      phase } where
  delay := h.delay
  dispatched := h.dispatched.trans ht
  deadlines f hf := by
    rcases deadlines_shownTo hf with hf | hf
    · exact h.deadlines f hf
    · have hidle : MAX_IDLE ≤ Conn.TCP_HANDSHAKE_TIMEOUT := by decide
      exact (Nat.add_le_add (h.dispatched.trans ht) (h.delay.trans hidle)).trans hf

omit [TcpApi T] [UdpApi U] in
theorem Timed.park (h : s.Timed) (hordered : Conn.Ordered s.engine.mgr.deadlines) {now : Instant}
    (ht : s.clock ≤ now) (protocol : Option ℕ) {phase : Phase} : Timed { s with
      clock := now
      delay := sleepFor protocol (s.engine.mgr.nextDeadline.map fun due => due - now)
      phase } where
  delay := Nat.min_le_right _ _
  dispatched := h.dispatched.trans ht
  deadlines f hf := by
    have hle := sleepFor_le hordered hf protocol now
    rcases Nat.le_total now f.1 with hnow | hnow
    · exact (Nat.add_le_add (h.dispatched.trans ht) hle).trans (Nat.add_sub_of_le hnow).le
    · rw [Nat.sub_eq_zero_of_le hnow] at hle
      exact (Nat.add_le_add_left (hle.trans (Nat.zero_le s.delay)) s.dispatched).trans
        (h.deadlines f hf)

theorem Timed.step {e : ProxyEvent T U} (h : s.Timed) (hd : Driven s.engine s.clock)
    (he : e.Enabled s) (hs : ProxyMoves s e s') : s'.Timed := by
  cases hs with
  | park hp => exact h.park hd.filed.ordered he _
  | leave ha hp => exact ⟨h.delay, h.dispatched, h.deadlines⟩
  | takeIn ha hp hb =>
      rcases ha with rfl | rfl
      · exact h.inject he.1
      · exact h.inject he.1
  | wake ha hp => exact ⟨h.delay, h.dispatched, h.deadlines⟩
  | check hp => exact ⟨h.delay, h.dispatched, h.deadlines⟩
  | poll hp => exact ⟨h.delay, h.dispatched, h.deadlines⟩
  | flush hp =>
      unfold Proxy.flush
      split
      · exact ⟨h.delay, h.dispatched, h.deadlines⟩
      · dsimp only
        split <;> exact ⟨h.delay, h.dispatched, h.deadlines⟩
  | dispatch hp hq =>
      exact ⟨Nat.zero_le _, le_refl _, fun f hf => (dispatch_past hd.sound hd.filed hq f hf).le⟩
  | shutdown => exact ⟨h.delay, h.dispatched, h.deadlines⟩
  | @egress id act =>
      refine ⟨h.delay, h.dispatched, fun f hf => h.deadlines f ?_⟩
      change f ∈ (s.engine.mgr.egress act id).deadlines at hf
      rwa [egress_deadlines] at hf
  | mark => exact ⟨h.delay, h.dispatched, h.deadlines⟩

namespace Inv

theorem start (now : Instant) : (start T U now).Inv where
  driven := ⟨⟨.new T U, 0⟩, Reachable.of_start rfl, rfl, Nat.zero_le _⟩
  kept := ⟨rfl, rfl, .inl rfl, fun _ => rfl⟩
  timed := ⟨Nat.zero_le _, le_refl _, nofun⟩

theorem step {e : ProxyEvent T U} (h : s.Inv) (hs : ProxyStep s e s') : s'.Inv :=
  have hm := ProxyMoves.of_step hs.2
  ⟨driven_step h.driven hs.1 hm, h.kept.step hm, h.timed.step h.driven hs.1 hm⟩

theorem of_reachable (h : ProxyReachable s) : s.Inv := by
  refine Reachable.invariant (fun s hs => ?_) (fun _ _ _ hi hs => hi.step hs) h
  obtain ⟨now, rfl⟩ := hs
  exact .start now

end Inv

end Proxy

/-! ### A loop that keeps up -/

/-- From one dispatch to the next, the loop takes at most `slack` more than it chose to sleep for. -/
def ProxyEvent.Prompt (slack : ℕ) (s : Proxy T U) : ProxyEvent T U → Prop
  | .dispatch now => now ≤ s.dispatched + s.delay + slack
  | _ => True

/-- A step of a loop that keeps up. -/
def PromptStep (slack : ℕ) (s : Proxy T U) (e : ProxyEvent T U) (s' : Proxy T U) : Prop :=
  ProxyStep s e s' ∧ e.Prompt slack s

theorem PromptStep.run {slack : ℕ} {es : List (ProxyEvent T U)}
    (h : Run (PromptStep slack) s es s') : Run ProxyStep s es s' :=
  h.mono_of_invariant (I := fun _ => True) (fun _ _ _ _ hs => ⟨hs.1, trivial⟩) trivial

instance (s : Proxy T U) : (e : ProxyEvent T U) → Decidable (e.Enabled s)
  | .park now _ | .dispatch now => inferInstanceAs (Decidable (s.clock ≤ now))
  | .recv (some r) | .tryRecv (some r) =>
    inferInstanceAs (Decidable (s.clock ≤ r.now ∧ s.engine.sockets.lookup r.handle = none))
  | .poll p => inferInstanceAs (Decidable (p.consumed ≤ s.device.inbound.length ∧
      ∀ x ∈ p.moved, (s.engine.sockets.lookup x.1).any (sameKind · x.2) = true))
  | .recv none | .tryRecv none | .interrupt | .ready | .timer | .check | .flush _ | .shutdown
  | .egress _ _ | .mark _ => inferInstanceAs (Decidable True)

instance (slack : ℕ) (s : Proxy T U) : (e : ProxyEvent T U) → Decidable (e.Prompt slack s)
  | .dispatch now => inferInstanceAs (Decidable (now ≤ s.dispatched + s.delay + slack))
  | .park _ _ | .recv _ | .tryRecv _ | .poll _ | .interrupt | .ready | .timer | .check | .flush _
  | .shutdown | .egress _ _ | .mark _ => inferInstanceAs (Decidable True)

/-- The state after these steps of a loop that keeps up, as long as they can be taken. -/
def Proxy.after (slack : ℕ) (s : Proxy T U) : List (ProxyEvent T U) → Option (Proxy T U)
  | [] => some s
  | e :: es =>
    if e.Enabled s ∧ e.Prompt slack s then
      match s.step e with
      | some (.ok s') => s'.after slack es
      | _ => none
    else none

theorem Proxy.run_after {slack : ℕ} {es : List (ProxyEvent T U)}
    (h : s.after slack es = some s') : Run (PromptStep slack) s es s' := by
  induction es generalizing s with
  | nil =>
      cases h
      exact .refl _
  | cons e es ih =>
      rw [Proxy.after] at h
      split at h
      · next hen =>
          split at h
          · next hs => exact .more ⟨⟨hen.1, hs⟩, hen.2⟩ (ih h)
          · cases h
      · cases h

/-! ### A lookup -/

/-- A query is read from the TUN, smoltcp emits a packet, and the dispatch is still to come. -/
def lookedUp : List (ProxyEvent Conn.SimTcp Conn.SimUdp) :=
  [.park 0 none, .recv (some ⟨Wg.udpPacket ⟨10, 0, 0, 2⟩ 40001 ⟨1, 1, 1, 1⟩ 53, 0, 0⟩),
    .tryRecv none, .check, .poll ⟨1, [[69]], []⟩, .flush true, .flush true]

def lookedUpKey : Conn.FourTuple := ⟨⟨⟨10, 0, 0, 2⟩, 40001⟩, ⟨⟨1, 1, 1, 1⟩, 53⟩⟩

theorem lookedUp_run : ∃ s s',
    Run (PromptStep (secs 30)) (.start Conn.SimTcp Conn.SimUdp 0) lookedUp s ∧
    PromptStep (secs 30) s (.dispatch (secs 30)) s' ∧
    ∃ conn, s.engine.mgr.udp.lookup lookedUpKey = some conn ∧ conn.last = 0 := by
  have hs : ((Proxy.start Conn.SimTcp Conn.SimUdp 0).after (secs 30) lookedUp).any (fun s =>
      (s.after (secs 30) [.dispatch (secs 30)]).isSome ∧
        (s.engine.mgr.udp.lookup lookedUpKey).any (fun conn => conn.last = 0)) = true := by
    decide +kernel
  obtain ⟨s, h, hs⟩ := (Option.any_eq_true _ _).mp hs
  obtain ⟨hd, hl⟩ := of_decide_eq_true hs
  obtain ⟨s', hs'⟩ := Option.isSome_iff_exists.mp hd
  obtain ⟨conn, hc, hlast⟩ := (Option.any_eq_true _ _).mp hl
  cases Proxy.run_after hs' with
  | more hd t =>
      cases t
      exact ⟨s, s', Proxy.run_after h, hd, conn, hc, of_decide_eq_true hlast⟩

/-! ### Packets -/

/-- The packet a step reads from the TUN, and those a step has smoltcp emit. -/
def ProxyEvent.read : ProxyEvent T U → List Bytes
  | .recv (some r) | .tryRecv (some r) => [r.pkt]
  | _ => []

def ProxyEvent.emits : ProxyEvent T U → List Bytes
  | .poll p => p.emitted
  | _ => []

theorem ProxyMoves.carries {e : ProxyEvent T U} (h : ProxyMoves s e s') :
    shown .up s'.recorded = shown .up s.recorded ++ e.read ∧ s'.emitted = s.emitted ++ e.emits := by
  have hnone : ∀ xs : List Bytes, xs = xs ++ [] := fun xs => (List.append_nil xs).symm
  cases h with
  | park hp => exact ⟨hnone _, hnone _⟩
  | leave he hp => rcases he with rfl | rfl <;> exact ⟨hnone _, hnone _⟩
  | takeIn he hp hd =>
      rcases he with rfl | rfl
      · exact ⟨Wg.shown_append .up .up s.recorded _, hnone _⟩
      · exact ⟨Wg.shown_append .up .up s.recorded _, hnone _⟩
  | wake he hp => rcases he with rfl | rfl | rfl <;> exact ⟨hnone _, hnone _⟩
  | check hp => exact ⟨hnone _, hnone _⟩
  | poll hp => exact ⟨hnone _, rfl⟩
  | flush hp =>
      unfold Proxy.flush
      split
      · exact ⟨hnone _, hnone _⟩
      · have hup := Wg.shown_append .up .down s.recorded
        dsimp only
        split <;> exact ⟨hup _, hnone _⟩
  | dispatch hp hd => exact ⟨hnone _, hnone _⟩
  | shutdown => exact ⟨hnone _, hnone _⟩
  | egress => exact ⟨hnone _, hnone _⟩
  | mark => exact ⟨hnone _, hnone _⟩

theorem run_carries {es : List (ProxyEvent T U)} (h : Run ProxyStep s es s') :
    shown .up s'.recorded = shown .up s.recorded ++ es.flatMap ProxyEvent.read ∧
      s'.emitted = s.emitted ++ es.flatMap ProxyEvent.emits := by
  induction h with
  | refl => exact ⟨(List.append_nil _).symm, (List.append_nil _).symm⟩
  | more h _ ih =>
      obtain ⟨hr, he⟩ := (ProxyMoves.of_step h.2).carries
      rw [ih.1, ih.2, hr, he, List.append_assoc, List.append_assoc]
      exact ⟨rfl, rfl⟩

/-- In every order of packets, wakes and polls: the packets the TUN was read for are shown to the
monitor and injected, those that smoltcp emits are shown to it and handed to the TUN writer, all of
them once and in order.  The loop never sleeps or dispatches on one that is not handed on, and one
is lost only where the writer is gone and the loop ends. -/
theorem proxy_relays {now : Instant} {es : List (ProxyEvent T U)}
    (h : Run ProxyStep (.start T U now) es s) :
    shown .up s.recorded = es.flatMap ProxyEvent.read ∧
    s.consumed ++ s.device.inbound = es.flatMap ProxyEvent.read ∧
    shown .down s.recorded ++ s.device.outbound = es.flatMap ProxyEvent.emits ∧
    (shown .down s.recorded = s.delivered ∨
      s.phase = .stopped ∧ ∃ pkt, shown .down s.recorded = s.delivered ++ [pkt]) ∧
    (s.phase.Quiet → s.device.outbound = []) := by
  have hk := (Proxy.Inv.of_reachable (Reachable.run (Reachable.of_start ⟨now, rfl⟩) h)).kept
  obtain ⟨hread, hemit⟩ := run_carries h
  exact ⟨hread, hk.up.symm.trans hread, hk.down.symm.trans hemit, hk.delivered, hk.flushed⟩

theorem proxy_relays_lookedUp : ∃ s : Proxy Conn.SimTcp Conn.SimUdp,
    Run ProxyStep (.start Conn.SimTcp Conn.SimUdp 0) lookedUp s ∧
    (shown .up s.recorded).length = 1 ∧ shown .down s.recorded ++ s.device.outbound = [[69]] := by
  obtain ⟨s, s', h, -, -⟩ := lookedUp_run
  obtain ⟨hup, -, hdown, -⟩ := proxy_relays (PromptStep.run h)
  exact ⟨s, PromptStep.run h, by rw [hup]; rfl, hdown⟩

/-! ### Refinement -/

theorem Proxy.Inv.step_ok (h : s.Inv) (e : ProxyEvent T U) :
    s.step e = none ∨ ∃ s', s.step e = some (.ok s') := by
  have hread : ∀ r drained, ∃ s', some (s.takeIn r drained) = some (.ok s') :=
    fun r drained => ⟨_, congrArg some (s.takeIn_eq r drained)⟩
  have hdispatch : ∀ now, ∃ s', some (s.dispatch now) = some (.ok s') := fun now => by
    obtain ⟨queued, mgr, sockets, hd, -⟩ := h.driven.sound.dispatch now
    exact ⟨_, by rw [Proxy.dispatch, hd]; rfl⟩
  unfold Proxy.step
  split
  case h_4 | h_11 =>
    split
    · first | exact .inr (hread _ _) | exact .inr (hdispatch _)
    · exact .inl rfl
  case h_7 =>
    split
    · split
      · exact .inr (hread _ _)
      · exact .inl rfl
    · exact .inr ⟨_, rfl⟩
    · exact .inl rfl
  case h_12 | h_13 | h_14 => exact .inr ⟨_, rfl⟩
  all_goals
    split
    · exact .inr ⟨_, rfl⟩
    · exact .inl rfl

/-- Whatever the TUN is read for, whatever smoltcp does and however the egress tasks come between,
the loop has brought the connection manager where its own steps lead, at times that do not go back;
and wherever it is, no step of it panics. -/
theorem proxy_refines (h : ProxyReachable s) :
    (∃ c : Clocked T U, ClockReachable c ∧ c.engine = s.engine ∧ c.clock ≤ s.clock) ∧
      ∀ e, s.step e = none ∨ ∃ s', s.step e = some (.ok s') :=
  have hi := Proxy.Inv.of_reachable h
  ⟨hi.driven, hi.step_ok⟩

theorem proxy_refines_lookedUp : ∃ s : Proxy Conn.SimTcp Conn.SimUdp, ProxyReachable s ∧
    s.engine.mgr.udp.lookup lookedUpKey ≠ none ∧
    ∃ c : Clocked Conn.SimTcp Conn.SimUdp, ClockReachable c ∧ c.engine = s.engine := by
  obtain ⟨s, s', h, -, conn, hl, -⟩ := lookedUp_run
  have hr : ProxyReachable s := ⟨_, _, ⟨0, rfl⟩, PromptStep.run h⟩
  obtain ⟨c, hc, he, -⟩ := (proxy_refines hr).1
  exact ⟨s, hr, by rw [hl]; nofun, c, hc, he⟩

/-! ### Time -/

theorem inv_of_prompt {slack : ℕ} (h : Reachable Proxy.Starts (PromptStep slack) s) : s.Inv := by
  refine Reachable.invariant (fun s hs => ?_) (fun _ _ _ hi hs => hi.step hs.1) h
  obtain ⟨now, rfl⟩ := hs
  exact .start now

/-- A dispatch of a loop that keeps up comes, for each handshake that is not done and each idle UDP
flow, at most the slack after its time, and one that comes after it retires the flow. -/
theorem reaped_in_time {slack : ℕ} (h : Reachable Proxy.Starts (PromptStep slack) s) {now : Instant}
    (hs : PromptStep slack s (.dispatch now) s') :
    (∀ key conn, s.engine.mgr.tcp.lookup key = some conn → conn.established = false →
      now ≤ conn.deadline + slack ∧
        (s'.engine.mgr.tcp.lookup key ≠ none → now < conn.deadline)) ∧
    ∀ key conn, s.engine.mgr.udp.lookup key = some conn →
      now ≤ conn.last + UDP_IDLE + slack ∧
        (s'.engine.mgr.udp.lookup key ≠ none → now < conn.last + UDP_IDLE) := by
  have hi := inv_of_prompt h
  have hsound := hi.driven.sound
  have hfiled := hi.driven.filed
  have hlate : ∀ f ∈ s.engine.mgr.deadlines, now ≤ f.1 + slack := fun f hf =>
    (show now ≤ s.dispatched + s.delay + slack from hs.2).trans
      (Nat.add_le_add_right (hi.timed.deadlines f hf) slack)
  cases ProxyMoves.of_step hs.1.2 with
  | leave he => rcases he with he | he <;> cases he
  | takeIn he => rcases he with he | he <;> cases he
  | wake he => rcases he with he | he | he <;> cases he
  | dispatch hp hd =>
      refine ⟨fun key conn hc he => ⟨hlate _ (hfiled.tcp key conn hc he), fun hn => ?_⟩,
        fun key conn hc => ?_⟩
      · by_contra hdue
        exact hn (dispatch_reaps hsound hfiled hd hc he (not_lt.mp hdue))
      · obtain ⟨c, hreach, heng, -⟩ := hi.driven
        have hudp := hreach.inv.udp
        rw [heng] at hudp
        have hle := hudp.deadline key conn hc
        refine ⟨(hlate _ (mem_deadlines hudp hc)).trans (Nat.add_le_add_right hle slack),
          fun hn => ?_⟩
        by_contra hdue
        exact hn (dispatch_retires hsound hfiled hudp hd hc (not_lt.mp hdue))

/-- The dispatch that waited for it retires the flow. -/
theorem reaped_in_time_lookedUp : ∃ s s' : Proxy Conn.SimTcp Conn.SimUdp,
    PromptStep (secs 30) s (.dispatch (secs 30)) s' ∧
    s.engine.mgr.udp.lookup lookedUpKey ≠ none ∧ s'.engine.mgr.udp.lookup lookedUpKey = none := by
  obtain ⟨s, s', h, hs, hl⟩ := lookedUp_run
  obtain ⟨conn, hc, hlast⟩ := hl
  refine ⟨s, s', hs, by rw [hc]; nofun, ?_⟩
  by_contra hn
  have hlt := ((reaped_in_time ⟨_, _, ⟨0, rfl⟩, h⟩ hs).2 _ conn hc).2 hn
  rw [hlast] at hlt
  exact absurd hlt (by decide)

/-! ### The end -/

/-- The selects, and the dispatches, that are still to come once the flag is set. -/
def Phase.parks : Phase → ℕ
  | .parking | .polling _ | .flushing _ | .dispatching => 1
  | _ => 0

def Phase.dispatches : Phase → ℕ
  | .polling again | .flushing again => if again then 0 else 1
  | .dispatching => 1
  | _ => 0

theorem Phase.parks_le (phase : Phase) : phase.parks ≤ 1 := by
  cases phase <;> first | exact le_refl 1 | exact Nat.zero_le 1

theorem Phase.dispatches_le (phase : Phase) : phase.dispatches ≤ 1 := by
  cases phase with
  | polling again => cases again <;> decide
  | flushing again => cases again <;> decide
  | dispatching => exact le_refl 1
  | _ => exact Nat.zero_le 1

def ProxyEvent.isPark : ProxyEvent T U → Bool
  | .park _ _ => true
  | _ => false

def ProxyEvent.isDispatch : ProxyEvent T U → Bool
  | .dispatch _ => true
  | _ => false

/-- A step, with the flag set. -/
theorem ProxyMoves.closing {e : ProxyEvent T U} (h : ProxyMoves s e s') (hd : s.shutdown = true) :
    s'.shutdown = true ∧ s'.phase.parks + (if e.isPark then 1 else 0) ≤ s.phase.parks ∧
      s'.phase.dispatches + (if e.isDispatch then 1 else 0) ≤ s.phase.dispatches := by
  cases h with
  | park hp =>
      rw [hp]
      exact ⟨hd, le_refl 1, le_refl 0⟩
  | leave he hp =>
      rw [hp]
      rcases he with rfl | rfl <;> exact ⟨hd, le_refl 0, le_refl 0⟩
  | takeIn he hp hb =>
      rcases he with rfl | rfl <;> exact ⟨hd, Nat.zero_le _, Nat.zero_le _⟩
  | wake he hp =>
      rcases he with rfl | rfl | rfl <;> exact ⟨hd, Nat.zero_le _, Nat.zero_le _⟩
  | check hp =>
      rw [if_pos hd]
      exact ⟨hd, Nat.zero_le _, Nat.zero_le _⟩
  | poll hp =>
      rw [hp]
      exact ⟨hd, le_refl _, le_refl _⟩
  | @flush again taken hp =>
      unfold Proxy.flush
      rw [hp]
      split
      · cases again
        · exact ⟨hd, le_refl 1, le_refl 1⟩
        · exact ⟨hd, le_refl 1, le_refl 0⟩
      · dsimp only
        split
        · exact ⟨hd, le_refl _, le_refl _⟩
        · exact ⟨hd, Nat.zero_le _, Nat.zero_le _⟩
  | @dispatch now queued mgr sockets hp hq =>
      rw [hp]
      cases queued
      · exact ⟨hd, le_refl 1, le_refl 1⟩
      · exact ⟨hd, le_refl 1, le_refl 1⟩
  | shutdown => exact ⟨rfl, le_refl _, le_refl _⟩
  | egress => exact ⟨hd, le_refl _, le_refl _⟩
  | mark => exact ⟨hd, le_refl _, le_refl _⟩

/-- With the flag set, what is still to come of some kind of step bounds what comes. -/
theorem closing_bound (kind : ProxyEvent T U → Bool) (left : Phase → ℕ)
    (hstep : ∀ (s : Proxy T U) e s', ProxyMoves s e s' → s.shutdown = true →
      left s'.phase + (if kind e then 1 else 0) ≤ left s.phase)
    {es : List (ProxyEvent T U)} (hr : Run ProxyStep s es s') (hd : s.shutdown = true) :
    es.countP kind ≤ left s.phase := by
  refine (Run.reaches_of_rank (I := fun s : Proxy T U => s.shutdown = true) (G := fun _ => False)
    (L := fun _ => True) kind (fun s => left s.phase) (fun _ _ _ hf => hf.elim)
    (fun s e s' hd _ _ hs => .inr ?_) hr (fun _ _ => trivial) hd).elim False.elim fun h => ?_
  · have hm := ProxyMoves.of_step hs.2
    have hle := hstep s e s' hm hd
    refine ⟨(hm.closing hd).1, (Nat.le_add_right _ _).trans hle, fun hk => ?_⟩
    rw [if_pos hk] at hle
    exact hle
  · exact (Nat.le_add_left _ _).trans h.2

/-- Once the dashboard is closed, whatever comes: the loop goes to sleep at most once more, for at
most `MAX_IDLE`, and dispatches at most once more. -/
theorem shutdown_observed (h : ProxyReachable s) (hd : s.shutdown = true)
    {es : List (ProxyEvent T U)} (hr : Run ProxyStep s es s') :
    es.countP ProxyEvent.isPark ≤ 1 ∧ es.countP ProxyEvent.isDispatch ≤ 1 ∧
      s'.delay ≤ MAX_IDLE := by
  refine ⟨(closing_bound _ Phase.parks (fun _ _ _ hm hd => (hm.closing hd).2.1) hr hd).trans ?_,
    (closing_bound _ Phase.dispatches (fun _ _ _ hm hd => (hm.closing hd).2.2) hr hd).trans ?_,
    (Proxy.Inv.of_reachable (h.run hr)).timed.delay⟩
  · exact s.phase.parks_le
  · exact s.phase.dispatches_le

/-- The dashboard closes in the middle of a turn, with a datagram to dispatch. -/
def closing : List (ProxyEvent Conn.SimTcp Conn.SimUdp) := lookedUp.take 4 ++ [.shutdown]

/-- The turn is finished, and the loop sleeps once more. -/
def lastTurn : List (ProxyEvent Conn.SimTcp Conn.SimUdp) :=
  lookedUp.drop 4 ++ [.dispatch 0, .park 0 none, .timer, .check]

theorem shutdown_observed_closing : ∃ s s' : Proxy Conn.SimTcp Conn.SimUdp,
    s.phase = .polling false ∧ Run ProxyStep s lastTurn s' ∧ s'.phase = .stopped ∧
    lastTurn.countP ProxyEvent.isPark ≤ 1 ∧ lastTurn.countP ProxyEvent.isDispatch ≤ 1 ∧
    s'.delay ≤ MAX_IDLE := by
  have hs : ((Proxy.start Conn.SimTcp Conn.SimUdp 0).after 0 closing).any (fun s =>
      (s.after 0 lastTurn).any (fun s' => s'.phase = .stopped) ∧
        s.phase = .polling false ∧ s.shutdown = true) = true := by
    decide +kernel
  obtain ⟨s, h, hs⟩ := (Option.any_eq_true _ _).mp hs
  obtain ⟨hc, hph, hd⟩ := of_decide_eq_true hs
  obtain ⟨s', h', hp⟩ := (Option.any_eq_true _ _).mp hc
  have hr : ProxyReachable s := ⟨_, _, ⟨0, rfl⟩, PromptStep.run (Proxy.run_after h)⟩
  have hrun := PromptStep.run (Proxy.run_after h')
  exact ⟨s, s', hph, hrun, of_decide_eq_true hp, shutdown_observed hr hd hrun⟩

end

end Tunnel.Engine
