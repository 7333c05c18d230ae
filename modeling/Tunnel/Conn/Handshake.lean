import Tunnel.Conn.Deadlines
import Tunnel.Conn.Pass

/-!
# Conn — The handshake timer

A flow's `established` flag is a sample of its socket, taken by the service passes.  So it says that
a dispatch has found the flow ready and its socket Established, not that the socket has been
Established.

* `Watched`: the engine with the history of its sockets.
* `dispatch_flow`: what a dispatch does to a flow that it leaves.
* `Watched.Inv`: the flag is the history of samples.
* `timer_spares_iff`: the runs in which no expiry reaps a flow that has reached Established are the
  runs in which each such flow has been sampled before its deadline comes due.
-/

namespace Tunnel.Conn
open Support

variable {T U : Type} [TcpApi T] [UdpApi U]

/-! ### A flow through a dispatch -/

section
variable {m m' : ConnManager} {sockets sockets' : SocketSet T U} {key : FourTuple} {conn : TcpConn}

/-- A pass opens no flow. -/
theorem serviceAll_none (hs : Sound m sockets) (hk : m.tcp.lookup key = none) {now : Instant}
    {ids : List FlowId} {queued q : Bool}
    (e : ConnManager.serviceAll now ids queued m sockets = .ok (q, m', sockets')) :
    m'.tcp.lookup key = none := by
  refine serviceAll_invariant (P := fun m _ => m.tcp.lookup key = none)
    (fun m₁ sockets₁ key' q₁ m₂ sockets₂ h₁ hk₁ e₁ => ?_)
    (fun m₁ sockets₁ key' q₁ m₂ sockets₂ h₁ hk₁ e₁ => ?_) hs hk e
  · rcases serviceTcp_cases h₁ e₁ with ⟨-, rfl, -⟩ | ⟨conn', sock', hc', -, ⟨-, rfl, -⟩ |
        ⟨-, rfl, -⟩⟩
    · exact hk₁
    · rw [ConnManager.lookup_closeTcp, hk₁, ite_self]
    · have hne : key ≠ key' := by
        intro heq
        rw [← heq, hk₁] at hc'
        cases hc'
      change Finmap.lookup key (m₁.tcp.insert key' _) = none
      rw [Finmap.lookup_insert_eq, if_neg hne, hk₁]
  · rcases serviceUdp_cases h₁ e₁ with ⟨-, rfl, -⟩ | ⟨_, _, -, -, rfl, -⟩ <;> exact hk₁

/-- The passes remove a flow, or leave it with the flag set if one of them is over it and its socket
is Established.  A pass over another flow leaves it and its socket alone. -/
theorem serviceAll_flow [TcpLaws T] (hs : Sound m sockets) {sock : T}
    (hc : m.tcp.lookup key = some conn) (hk : sockets.lookup conn.handle = some (.tcp sock))
    {now : Instant} {ids : List FlowId} {queued q : Bool}
    (e : ConnManager.serviceAll now ids queued m sockets = .ok (q, m', sockets')) :
    m'.tcp.lookup key = none ∨
      ∃ conn', m'.tcp.lookup key = some conn' ∧ conn'.handle = conn.handle ∧
        (conn'.established = true ↔
          conn.established = true ∨ FlowId.tcp key ∈ ids ∧ TcpApi.state sock = .established) := by
  induction ids generalizing queued m sockets conn sock with
  | nil =>
      cases e
      exact .inr ⟨conn, hc, rfl, by simp⟩
  | cons id ids ih =>
      unfold ConnManager.serviceAll at e
      cases id with
      | tcp key' =>
          obtain ⟨q₁, m₁, sockets₁, e₁, h₁⟩ := hs.serviceTcp key'
          dsimp only at e
          rw [e₁, ok_bind] at e
          by_cases hkey : key = key'
          · subst hkey
            rcases serviceTcp_cases hs e₁ with ⟨hn, -⟩ | ⟨conn', sock', hc', hs', hcase⟩
            · rw [hc] at hn
              cases hn
            rw [hc] at hc'
            cases hc'
            rw [hk] at hs'
            cases hs'
            rcases hcase with ⟨-, rfl, -⟩ | ⟨-, rfl, rfl⟩
            · refine .inl (serviceAll_none h₁ ?_ e)
              rw [ConnManager.lookup_closeTcp, if_pos rfl]
            · have hh := serviceConn_handle conn sock
              have hk₁ : (sockets.insert conn.handle (.tcp (serviceConn conn sock).2.2)).lookup
                  (serviceConn conn sock).2.1.handle = some (.tcp (serviceConn conn sock).2.2) := by
                rw [hh]
                exact Finmap.lookup_insert _
              rcases ih h₁ (Finmap.lookup_insert _) hk₁ e with hn | ⟨conn', hc', hh', he'⟩
              · exact .inl hn
              refine .inr ⟨conn', hc', hh'.trans hh, he'.trans ?_⟩
              rw [serviceConn_established]
              simp only [List.mem_cons, true_or, true_and]
              -- a pass after the first finds the socket Established only if the first did
              exact or_iff_left_of_imp fun h => .inr (serviceConn_of_established h.2)
          · have hmem : FlowId.tcp key ∈ FlowId.tcp key' :: ids ↔ FlowId.tcp key ∈ ids := by
              simp [hkey]
            obtain ⟨hlook, hsock⟩ := serviceTcp_of_ne hs hkey e₁
            rw [hmem]
            exact ih h₁ (hlook.trans hc) ((hsock conn hc).trans hk) e
      | udp key' =>
          obtain ⟨q₁, m₁, sockets₁, e₁, h₁⟩ := hs.serviceUdp key' now
          dsimp only at e
          rw [e₁, ok_bind] at e
          have hmem : FlowId.tcp key ∈ FlowId.udp key' :: ids ↔ FlowId.tcp key ∈ ids := by simp
          have hrest : m₁.tcp.lookup key = some conn ∧
              sockets₁.lookup conn.handle = some (.tcp sock) := by
            rcases serviceUdp_cases hs e₁ with ⟨-, rfl, rfl⟩ | ⟨conn', sock', hc', -, rfl, rfl⟩
            · exact ⟨hc, hk⟩
            refine ⟨hc, ?_⟩
            rw [Finmap.lookup_insert_eq, if_neg (hs.handle_ne hc hc')]
            exact hk
          rw [hmem]
          exact ih h₁ hrest.1 hrest.2 e

theorem expireLoop_ready (hs : Sound m sockets) {now : Instant} {n : ℕ}
    (e : ConnManager.expireLoop now n m sockets = .ok (m', sockets')) : m'.ready = m.ready := by
  refine expireLoop_invariant (P := fun m₁ _ => m₁.ready = m.ready) ?_ hs rfl e
  intro m₁ sockets₁ due id rest m₂ sockets₂ h₁ hP hd hdue e₁
  have hr : Sound { m₁ with deadlines := rest } sockets₁ := h₁.congr rfl rfl rfl rfl
  rcases expireEntry_cases hr e₁ with ⟨rfl, -⟩ | ⟨_, _, -, -, -, -, rfl, -⟩ |
      ⟨_, _, -, -, -, -, -, rfl⟩ | ⟨_, _, -, -, -, -, rfl, -⟩ <;> exact hP

/-- A flow that a dispatch leaves was there, with the same socket, and has the flag if it had it or
was found ready with its socket Established. -/
theorem dispatch_flow [TcpLaws T] (hs : Sound m sockets) {now : Instant} {q : Bool}
    (e : m.dispatch sockets now = .ok (q, m', sockets')) {conn' : TcpConn}
    (hc' : m'.tcp.lookup key = some conn') :
    ∃ conn sock, m.tcp.lookup key = some conn ∧ sockets.lookup conn.handle = some (.tcp sock) ∧
      conn'.handle = conn.handle ∧ (conn'.established = true ↔ conn.established = true ∨
        FlowId.tcp key ∈ m.ready.queue ∧ TcpApi.state sock = .established) := by
  obtain ⟨m₁, sockets₁, e₁, h₁, e₂⟩ := dispatch_split hs e
  have hq : m₁.ready.queue = m.ready.queue := congrArg Ready.queue (expireLoop_ready hs e₁)
  cases hc₁ : m₁.tcp.lookup key with
  | none =>
      rw [serviceAll_none h₁.drained hc₁ e₂] at hc'
      cases hc'
  | some conn =>
      rcases expireLoop_keeps hs e₁ key with ⟨hk, hsock⟩ | ⟨hk, -⟩
      · have hc : m.tcp.lookup key = some conn := hk.symm.trans hc₁
        obtain ⟨sock, hs₁⟩ := hs.tcp_socket hc
        rcases serviceAll_flow h₁.drained hc₁ ((hsock conn hc).trans hs₁) e₂ with hn |
            ⟨conn'', hc'', hh, he⟩
        · rw [hn] at hc'
          cases hc'
        · rw [hc'] at hc''
          cases hc''
          exact ⟨conn, sock, hc, hs₁, hh, hq ▸ he⟩
      · rw [hk] at hc₁
        cases hc₁

end

/-! ### The history of the sockets -/

/-- Established, and the states reached only through it. -/
def TcpState.PastHandshake (state : TcpState) : Prop :=
  state = .established ∨ state = .closeWait ∨ state = .lastAck

/-- The engine, the time, and of the sockets it has: those that have reached Established, and those
that a dispatch has found ready and Established.  A poll that processes several packets is several
`pollTcp` in a row. -/
structure Watched (T U : Type) where
  engine : Engine T U
  clock : Instant
  reached : Set ℕ
  sampled : Set ℕ

/-- The sockets of the flows that are ready with their socket Established. -/
def Engine.found (s : Engine T U) : Set ℕ :=
  { h | ∃ key conn sock, s.mgr.tcp.lookup key = some conn ∧ conn.handle = h ∧
    FlowId.tcp key ∈ s.mgr.ready.queue ∧ s.sockets.lookup h = some (.tcp sock) ∧
    TcpApi.state sock = .established }

def ConnEvent.time : ConnEvent T U → Option Instant
  | .onPacket _ _ now => some now
  | .dispatch now => some now
  | _ => none

namespace Watched

def new (T U : Type) [UdpApi U] : Watched T U := ⟨.new T U, 0, ∅, ∅⟩

/-- The history after an event that leads to `s`.  A handle given out again has none. -/
def next (w : Watched T U) (s : Engine T U) : ConnEvent T U → Watched T U
  | .onPacket _ handle now => ⟨s, now, w.reached \ {handle}, w.sampled \ {handle}⟩
  | .dispatch now => ⟨s, now, w.reached, w.sampled ∪ w.engine.found⟩
  | .pollTcp handle sock =>
    ⟨s, w.clock, w.reached ∪ { h | h = handle ∧ (TcpApi.state sock).PastHandshake }, w.sampled⟩
  | _ => { w with engine := s }

/-- An expiry reaps no flow whose socket has reached Established. -/
def Spares (w : Watched T U) (now : Instant) : Prop :=
  ∀ m sockets, w.engine.mgr.expire w.engine.sockets now = .ok (m, sockets) →
    ∀ key conn, w.engine.mgr.tcp.lookup key = some conn → conn.handle ∈ w.reached →
      m.tcp.lookup key ≠ none

/-- Each flow whose socket has reached Established, and whose deadline has come, has been
sampled. -/
def SampledInTime (w : Watched T U) (now : Instant) : Prop :=
  ∀ key conn, w.engine.mgr.tcp.lookup key = some conn → conn.handle ∈ w.reached →
    conn.deadline ≤ now → conn.handle ∈ w.sampled

end Watched

/-- One step, at nondecreasing times. -/
def WatchStep (w : Watched T U) (e : ConnEvent T U) (w' : Watched T U) : Prop :=
  ConnStep w.engine e w'.engine ∧ (∀ now, e.time = some now → w.clock ≤ now) ∧
    w' = w.next w'.engine e

/-! ### The flag is the history of samples -/

structure Watched.Inv (w : Watched T U) : Prop where
  sound : Sound w.engine.mgr w.engine.sockets
  filed : Filed w.engine.mgr
  sampled : ∀ key conn, w.engine.mgr.tcp.lookup key = some conn →
    (conn.established = true ↔ conn.handle ∈ w.sampled)

namespace Watched.Inv

variable {w w' : Watched T U}

omit [TcpApi T] in
theorem new : (Watched.new T U).Inv :=
  ⟨Sound.new, ⟨List.Pairwise.nil, nofun⟩, nofun⟩

/-- A packet gives a flow that it opens a handle with no history. -/
theorem onPacket (h : w.Inv) (flow : Flow) {handle : ℕ} (now : Instant)
    (hh : w.engine.sockets.lookup handle = none) {key : FourTuple} {conn : TcpConn}
    (hc : (w.engine.mgr.onPacket w.engine.sockets flow handle now).1.tcp.lookup key = some conn) :
    conn.established = true ↔ conn.handle ∈ w.sampled \ {handle} := by
  have hold : w.engine.mgr.tcp.lookup key = some conn →
      (conn.established = true ↔ conn.handle ∈ w.sampled \ {handle}) := by
    intro hc
    obtain ⟨sock, hs⟩ := h.sound.tcp_socket hc
    have hne : conn.handle ≠ handle := by
      intro heq
      rw [heq, hh] at hs
      cases hs
    rw [h.sampled key conn hc, Set.mem_sdiff, Set.mem_singleton_iff, and_iff_left hne]
  rcases ConnManager.onPacket_tcp hc with hc | ⟨-, rfl, -⟩
  · exact hold hc
  · simp

theorem dispatch [TcpLaws T] (h : w.Inv) {now : Instant} {q : Bool} {s : Engine T U}
    (e : w.engine.mgr.dispatch w.engine.sockets now = .ok (q, s.mgr, s.sockets)) {key : FourTuple}
    {conn' : TcpConn} (hc' : s.mgr.tcp.lookup key = some conn') :
    conn'.established = true ↔ conn'.handle ∈ w.sampled ∪ w.engine.found := by
  obtain ⟨conn, sock, hc, hs, hh, he⟩ := dispatch_flow h.sound e hc'
  rw [he, h.sampled key conn hc, hh]
  refine or_congr_right ⟨fun hf => ⟨key, conn, sock, hc, rfl, hf.1, hs, hf.2⟩, ?_⟩
  rintro ⟨key', conn', sock', hc₁, hh₁, hq, hs₁, hst⟩
  have hk : key' = key := h.sound.tcpPool.inj key' key conn' conn hc₁ hc hh₁
  rw [hs] at hs₁
  cases hs₁
  exact ⟨hk ▸ hq, hst⟩

theorem step [TcpLaws T] {e : ConnEvent T U} (h : w.Inv) (hs : WatchStep w e w') : w'.Inv := by
  obtain ⟨he, -, hw⟩ := hs
  have hsound := h.sound.step he
  have hfiled := Filed.step h.sound h.filed he
  refine ⟨hsound, hfiled, fun key conn hc => ?_⟩
  cases e with
  | onPacket flow handle now =>
      obtain ⟨hh, he⟩ := he
      have hm : (w.engine.mgr.onPacket w.engine.sockets flow handle now).1 = w'.engine.mgr :=
        congrArg Prod.fst he
      rw [hw]
      exact h.onPacket flow now hh (hm ▸ hc)
  | dispatch now =>
      obtain ⟨q, he⟩ := he
      rw [hw]
      exact h.dispatch he hc
  | pollTcp handle sock =>
      obtain ⟨-, he⟩ := he
      rw [hw]
      rw [he] at hc
      exact h.sampled key conn hc
  | pollUdp handle sock =>
      obtain ⟨-, he⟩ := he
      rw [hw]
      rw [he] at hc
      exact h.sampled key conn hc
  | mark id =>
      rw [hw]
      change w'.engine = _ at he
      rw [he] at hc
      exact h.sampled key conn hc
  | egress id act =>
      rw [hw]
      change w'.engine = _ at he
      rw [he] at hc
      obtain ⟨conn₀, hc₀, hid⟩ := ConnManager.egress_flow hc
      have hest : conn.established = conn₀.established := congrArg (·.2.2) hid
      have hh : conn.handle = conn₀.handle := congrArg (·.1) hid
      rw [hest, hh]
      exact h.sampled key conn₀ hc₀

/-- What an expiry spares, by the history. -/
theorem spares_iff (h : w.Inv) (now : Instant) : w.Spares now ↔ w.SampledInTime now := by
  obtain ⟨m, sockets, e, -⟩ := h.sound.expireLoop now w.engine.mgr.deadlines.length
  have hx : w.engine.mgr.expire w.engine.sockets now = .ok (m, sockets) := e
  have hone : ∀ key conn, w.engine.mgr.tcp.lookup key = some conn →
      (m.tcp.lookup key ≠ none ↔ (conn.deadline ≤ now → conn.handle ∈ w.sampled)) := by
      intro key conn hc
      rw [Ne, expire_tcp h.sound h.filed hx hc, ← h.sampled key conn hc, not_and',
        Bool.not_eq_false]
  constructor
  · intro hsp key conn hc hr
    exact (hone key conn hc).mp (hsp m sockets hx key conn hc hr)
  · intro hsm m' sockets' e' key conn hc hr
    rw [hx] at e'
    cases e'
    exact (hone key conn hc).mpr (hsm key conn hc hr)

end Watched.Inv

/-! ### Every run -/

/-- The dispatches of a run, with a property of the state each of them finds. -/
def AtDispatch (P : Watched T U → Instant → Prop) (w : Watched T U) (e : ConnEvent T U) : Prop :=
  ∀ now, e = .dispatch now → P w now

/-- In a run, no expiry reaps a flow whose socket has reached Established exactly if, at every
dispatch, each such flow whose deadline has come was found ready and Established by an earlier
one. -/
theorem timer_spares_iff [TcpLaws T] (es : List (ConnEvent T U)) (w : Watched T U) :
    Run (Guarded (AtDispatch Watched.Spares) WatchStep) (.new T U) es w ↔
      Run (Guarded (AtDispatch Watched.SampledInTime) WatchStep) (.new T U) es w := by
  refine Run.guarded_congr (I := Watched.Inv) (fun _ _ _ hi _ => hi.step) (fun w e hi => ?_) .new
  exact forall₂_congr fun now _ => hi.spares_iff now

/-! ### A FIN right behind the handshake -/

/-- The SYN is dispatched in SynReceived.  The app's ACK and its FIN then come in one batch: the
socket passes through Established, and the next dispatch finds it in CloseWait. -/
def ackAndFin : List (ConnEvent SimTcp SimUdp) :=
  [.onPacket webSyn 0 0, .pollTcp 0 ⟨.synReceived, []⟩, .dispatch 0,
    .pollTcp 0 ⟨.established, []⟩, .pollTcp 0 ⟨.closeWait, []⟩,
    .mark (.tcp ⟨webSyn.src, webSyn.dst⟩), .dispatch (secs 1)]

def Watched.apply (w : Watched T U) (e : ConnEvent T U) : Watched T U :=
  w.next (w.engine.apply e) e

/-- The engine takes the event, and its time does not go back. -/
def Watched.enabled (w : Watched T U) (e : ConnEvent T U) : Bool :=
  w.engine.enabled e && decide (w.clock ≤ e.time.getD w.clock)

theorem WatchStep.of_enabled [TcpLaws T] {w : Watched T U} {e : ConnEvent T U} (h : w.Inv)
    (he : w.enabled e = true) : WatchStep w e (w.apply e) := by
  obtain ⟨he, ht⟩ := Bool.and_eq_true_iff.mp he
  have hengine : (w.apply e).engine = w.engine.apply e := by cases e <;> rfl
  refine ⟨hengine ▸ ConnStep.of_enabled h.sound he, fun now hn => ?_, by rw [hengine]; rfl⟩
  rw [hn] at ht
  simpa using ht

theorem Run.watched [TcpLaws T] {w : Watched T U} {es : List (ConnEvent T U)} (h : w.Inv)
    (he : allAlong Watched.apply Watched.enabled w es = true) :
    Run WatchStep w es (es.foldl Watched.apply w) :=
  Run.of_allAlong (I := Watched.Inv) (fun _ _ _ => Watched.Inv.step)
    (fun _ _ => WatchStep.of_enabled) he h

/-- At ten seconds the flow is reaped. -/
theorem timer_reaps_closeWait : ∃ w : Watched SimTcp SimUdp,
    Run WatchStep (.new SimTcp SimUdp) ackAndFin w ∧ w.clock ≤ secs 10 ∧ ¬ w.Spares (secs 10) := by
  have hr : Run WatchStep (.new SimTcp SimUdp) ackAndFin _ :=
    Run.watched .new (by decide +kernel)
  refine ⟨_, hr, by decide +kernel, fun hsp => ?_⟩
  have hi := hr.invariant (I := Watched.Inv) (fun _ _ _ => Watched.Inv.step) .new
  obtain ⟨m, sockets, e, -⟩ := hi.sound.expireLoop (secs 10) _
  have hconn : ((ackAndFin.foldl Watched.apply (.new SimTcp SimUdp)).engine.mgr.tcp.lookup
      ⟨webSyn.src, webSyn.dst⟩).map (fun conn => (conn.handle, conn.established, conn.deadline)) =
      some (0, false, secs 10) := by decide +kernel
  obtain ⟨conn, hc, hv⟩ := Option.map_eq_some_iff.mp hconn
  obtain ⟨hh, he, hdl⟩ : conn.handle = 0 ∧ conn.established = false ∧ conn.deadline = secs 10 := by
    simpa using hv
  have hreached : conn.handle ∈ (ackAndFin.foldl Watched.apply (.new SimTcp SimUdp)).reached :=
    Or.inr ⟨hh, Or.inr (Or.inl rfl)⟩
  exact hsp m sockets e _ conn hc hreached
    ((expire_tcp hi.sound hi.filed e hc).mpr ⟨he, le_of_eq hdl⟩)

end Tunnel.Conn
