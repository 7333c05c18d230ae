import Tunnel.Conn.Deadlines
import Tunnel.Conn.Pass

/-!
# Conn — From the app to the egress

One TCP flow from its opening: the bytes that enter its socket's receive queue, and the chunks that
the service passes send to its egress task.  The socket is closed by an exchange of FINs, and the
egress task does not fail; it reads the channel at any pace.  What the engine does to other flows
leaves this flow and its socket alone, so it is not among the steps.

* `Relay.Inv`: at every moment, what was sent and what is still in the receive queue are what
  entered it.
* `relay_complete_iff`: the runs in which no removal loses bytes are the runs in which each pass
  that finds the socket Closed has room in the channel for what is left in the receive queue.
-/

namespace Tunnel.Conn
open Support TcpLaws

/-! ### The exchange of FINs -/

namespace TcpState

/-- Not yet connected. -/
def early : TcpState → Bool
  | .listen | .synSent | .synReceived => true
  | _ => false

/-- The peer's FIN has come. -/
def finished : TcpState → Bool
  | .closeWait | .closing | .lastAck | .timeWait | .closed => true
  | _ => false

/-- One packet of a handshake or of an exchange of FINs, or the end of TimeWait. -/
def orderly : TcpState → TcpState → Bool
  | .listen, .synReceived => true
  | .synReceived, .established => true
  | .synReceived, .closeWait => true
  | .established, .closeWait => true
  | .finWait1, .finWait2 => true
  | .finWait1, .closing => true
  | .finWait1, .timeWait => true
  | .finWait2, .timeWait => true
  | .closing, .timeWait => true
  | .lastAck, .closed => true
  | .timeWait, .closed => true
  | state, state' => state == state'

/-- A packet that arrives may carry data: the handshake is under way, and no FIN has come. -/
def receives : TcpState → Bool
  | .synReceived | .established | .finWait1 | .finWait2 => true
  | _ => false

variable {s s' : TcpState}

theorem finished_of_orderly (h : s.orderly s' = true) (hs : s.finished = true) :
    s'.finished = true := by
  revert h hs
  cases s <;> cases s' <;> decide

theorem not_early_of_orderly (h : s.orderly s' = true) (hs : s.early = false) :
    s'.early = false := by
  revert h hs
  cases s <;> cases s' <;> decide

theorem finished_close (hs : s.finished = true) : s.close.finished = true := by
  revert hs
  cases s <;> decide

theorem not_early_close (hs : s.early = false) : s.close.early = false := by
  revert hs
  cases s <;> decide

theorem not_receives_of_finished (hs : s.finished = true) : s.receives = false := by
  revert hs
  cases s <;> decide

theorem finished_of_not (hs : s.early = false)
    (h : ¬ (s = .established ∨ s = .finWait1 ∨ s = .finWait2)) : s.finished = true := by
  revert hs h
  cases s <;> decide

theorem close_not_opening : ¬ (s.close = .listen ∨ s.close = .synSent) := by
  cases s <;> decide

/-- Only a socket that has received nothing is closed by `close` at once. -/
theorem close_eq_closed (h : s.close = .closed) : s = .closed ∨ s = .listen ∨ s = .synSent := by
  revert h
  cases s <;> decide

end TcpState

variable {T U : Type} [TcpApi T]

/-! ### What a pass sends -/

/-- The chunks that a pass pushes into the channel. -/
def TcpConn.sends (conn : TcpConn) (sock : T) : List Bytes :=
  match conn.appToOut with
  | some tx => (relayOut tx.room tx (conn.relaySock sock)).1.queue.drop tx.queue.length
  | none => []

theorem fillPending_appToOut (conn : TcpConn) (chunks : List Bytes) :
    (fillPending conn chunks).appToOut = conn.appToOut := by
  induction chunks generalizing conn with
  | nil =>
      unfold fillPending
      split
      · rfl
      · split <;> rfl
  | cons data rest ih =>
      unfold fillPending
      split
      · rfl
      · rw [ih]

theorem drain_appToOut (conn : TcpConn) (sock : T) :
    ((conn.filled sock).drain sock).2.1.appToOut = conn.appToOut := by
  have h : (conn.sample sock).appToOut = conn.appToOut := by unfold TcpConn.sample; split <;> rfl
  exact (fillPending_appToOut _ _).trans h

variable [TcpLaws T]

theorem relaySock_rx (conn : TcpConn) (sock : T) : rx (conn.relaySock sock) = rx sock :=
  (drainPending_keeps _ _ _ _).2

/-- A flow whose channel the egress task reads sends what there is room for and leaves the rest. -/
theorem relayed_spec {conn : TcpConn} (hp : ∀ tx, conn.appToOut = some tx → tx.peer = true)
    (sock : T) :
    (∀ tx, conn.appToOut = some tx → conn.sends sock = (rx sock).take tx.room) ∧
      rx sock = conn.sends sock ++ rx (conn.relayed sock).2 ∧
      (∀ tx', (conn.relayed sock).1.appToOut = some tx' → tx'.peer = true) ∧
      ((conn.relayed sock).1.appToOut = none ↔ conn.appToOut = none) := by
  have ha := drain_appToOut conn sock
  unfold TcpConn.relayed TcpConn.relay TcpConn.sends
  rw [ha]
  cases htx : conn.appToOut with
  | none => exact ⟨nofun, (relaySock_rx conn sock).symm, by rw [ha, htx]; nofun, by simp [ha, htx]⟩
  | some tx =>
      obtain ⟨h₁, h₂⟩ := relayOut_spec (hp tx htx) le_rfl (conn.relaySock sock)
      rw [relaySock_rx] at h₁ h₂
      have hs : (relayOut tx.room tx (conn.relaySock sock)).1.queue.drop tx.queue.length =
          (rx sock).take tx.room := by rw [h₁]; simp
      dsimp only
      refine ⟨fun tx' e => ?_, ?_, fun tx' e => ?_, by simp⟩
      · cases e
        exact hs
      · rw [hs, h₂, List.take_append_drop]
      · cases e
        rw [h₁]
        exact hp tx htx

theorem relayed_state (conn : TcpConn) (sock : T) :
    TcpApi.state (conn.relayed sock).2 = TcpApi.state sock :=
  (relay_state _ _).trans (drainPending_keeps _ _ _ _).1

/-- Parts are not empty, so a queue with no bytes has no parts. -/
theorem rx_eq_nil {sock : T} (h : (rx sock).flatten = []) : rx sock = [] := by
  rw [List.flatten_eq_nil_iff] at h
  exact List.eq_nil_iff_forall_not_mem.mpr fun part hp => rx_ne sock part hp (h part hp)

/-! ### One flow -/

/-- The bytes that entered are those sent and those left.  A flow that has stopped sending has
nothing to send, and never will. -/
structure Intact (entered : Bytes) (sent : List Bytes) (conn : TcpConn) (sock : T) : Prop where
  bytes : entered = sent.flatten ++ (rx sock).flatten
  peer : ∀ tx, conn.appToOut = some tx → tx.peer = true
  shut : conn.appToOut = none → rx sock = [] ∧ (TcpApi.state sock).finished = true
  begun : conn.established = true → (TcpApi.state sock).early = false
  quiet : TcpApi.state sock = .listen ∨ TcpApi.state sock = .synSent → rx sock = []

/-- What a poll may do to the socket: one packet, with the data it brings. -/
structure Received (sock sock' : T) (data : Bytes) : Prop where
  rx_eq : (rx sock').flatten = (rx sock).flatten ++ data
  state : (TcpApi.state sock).orderly (TcpApi.state sock') = true
  data_nil : (TcpApi.state sock).receives = false → data = []

namespace Intact

variable {entered : Bytes} {sent : List Bytes} {conn : TcpConn} {sock : T}

theorem poll (h : Intact entered sent conn sock) {sock' : T} {data : Bytes}
    (hr : Received sock sock' data) : Intact (entered ++ data) sent conn sock' := by
  have hstill : rx sock = [] → (TcpApi.state sock).receives = false → rx sock' = [] :=
    fun hrx hno => rx_eq_nil (by rw [hr.rx_eq, hrx, hr.data_nil hno]; rfl)
  refine ⟨?_, h.peer, fun ha => ?_, fun he => ?_, fun hs => ?_⟩
  · rw [h.bytes, hr.rx_eq, List.append_assoc]
  · obtain ⟨hrx, hfin⟩ := h.shut ha
    exact ⟨hstill hrx (TcpState.not_receives_of_finished hfin),
      TcpState.finished_of_orderly hr.state hfin⟩
  · exact TcpState.not_early_of_orderly hr.state (h.begun he)
  · have hsame : TcpApi.state sock = TcpApi.state sock' := by
      have ho := hr.state
      revert ho
      rcases hs with hs | hs <;> rw [hs] <;> cases TcpApi.state sock <;> decide
    rw [← hsame] at hs
    refine hstill (h.quiet hs) ?_
    rcases hs with hs | hs <;> rw [hs] <;> rfl

theorem egress (h : Intact entered sent conn sock) {act : EgressAct} (ha : act ≠ .dropRx) :
    Intact entered sent (conn.egress act) sock := by
  refine ⟨h.bytes, fun tx' e => ?_, fun e => h.shut (by simpa [TcpConn.egress] using e),
    h.begun, h.quiet⟩
  obtain ⟨tx, htx, rfl⟩ := Option.map_eq_some_iff.mp e
  have hp := h.peer tx htx
  cases act with
  | recv => exact hp
  | send data => exact hp
  | dropRx => exact absurd rfl ha
  | dropTx => exact hp

/-- What the half-close sees. -/
theorem halfClose_none {c : TcpConn} {s : T} (h : (c.halfClose s).appToOut = none) :
    c.appToOut = none ∨ c.established = true ∧ TcpApi.mayRecv s = false ∧ rx s = [] := by
  unfold TcpConn.halfClose at h
  split at h
  · next hc =>
      simp only [Bool.and_eq_true, Bool.not_eq_true'] at hc
      refine .inr ⟨hc.1.1.1, hc.1.2, ?_⟩
      by_contra hne
      rw [(canRecv_iff s).mpr hne] at hc
      cases hc.2
  · exact .inl h

omit [TcpLaws T] in
theorem halfClose_some {c : TcpConn} {s : T} {tx : Chan} (h : (c.halfClose s).appToOut = some tx) :
    c.appToOut = some tx := by
  unfold TcpConn.halfClose at h
  split at h
  · cases h
  · exact h

theorem pass (h : Intact entered sent conn sock) :
    Intact entered (sent ++ conn.sends sock) (serviceConn conn sock).2.1
      (serviceConn conn sock).2.2 := by
  obtain ⟨hconn, hsock⟩ := serviceConn_relayed conn sock
  obtain ⟨-, hrx, hpeer, hnone⟩ := relayed_spec h.peer sock
  have hrx' : rx (serviceConn conn sock).2.2 = rx (conn.relayed sock).2 := by
    rcases hsock with e | e <;> rw [e]
    exact close_rx _
  have hnil : rx sock = [] → rx (serviceConn conn sock).2.2 = [] := by
    intro hn
    rw [hrx']
    rw [hn] at hrx
    exact (List.nil_eq_append_iff.mp hrx).2
  have hst := serviceConn_state conn sock
  have hbegun : (serviceConn conn sock).2.1.established = true →
      (TcpApi.state sock).early = false := by
    intro e
    rcases (serviceConn_established conn sock).mp e with he | he
    · exact h.begun he
    · rw [he]; rfl
  refine ⟨?_, fun tx e => ?_, fun e => ?_, fun e => ?_, fun e => ?_⟩
  · rw [h.bytes, hrx', hrx, List.flatten_append, List.flatten_append, List.append_assoc]
  · rw [hconn] at e
    exact hpeer tx (halfClose_some e)
  · have hfin : (TcpApi.state sock).finished = true →
        (TcpApi.state (serviceConn conn sock).2.2).finished = true := by
      intro hf
      rcases hst with e | e <;> rw [e]
      · exact hf
      · exact TcpState.finished_close hf
    rw [hconn] at e
    -- the sender was gone before, or goes now that the app's FIN is in and its bytes are out
    rcases halfClose_none e with hn | ⟨he, hmay, hr⟩
    · obtain ⟨hr, hf⟩ := h.shut (hnone.mp hn)
      exact ⟨hnil hr, hfin hf⟩
    · have hid : (serviceConn conn sock).2.1.established = (conn.relayed sock).1.established := by
        rw [hconn]
        exact congrArg (·.2.2) (halfClose_ident (conn.relayed sock).1 (conn.relayed sock).2)
      refine ⟨hrx'.trans hr, hfin (TcpState.finished_of_not (hbegun (hid.trans he)) fun hs => ?_)⟩
      rw [← relayed_state conn sock] at hs
      have hyes : TcpApi.mayRecv (conn.relayed sock).2 = true :=
        (mayRecv_iff _).mpr (hs.imp_right (Or.imp_right .inl))
      rw [hmay] at hyes
      cases hyes
  · rcases hst with e' | e' <;> rw [e']
    · exact hbegun e
    · exact TcpState.not_early_close (hbegun e)
  · rcases hst with e' | e'
    · rw [e'] at e
      exact hnil (h.quiet e)
    · rw [e'] at e
      exact absurd e TcpState.close_not_opening

/-- A flow that a pass removes has sent all its bytes if the pass had room for them. -/
theorem removed (h : Intact entered sent conn sock)
    (hcl : TcpApi.state (serviceConn conn sock).2.2 = .closed) :
    (sent ++ conn.sends sock).flatten = entered ↔ (TcpApi.state sock = .closed →
      ∀ tx, conn.appToOut = some tx → (rx sock).length ≤ tx.room) := by
  obtain ⟨hsends, hrx, -, -⟩ := relayed_spec h.peer sock
  have hall : (sent ++ conn.sends sock).flatten = entered ↔ rx (conn.relayed sock).2 = [] := by
    rw [h.bytes, hrx, List.flatten_append, List.flatten_append, ← List.append_assoc,
      List.self_eq_append_right]
    exact ⟨rx_eq_nil, fun hn => by rw [hn]; rfl⟩
  rw [hall]
  -- a socket that `close` has just closed has received nothing
  have hstill : TcpApi.state sock ≠ .closed → rx sock = [] := by
    intro hne
    rcases serviceConn_state conn sock with e | e
    · exact absurd (e.symm.trans hcl) hne
    · rcases TcpState.close_eq_closed (e.symm.trans hcl) with hs | hs
      · exact absurd hs hne
      · exact h.quiet hs
  constructor
  · intro hn hs tx htx
    have heq := hsends tx htx
    rw [hn, List.append_nil] at hrx
    rw [hrx, heq]
    exact List.length_take_le _ _
  · intro hroom
    by_cases hs : TcpApi.state sock = .closed
    · cases htx : conn.appToOut with
      | none =>
          rw [(h.shut htx).1] at hrx
          exact (List.nil_eq_append_iff.mp hrx).2
      | some tx =>
          have heq := hsends tx htx
          rw [List.take_of_length_le (hroom hs tx htx)] at heq
          rw [heq] at hrx
          exact List.self_eq_append_right.mp hrx
    · rw [hstill hs] at hrx
      exact (List.nil_eq_append_iff.mp hrx).2

end Intact

/-! ### The flow in the manager -/

variable [UdpApi U]

/-- The engine, the bytes that have entered the flow's receive queue, and the chunks sent from
it. -/
structure Upload (T U : Type) where
  engine : Engine T U
  entered : Bytes
  sent : List Bytes

inductive UploadEvent (T : Type) where
  /-- smoltcp processes a packet that brings `data`, and leaves the socket as `sock`. -/
  | poll (sock : T) (data : Bytes)
  /-- `service_tcp`. -/
  | pass
  | egress (act : EgressAct)
deriving DecidableEq

/-- The flow that lives under `key`, with its socket. -/
def Engine.Live (s : Engine T U) (key : FourTuple) (conn : TcpConn) (sock : T) : Prop :=
  s.mgr.tcp.lookup key = some conn ∧ s.sockets.lookup conn.handle = some (.tcp sock)

/-- The chunks that a pass over the flow sends. -/
def Engine.sends (s : Engine T U) (key : FourTuple) : List Bytes :=
  match s.mgr.tcp.lookup key with
  | some conn =>
    match s.sockets.lookup conn.handle with
    | some (.tcp sock) => conn.sends sock
    | _ => []
  | none => []

omit [TcpLaws T] [UdpApi U] in
theorem Engine.sends_of_live {s : Engine T U} {key : FourTuple} {conn : TcpConn} {sock : T}
    (h : s.Live key conn sock) : s.sends key = conn.sends sock := by
  rw [Engine.sends, h.1]
  simp only [h.2]

namespace Engine.Live

variable {s s' : Engine T U} {key : FourTuple} {conn conn' : TcpConn} {sock sock' : T}

omit [TcpApi T] [TcpLaws T] [UdpApi U] in
theorem unique (h : s.Live key conn sock) (h' : s.Live key conn' sock') :
    conn = conn' ∧ sock = sock' := by
  obtain ⟨hc, hs⟩ := h
  obtain ⟨hc', hs'⟩ := h'
  rw [hc] at hc'
  cases hc'
  rw [hs] at hs'
  cases hs'
  exact ⟨rfl, rfl⟩

omit [TcpApi T] [TcpLaws T] [UdpApi U] in
theorem poll (h : s.Live key conn sock) (sock' : T) :
    (Engine.mk s.mgr (s.sockets.insert conn.handle (.tcp sock'))).Live key conn sock' :=
  ⟨h.1, Finmap.lookup_insert _⟩

omit [TcpLaws T] in
/-- A flow that a pass leaves is what the pass makes of it. -/
theorem of_pass (hs : Sound s.mgr s.sockets) {q : Bool}
    (e : s.mgr.serviceTcp s.sockets key = .ok (q, s'.mgr, s'.sockets))
    (h' : s'.Live key conn' sock') :
    ∃ conn sock, s.Live key conn sock ∧ (serviceConn conn sock).2 = (conn', sock') := by
  rcases serviceTcp_cases hs e with ⟨hn, hm, -⟩ | ⟨conn, sock, hc, hk, ⟨-, hm, -⟩ | ⟨-, hm, hset⟩⟩
  · have hc' := h'.1
    rw [hm, hn] at hc'
    cases hc'
  · have hc' := h'.1
    rw [hm, ConnManager.lookup_closeTcp, if_pos rfl] at hc'
    cases hc'
  · have hnew : s'.Live key (serviceConn conn sock).2.1 (serviceConn conn sock).2.2 := by
      refine ⟨by rw [hm]; exact Finmap.lookup_insert _, ?_⟩
      rw [serviceConn_handle, hset]
      exact Finmap.lookup_insert _
    obtain ⟨rfl, rfl⟩ := hnew.unique h'
    exact ⟨conn, sock, ⟨hc, hk⟩, rfl⟩

omit [TcpApi T] [TcpLaws T] [UdpApi U] in
theorem of_egress {act : EgressAct}
    (h' : (Engine.mk (s.mgr.egress act (.tcp key)) s.sockets).Live key conn' sock') :
    ∃ conn, s.Live key conn sock' ∧ conn' = conn.egress act := by
  obtain ⟨hc', hk⟩ := h'
  rw [ConnManager.lookup_egress, if_pos rfl] at hc'
  obtain ⟨conn, hc, rfl⟩ := Option.map_eq_some_iff.mp hc'
  exact ⟨conn, ⟨hc, hk⟩, rfl⟩

end Engine.Live

def UploadStep (key : FourTuple) (w : Upload T U) : UploadEvent T → Upload T U → Prop
  | .poll sock data, w' =>
    ∃ conn old, w.engine.Live key conn old ∧ Received old sock data ∧
      w' = ⟨⟨w.engine.mgr, w.engine.sockets.insert conn.handle (.tcp sock)⟩,
        w.entered ++ data, w.sent⟩
  | .pass, w' =>
    (∃ queued, w.engine.mgr.serviceTcp w.engine.sockets key =
      .ok (queued, w'.engine.mgr, w'.engine.sockets)) ∧
      w'.entered = w.entered ∧ w'.sent = w.sent ++ w.engine.sends key
  | .egress act, w' =>
    act ≠ .dropRx ∧
      w' = ⟨⟨w.engine.mgr.egress act (.tcp key), w.engine.sockets⟩, w.entered, w.sent⟩

/-- `on_packet` has just opened the flow, in any state the engine reaches. -/
def Opened (key : FourTuple) (w : Upload T U) : Prop :=
  (∃ s flow handle now, ConnReachable s ∧ ConnStep s (.onPacket flow handle now) w.engine ∧
    key = ⟨flow.src, flow.dst⟩ ∧ s.mgr.tcp.lookup key = none) ∧
  w.engine.mgr.tcp.lookup key ≠ none ∧ w.entered = [] ∧ w.sent = []

omit [TcpLaws T] in
/-- The flow and its socket are new. -/
theorem Opened.fresh {key : FourTuple} {w : Upload T U} (h : Opened key w) :
    Sound w.engine.mgr w.engine.sockets ∧ ∀ conn sock, w.engine.Live key conn sock →
      ∃ handle now dst, TcpApi.listen dst = some sock ∧
        conn = ⟨handle, some .new, .new, .empty, false, false, now + TCP_HANDSHAKE_TIMEOUT⟩ := by
  obtain ⟨⟨s, flow, handle, now, hr, hs, rfl, hn⟩, -⟩ := h
  refine ⟨hr.sound.step hs, fun conn sock hl => ?_⟩
  obtain ⟨hc, hsock⟩ := hl
  have hm : (s.mgr.onPacket s.sockets flow handle now).1 = w.engine.mgr := congrArg Prod.fst hs.2
  have ho : (s.mgr.onPacket s.sockets flow handle now).2 = w.engine.sockets :=
    congrArg Prod.snd hs.2
  rw [← hm] at hc
  obtain ⟨-, rfl, sock', hlisten, hs'⟩ :=
    (ConnManager.onPacket_tcp hc).resolve_left (by rw [hn]; nofun)
  rw [ho, hsock] at hs'
  cases hs'
  exact ⟨handle, now, flow.dst, hlisten, rfl⟩

namespace Upload

structure Inv (key : FourTuple) (w : Upload T U) : Prop where
  sound : Sound w.engine.mgr w.engine.sockets
  intact : ∀ conn sock, w.engine.Live key conn sock → Intact w.entered w.sent conn sock

/-- If a pass removes the flow, all that entered has been sent, in order and once. -/
def Complete (key : FourTuple) (w : Upload T U) : Prop :=
  ∀ w', UploadStep key w .pass w' → w.engine.mgr.tcp.lookup key ≠ none →
    w'.engine.mgr.tcp.lookup key = none → w'.sent.flatten = w'.entered

/-- If the flow's socket is Closed, its channel has room for all that is left to read. -/
def Roomy (key : FourTuple) (w : Upload T U) : Prop :=
  ∀ conn sock tx, w.engine.Live key conn sock → TcpApi.state sock = .closed →
    conn.appToOut = some tx → (rx sock).length ≤ tx.room

variable {key : FourTuple} {w w' : Upload T U}

theorem Inv.opened (h : Opened key w) : w.Inv key := by
  obtain ⟨hsound, hfresh⟩ := h.fresh
  obtain ⟨-, -, he, hw⟩ := h
  refine ⟨hsound, fun conn sock hl => ?_⟩
  obtain ⟨handle, now, dst, hlisten, rfl⟩ := hfresh conn sock hl
  have hrx := listen_rx dst sock hlisten
  rw [he, hw]
  exact ⟨by rw [hrx]; rfl, fun tx e => by cases e; rfl, nofun, nofun, fun _ => hrx⟩

theorem Inv.step {e : UploadEvent T} (h : w.Inv key) (hs : UploadStep key w e w') : w'.Inv key := by
  cases e with
  | poll sock data =>
      obtain ⟨conn, old, hl, hr, rfl⟩ := hs
      refine ⟨h.sound.pollTcp hl.2, fun conn' sock' hl' => ?_⟩
      obtain ⟨rfl, rfl⟩ := (hl.poll sock).unique hl'
      exact (h.intact _ _ hl).poll hr
  | pass =>
      obtain ⟨⟨q, e⟩, hent, hsent⟩ := hs
      obtain ⟨q', m', sockets', e', hsound⟩ := h.sound.serviceTcp key
      rw [e] at e'
      cases e'
      refine ⟨hsound, fun conn' sock' hl' => ?_⟩
      obtain ⟨conn, sock, hl, hpass⟩ := Engine.Live.of_pass h.sound e hl'
      rw [hent, hsent, Engine.sends_of_live hl]
      have hi := (h.intact conn sock hl).pass
      rwa [hpass] at hi
  | egress act =>
      obtain ⟨ha, rfl⟩ := hs
      refine ⟨h.sound.egress act (.tcp key), fun conn' sock' hl' => ?_⟩
      obtain ⟨conn, hl, rfl⟩ := Engine.Live.of_egress hl'
      exact (h.intact conn sock' hl).egress ha

theorem complete_iff (h : w.Inv key) : w.Complete key ↔ w.Roomy key := by
  cases hc : w.engine.mgr.tcp.lookup key with
  | none =>
      refine ⟨fun _ conn sock tx hl => ?_, fun _ w' _ hne => absurd hc hne⟩
      rw [Engine.Live, hc] at hl
      cases hl.1
  | some conn =>
      obtain ⟨sock, hs⟩ := h.sound.tcp_socket hc
      have hl : w.engine.Live key conn sock := ⟨hc, hs⟩
      have hsends := Engine.sends_of_live hl
      have hroomy : w.Roomy key ↔ (TcpApi.state sock = .closed →
          ∀ tx, conn.appToOut = some tx → (rx sock).length ≤ tx.room) := by
        refine ⟨fun hr hst tx htx => hr conn sock tx hl hst htx,
          fun hr conn' sock' tx hl' hst htx => ?_⟩
        obtain ⟨rfl, rfl⟩ := hl.unique hl'
        exact hr hst tx htx
      have e := ConnManager.serviceTcp_eq hc hs
      by_cases hcl : TcpApi.state (serviceConn conn sock).2.2 = .closed
      · rw [if_pos hcl] at e
        rw [hroomy, ← (h.intact conn sock hl).removed hcl, ← hsends]
        constructor
        · intro hcomplete
          refine hcomplete ⟨⟨w.engine.mgr.closeTcp key, w.engine.sockets.erase conn.handle⟩,
            w.entered, w.sent ++ w.engine.sends key⟩ ⟨⟨_, e⟩, rfl, rfl⟩ (by rw [hc]; nofun) ?_
          rw [ConnManager.lookup_closeTcp, if_pos rfl]
        · rintro hall w' ⟨-, hent, hsent⟩ - -
          rw [hent, hsent, hall]
      · rw [if_neg hcl] at e
        rw [hroomy]
        refine iff_of_true ?_ fun hst => ?_
        · rintro w' ⟨⟨q, e'⟩, -, -⟩ - hgone
          rw [e] at e'
          have hm : { w.engine.mgr with
              tcp := w.engine.mgr.tcp.insert key (serviceConn conn sock).2.1 } = w'.engine.mgr :=
            congrArg (·.2.1) (Except.ok.inj e')
          rw [← hm] at hgone
          change Finmap.lookup key (w.engine.mgr.tcp.insert key _) = none at hgone
          rw [Finmap.lookup_insert] at hgone
          cases hgone
        · refine absurd ?_ hcl
          rcases serviceConn_state conn sock with he | he <;> rw [he, hst]
          rfl
end Upload

/-- The passes of a run, with a property of the state each of them finds. -/
def AtPass (P : Upload T U → Prop) (w : Upload T U) (e : UploadEvent T) : Prop :=
  e = .pass → P w

/-- From the opening of a flow, the runs in which no removal loses bytes are the runs in which each
pass that finds the socket Closed has room for what is left in the receive queue. -/
theorem relay_complete_iff {key : FourTuple} {w₀ : Upload T U} (h : Opened key w₀)
    (es : List (UploadEvent T)) (w : Upload T U) :
    Run (Guarded (AtPass (Upload.Complete key)) (UploadStep key)) w₀ es w ↔
      Run (Guarded (AtPass (Upload.Roomy key)) (UploadStep key)) w₀ es w := by
  refine Run.guarded_congr (I := Upload.Inv key) (fun _ _ _ hi _ => hi.step) (fun w e hi => ?_)
    (.opened h)
  exact forall_congr' fun _ => Upload.complete_iff hi

/-! ### A channel that is full when the last ACK comes -/

namespace Upload

/-- The state an event leads to. -/
def apply (key : FourTuple) (w : Upload T U) : UploadEvent T → Upload T U
  | .poll sock data =>
    match w.engine.mgr.tcp.lookup key with
    | some conn => ⟨⟨w.engine.mgr, w.engine.sockets.insert conn.handle (.tcp sock)⟩,
        w.entered ++ data, w.sent⟩
    | none => w
  | .pass =>
    match w.engine.mgr.serviceTcp w.engine.sockets key with
    | .ok (_, m, sockets) => ⟨⟨m, sockets⟩, w.entered, w.sent ++ w.engine.sends key⟩
    | .error _ => w
  | .egress act => ⟨⟨w.engine.mgr.egress act (.tcp key), w.engine.sockets⟩, w.entered, w.sent⟩

def enabled (key : FourTuple) (w : Upload T U) : UploadEvent T → Bool
  | .poll sock data =>
    match w.engine.mgr.tcp.lookup key with
    | some conn =>
      match w.engine.sockets.lookup conn.handle with
      | some (.tcp old) => (rx sock).flatten == (rx old).flatten ++ data &&
          (TcpApi.state old).orderly (TcpApi.state sock) &&
          ((TcpApi.state old).receives || data.isEmpty)
      | _ => false
    | none => false
  | .pass => true
  | .egress act => act ≠ .dropRx

/-- The test of `Roomy`. -/
def roomy (key : FourTuple) (w : Upload T U) : Bool :=
  match w.engine.mgr.tcp.lookup key with
  | some conn =>
    match w.engine.sockets.lookup conn.handle, conn.appToOut with
    | some (.tcp sock), some tx => TcpApi.state sock != .closed || decide ((rx sock).length ≤ tx.room)
    | _, _ => true
  | none => true

theorem step_of_enabled {key : FourTuple} {w : Upload T U} {e : UploadEvent T} (h : w.Inv key)
    (he : w.enabled key e = true) : UploadStep key w e (w.apply key e) := by
  cases e with
  | poll sock data =>
      unfold enabled at he
      unfold apply
      dsimp only at he ⊢
      cases hc : w.engine.mgr.tcp.lookup key with
      | none =>
          rw [hc] at he
          cases he
      | some conn =>
          obtain ⟨old, hs⟩ := h.sound.tcp_socket hc
          rw [hc] at he
          dsimp only at he
          rw [hs] at he
          simp only [Bool.and_eq_true, Bool.or_eq_true, beq_iff_eq, List.isEmpty_iff] at he
          refine ⟨conn, old, ⟨hc, hs⟩, ⟨he.1.1, he.1.2, fun hno => ?_⟩, rfl⟩
          exact he.2.resolve_left (by rw [hno]; nofun)
  | pass =>
      obtain ⟨q, m, sockets, e, -⟩ := h.sound.serviceTcp key
      unfold apply
      dsimp only
      rw [e]
      exact ⟨⟨q, e⟩, rfl, rfl⟩
  | egress act =>
      unfold enabled at he
      exact ⟨by simpa using he, rfl⟩

omit [UdpApi U] in
theorem roomy_of_test {key : FourTuple} {w : Upload T U} (h : w.roomy key = true) :
    w.Roomy key := by
  rintro conn sock tx ⟨hc, hs⟩ hst htx
  unfold roomy at h
  rw [hc] at h
  dsimp only at h
  rw [hs, htx] at h
  simpa [hst] using h

end Upload

def webKey : FourTuple := ⟨webSyn.src, webSyn.dst⟩

/-- A flow that has just been opened. -/
def webOpened : Upload SimTcp SimUdp :=
  ⟨(Engine.new SimTcp SimUdp).apply (.onPacket webSyn 0 0), [], []⟩

theorem webOpened_opened : Opened webKey webOpened :=
  ⟨⟨_, webSyn, 0, 0, .new, ConnStep.of_enabled Sound.new (by decide +kernel), rfl, rfl⟩,
    by decide +kernel, rfl, rfl⟩

/-- The app connects and sends bytes, each serviced as it comes, while the egress task reads
nothing. -/
def streamed (n : ℕ) : List (UploadEvent SimTcp) :=
  [.poll ⟨.synReceived, []⟩ [], .poll ⟨.established, []⟩ [], .pass] ++
    (List.replicate n [.poll ⟨.established, [7]⟩ [7], .pass]).flatten

/-- The server's end comes first, with the channel half full.  Between two passes the app acknowledges
the FIN, sends two bytes more and a FIN of its own, and the socket is closed. -/
def endedUpload : List (UploadEvent SimTcp) :=
  streamed 64 ++ [.egress .dropTx, .pass, .poll ⟨.finWait2, []⟩ [], .poll ⟨.finWait2, [7]⟩ [7],
    .poll ⟨.finWait2, [7, 7]⟩ [7], .poll ⟨.timeWait, [7, 7]⟩ [], .poll ⟨.closed, [7, 7]⟩ [], .pass]

/-- The flow is removed with all 66 bytes sent. -/
theorem relay_complete_ended : ∃ w : Upload SimTcp SimUdp,
    Run (Guarded (AtPass (Upload.Complete webKey)) (UploadStep webKey)) webOpened endedUpload w ∧
      w.engine.mgr.tcp.lookup webKey = none ∧ w.sent.flatten = List.replicate 66 7 := by
  have hr : Run (Guarded (AtPass (Upload.Roomy webKey)) (UploadStep webKey)) webOpened
      endedUpload _ :=
    Run.of_allAlong (I := Upload.Inv webKey) (fun _ _ _ hi hs => hi.step hs.1)
      (fun w e hi he =>
        have he := Bool.and_eq_true_iff.mp he
        ⟨Upload.step_of_enabled hi he.1, fun _ => Upload.roomy_of_test he.2⟩)
      (by decide +kernel) (.opened webOpened_opened)
  exact ⟨_, (relay_complete_iff webOpened_opened _ _).mpr hr, by decide +kernel, by decide +kernel⟩

/-- The channel is full.  The app's FIN comes, the server's end has come, and the last ACK closes the
socket. -/
def stalledUpload : List (UploadEvent SimTcp) :=
  streamed 129 ++
    [.poll ⟨.closeWait, [7]⟩ [], .egress .dropTx, .pass, .poll ⟨.closed, [7]⟩ []]

/-- The next pass removes the flow with the last byte unread. -/
theorem closed_flow_loses_bytes : ∃ w : Upload SimTcp SimUdp, Opened webKey webOpened ∧
    Run (UploadStep webKey) webOpened stalledUpload w ∧ ¬ w.Complete webKey := by
  have hr : Run (UploadStep webKey) webOpened stalledUpload _ :=
    Run.of_allAlong (I := Upload.Inv webKey) (fun _ _ _ => Upload.Inv.step)
      (fun _ _ => Upload.step_of_enabled) (by decide +kernel) (.opened webOpened_opened)
  have hi := hr.invariant (I := Upload.Inv webKey) (fun _ _ _ => Upload.Inv.step)
    (.opened webOpened_opened)
  refine ⟨_, webOpened_opened, hr, fun hc => ?_⟩
  have hs := Upload.step_of_enabled (e := .pass) hi rfl
  exact absurd (hc _ hs (by decide +kernel) (by decide +kernel)) (by decide +kernel)

end Tunnel.Conn
