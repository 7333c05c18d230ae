import Tunnel.Conn.Queues

/-!
# Conn — What a flow holds

The memory a TCP flow pins against the charge it was admitted for: its two socket buffers, the server
bytes in `pending_out` and in the channel from the egress, and the app bytes in the channel to the
egress, which a half-close leaves to the egress task.

A dispatch is taken apart into its expiry and its service passes, so that the states between two passes
are among those a run goes through, and so that passes come in any order and number.

* `Became`: what one step does to one flow.
* `Load.Inv.within_step`: the step that keeps every flow within its charge, and no other, meets `Fits`.
* `charge_bounds_iff`: the runs within the charges and the budget are the runs whose every step meets
  `Fits`.
* `dispatch_run`: a dispatch is such a run.
-/

namespace Tunnel.Conn
open Support TcpLaws TcpBufferLaws

/-- The reader's buffer. -/
def READ_CHUNK : ℕ := 16 * 1024

variable {T U : Type}

/-! ### Runs of passes -/

/-- The engine, and what each flow's channel to the egress holds. -/
structure Load (T U : Type) where
  engine : Engine T U
  outbox : FourTuple → List Bytes

inductive LoadEvent (T U : Type) where
  /-- Anything but a dispatch. -/
  | between (e : ConnEvent T U)
  /-- The head of a dispatch: what is due is retired, and the ready queue is taken. -/
  | expire (now : Instant)
  | passTcp (key : FourTuple)
  | passUdp (key : FourTuple) (now : Instant)

/-- The reader of a TCP flow delivers what fits its buffer. -/
def ConnEvent.Reads : ConnEvent T U → Prop
  | .dispatch _ => False
  | .egress (.tcp _) (.send data) => data.length ≤ READ_CHUNK
  | _ => True

/-- What an act of the egress task leaves of the chunks in its channel. -/
def EgressAct.left : EgressAct → List Bytes → List Bytes
  | .recv, chunks => chunks.tail
  | .dropRx, _ => []
  | _, chunks => chunks

/-- The channels after an event that leads to `s`.  A new flow has a new one. -/
def Load.next (w : Load T U) (s : Engine T U) : ConnEvent T U → Load T U
  | .onPacket _ _ _ => ⟨s, fun key => if w.engine.mgr.tcp.lookup key = none then [] else w.outbox key⟩
  | .egress (.tcp key) act => ⟨s, Function.update w.outbox key (act.left (w.outbox key))⟩
  | _ => ⟨s, w.outbox⟩

variable [TcpApi T] [UdpApi U]

def Load.new (T U : Type) [UdpApi U] : Load T U := ⟨.new T U, fun _ => []⟩

def LoadStep (w : Load T U) : LoadEvent T U → Load T U → Prop
  | .between e, w' => e.Reads ∧ ConnStep w.engine e w'.engine ∧ w' = w.next w'.engine e
  | .expire now, w' =>
    (∃ m, w.engine.mgr.expire w.engine.sockets now = .ok (m, w'.engine.sockets) ∧
      w'.engine.mgr = { m with ready := .new }) ∧ w'.outbox = w.outbox
  | .passTcp key, w' =>
    (∃ queued, w.engine.mgr.serviceTcp w.engine.sockets key =
      .ok (queued, w'.engine.mgr, w'.engine.sockets)) ∧
      w'.outbox = Function.update w.outbox key (w.outbox key ++ w.engine.sends key)
  | .passUdp key now, w' =>
    (∃ queued, w.engine.mgr.serviceUdp w.engine.sockets key now =
      .ok (queued, w'.engine.mgr, w'.engine.sockets)) ∧ w'.outbox = w.outbox

/-! ### What one step does to one flow -/

/-- The flow that the step leaves under `key`, with the chunks in its channel. -/
inductive Became (w : Load T U) (e : LoadEvent T U) (key : FourTuple) :
    TcpConn → List Bytes → Prop where
  | opened (handle : ℕ) (deadline : Instant) (hn : w.engine.mgr.tcp.lookup key = none) :
      Became w e key ⟨handle, some .new, .new, .empty, false, false, deadline⟩ []
  | kept {conn : TcpConn} (hc : w.engine.mgr.tcp.lookup key = some conn) :
      Became w e key conn (w.outbox key)
  | acted {conn : TcpConn} (act : EgressAct) (he : e = .between (.egress (.tcp key) act))
      (hc : w.engine.mgr.tcp.lookup key = some conn) :
      Became w e key (conn.egress act) (act.left (w.outbox key))
  | passed {conn : TcpConn} {sock : T} (he : e = .passTcp key)
      (hl : w.engine.Live key conn sock)
      (hne : TcpApi.state (serviceConn conn sock).2.2 ≠ .closed) :
      Became w e key (serviceConn conn sock).2.1 (w.outbox key ++ conn.sends sock)

variable {w w' : Load T U} {e : LoadEvent T U}

theorem became_between {e : ConnEvent T U} (h : LoadStep w (.between e) w') {key : FourTuple}
    {conn' : TcpConn} (hc' : w'.engine.mgr.tcp.lookup key = some conn') :
    Became w (.between e) key conn' (w'.outbox key) := by
  obtain ⟨hr, he, hw⟩ := h
  cases e with
  | onPacket flow handle now =>
      have hm : (w.engine.mgr.onPacket w.engine.sockets flow handle now).1 = w'.engine.mgr :=
        congrArg Prod.fst he.2
      rw [hw]
      rw [← hm] at hc'
      rcases ConnManager.onPacket_tcp hc' with hc | ⟨hn, rfl, -⟩
      · simp only [Load.next, hc]
        exact .kept hc
      · simp only [Load.next, hn]
        exact .opened handle _ hn
  | dispatch now => exact hr.elim
  | pollTcp handle sock =>
      rw [he.2] at hc'
      rw [hw]
      exact .kept hc'
  | pollUdp handle sock =>
      rw [he.2] at hc'
      rw [hw]
      exact .kept hc'
  | mark id =>
      change w'.engine = _ at he
      rw [he] at hc'
      rw [hw]
      exact .kept hc'
  | egress id act =>
      change w'.engine = _ at he
      rw [he] at hc'
      rw [hw]
      dsimp only at hc'
      cases id with
      | tcp key' =>
          rw [ConnManager.lookup_egress] at hc'
          by_cases hk : key = key'
          · subst hk
            rw [if_pos rfl] at hc'
            obtain ⟨conn, hc, rfl⟩ := Option.map_eq_some_iff.mp hc'
            simp only [Load.next, Function.update_self]
            exact .acted act rfl hc
          · rw [if_neg hk] at hc'
            simp only [Load.next, Function.update_of_ne hk]
            exact .kept hc'
      | udp key' =>
          rw [ConnManager.egress_udp] at hc'
          exact .kept hc'

theorem became_passTcp (hs : Sound w.engine.mgr w.engine.sockets) {key' : FourTuple}
    (h : LoadStep w (.passTcp key') w') {key : FourTuple} {conn' : TcpConn}
    (hc' : w'.engine.mgr.tcp.lookup key = some conn') :
    Became w (.passTcp key') key conn' (w'.outbox key) := by
  obtain ⟨⟨q, he⟩, hout⟩ := h
  rw [hout]
  by_cases hk : key = key'
  · subst hk
    rw [Function.update_self]
    rcases serviceTcp_cases hs he with ⟨hn, hm, -⟩ | ⟨conn, sock, hc, hsock, hcase⟩
    · rw [hm, hn] at hc'
      cases hc'
    rw [Engine.sends_of_live ⟨hc, hsock⟩]
    rcases hcase with ⟨-, hm, -⟩ | ⟨hne, hm, -⟩
    · -- the pass has removed the flow
      rw [hm, ConnManager.lookup_closeTcp, if_pos rfl] at hc'
      cases hc'
    · rw [hm] at hc'
      change Finmap.lookup key (w.engine.mgr.tcp.insert key _) = _ at hc'
      rw [Finmap.lookup_insert] at hc'
      cases hc'
      exact .passed rfl ⟨hc, hsock⟩ hne
  · rw [Function.update_of_ne hk]
    exact .kept ((serviceTcp_of_ne hs hk he).1.symm.trans hc')

/-- Every step, for each flow it leaves. -/
theorem became (hs : Sound w.engine.mgr w.engine.sockets) (h : LoadStep w e w') {key : FourTuple}
    {conn' : TcpConn} (hc' : w'.engine.mgr.tcp.lookup key = some conn') :
    Became w e key conn' (w'.outbox key) := by
  cases e with
  | between e => exact became_between h hc'
  | expire now =>
      obtain ⟨⟨m, he, hm⟩, hout⟩ := h
      rw [hm] at hc'
      rw [hout]
      rcases expireLoop_keeps hs he key with ⟨hk, -⟩ | ⟨hk, -⟩
      · exact .kept (hk.symm.trans hc')
      · exact absurd (hk.symm.trans hc') nofun
  | passTcp key' => exact became_passTcp hs h hc'
  | passUdp key' now =>
      obtain ⟨⟨q, he⟩, hout⟩ := h
      rw [hout]
      rcases serviceUdp_cases hs he with ⟨-, hm, -⟩ | ⟨conn, sock, -, -, hm, -⟩
      · rw [hm] at hc'
        exact .kept hc'
      · rw [hm] at hc'
        exact .kept hc'

/-! ### What is charged and what is held -/

/-- The bytes of a flow outside its socket buffers. -/
def Load.waiting (w : Load T U) (key : FourTuple) (conn : TcpConn) : ℕ :=
  conn.inbound + queuedBytes (w.outbox key)

/-- The bytes a flow holds. -/
def Load.held (w : Load T U) (key : FourTuple) (conn : TcpConn) : ℕ :=
  2 * TCP_BUF + conn.pendingOut.len + queuedBytes conn.outToApp.queue + queuedBytes (w.outbox key)

/-- Each flow is within its charge, and all of them are within the budget. -/
structure Bounded (w : Load T U) : Prop where
  flow : ∀ key conn, w.engine.mgr.tcp.lookup key = some conn → w.held key conn ≤ TCP_FLOW_COST
  total : Finmap.total w.held w.engine.mgr.tcp ≤ TCP_MEM_BUDGET

/-- A delivery fits beside what waits.  So do the parts a pass relays, once smoltcp has taken what its
send buffer has room for; a pass over a closed socket removes the flow. -/
def Fits [TcpBufferLaws T] (w : Load T U) : LoadEvent T U → Prop
  | .between (.egress (.tcp key) (.send data)) =>
    ∀ conn, w.engine.mgr.tcp.lookup key = some conn → conn.outToApp.canReserve = true →
      w.waiting key conn + data.length ≤ TCP_BUF
  | .passTcp key =>
    ∀ conn sock, w.engine.Live key conn sock → TcpApi.state sock ≠ .closed →
      conn.inbound - txRoom sock + queuedBytes (w.outbox key) + queuedBytes (conn.takes sock) ≤ TCP_BUF
  | _ => True

namespace Load

/-- `outbox` is the channel for as long as the manager has its end. -/
structure Inv (w : Load T U) : Prop where
  sound : Sound w.engine.mgr w.engine.sockets
  pending : ∀ key conn, w.engine.mgr.tcp.lookup key = some conn → conn.pendingOut.Wf
  outbox : ∀ key conn tx, w.engine.mgr.tcp.lookup key = some conn → conn.appToOut = some tx →
    tx.queue = w.outbox key

/-- Each flow has `TCP_BUF` for what is outside its socket buffers. -/
def Within (w : Load T U) : Prop :=
  ∀ key conn, w.engine.mgr.tcp.lookup key = some conn → w.waiting key conn ≤ TCP_BUF

omit [TcpApi T] in
/-- The budget admits no more flows than it has charges for. -/
theorem bounded_iff {w : Load T U} (h : Sound w.engine.mgr w.engine.sockets) :
    Bounded w ↔ w.Within := by
  have hheld : ∀ key conn, w.held key conn ≤ TCP_FLOW_COST ↔ w.waiting key conn ≤ TCP_BUF := by
    intro key conn
    rw [held, waiting, TcpConn.inbound, TCP_FLOW_COST]
    omega
  constructor
  · intro hb key conn hc
    exact (hheld key conn).mp (hb.flow key conn hc)
  · intro hw
    have hflow : ∀ key conn, w.engine.mgr.tcp.lookup key = some conn →
        w.held key conn ≤ TCP_FLOW_COST := fun key conn hc => (hheld key conn).mpr (hw key conn hc)
    exact ⟨hflow, (Finmap.total_le_mul_size hflow).trans h.tcp.bytes_le⟩

end Load

theorem inbound_egress (conn : TcpConn) (act : EgressAct) :
    (conn.egress act).pendingOut = conn.pendingOut ∧
      ((∀ data, act ≠ .send data) → (conn.egress act).inbound = conn.inbound) ∧
      ∀ data, act = .send data → (conn.egress act).inbound =
        conn.inbound + if conn.outToApp.canReserve then data.length else 0 := by
  refine ⟨rfl, fun hno => ?_, fun data he => ?_⟩
  · cases act with
    | send data => exact absurd rfl (hno data)
    | recv | dropRx | dropTx => rfl
  · subst he
    have hout : (conn.egress (.send data)).outToApp =
        if conn.outToApp.canReserve then conn.outToApp.send data else conn.outToApp := rfl
    unfold TcpConn.inbound
    rw [hout]
    split
    · simp [Chan.send, TcpConn.egress, Nat.add_assoc]
    · rfl

theorem left_le (act : EgressAct) (chunks : List Bytes) :
    queuedBytes (act.left chunks) ≤ queuedBytes chunks := by
  cases act with
  | recv => exact queuedBytes_tail_le chunks
  | dropRx => exact Nat.zero_le _
  | send | dropTx => exact le_rfl

namespace Load

variable [TcpBufferLaws T]

omit [TcpApi T] [UdpApi U] [TcpBufferLaws T] in
/-- A flow's own end of the channel, after an act of the egress task. -/
theorem egress_queue {conn : TcpConn} {act : EgressAct} {tx' : Chan}
    (h : (conn.egress act).appToOut = some tx') :
    ∃ tx, conn.appToOut = some tx ∧ tx'.queue = act.left tx.queue := by
  obtain ⟨tx, htx, rfl⟩ := Option.map_eq_some_iff.mp h
  refine ⟨tx, htx, ?_⟩
  cases act <;> rfl

theorem Inv.became (h : w.Inv) {key : FourTuple} {conn : TcpConn} {chunks : List Bytes}
    (hb : Became w e key conn chunks) :
    conn.pendingOut.Wf ∧ ∀ tx, conn.appToOut = some tx → tx.queue = chunks := by
  cases hb with
  | opened handle deadline hn =>
      refine ⟨.empty, fun tx htx => ?_⟩
      cases htx
      rfl
  | kept hc => exact ⟨h.pending key conn hc, fun tx htx => h.outbox key conn tx hc htx⟩
  | @acted conn act he hc =>
      refine ⟨h.pending key conn hc, fun tx htx => ?_⟩
      obtain ⟨tx₀, htx₀, hq⟩ := egress_queue htx
      rw [hq, h.outbox key conn tx₀ hc htx₀]
  | passed he hl hne =>
      refine ⟨serviceConn_wf _ (h.pending key _ hl.1), fun tx htx => ?_⟩
      obtain ⟨tx₀, htx₀, hq⟩ := serviceConn_appToOut htx
      rw [hq, h.outbox key _ tx₀ hl.1 htx₀, sends_eq]

omit [TcpBufferLaws T] in
theorem Inv.sound_step (h : w.Inv) (hs : LoadStep w e w') :
    Sound w'.engine.mgr w'.engine.sockets := by
  cases e with
  | between e => exact h.sound.step hs.2.1
  | expire now =>
      obtain ⟨⟨m, he, hm⟩, -⟩ := hs
      obtain ⟨m', sockets', e', h'⟩ := h.sound.expireLoop now w.engine.mgr.deadlines.length
      change w.engine.mgr.expire w.engine.sockets now = _ at e'
      rw [he] at e'
      cases e'
      rw [hm]
      exact h'.drained
  | passTcp key =>
      obtain ⟨⟨q, he⟩, -⟩ := hs
      obtain ⟨q', m', sockets', e', h'⟩ := h.sound.serviceTcp key
      rw [he] at e'
      cases e'
      exact h'
  | passUdp key now =>
      obtain ⟨⟨q, he⟩, -⟩ := hs
      obtain ⟨q', m', sockets', e', h'⟩ := h.sound.serviceUdp key now
      rw [he] at e'
      cases e'
      exact h'

theorem Inv.step (h : w.Inv) (hs : LoadStep w e w') : w'.Inv := by
  refine ⟨h.sound_step hs, fun key conn hc => ?_, fun key conn tx hc htx => ?_⟩
  · exact (h.became (Conn.became h.sound hs hc)).1
  · exact (h.became (Conn.became h.sound hs hc)).2 tx htx

/-- The flow of a step that may add bytes. -/
theorem Inv.waiting (h : w.Inv) (hw : w.Within) {key : FourTuple} {conn : TcpConn}
    {chunks : List Bytes} (hf : Fits w e) (hb : Became w e key conn chunks) :
    conn.inbound + queuedBytes chunks ≤ TCP_BUF := by
  cases hb with
  | opened handle deadline hn => exact Nat.zero_le _
  | kept hc => exact hw key conn hc
  | @acted conn act he hc =>
      obtain ⟨-, hstill, hsend⟩ := inbound_egress conn act
      have hleft := left_le act (w.outbox key)
      have hwait := hw key conn hc
      rw [Load.waiting] at hwait
      by_cases hact : ∃ data, act = .send data
      · obtain ⟨data, rfl⟩ := hact
        rw [hsend data rfl]
        subst he
        have hfit := hf conn hc
        rw [Load.waiting] at hfit
        split
        · next hcan =>
            have hroom := hfit hcan
            omega
        · omega
      · rw [hstill fun data hd => hact ⟨data, hd⟩]
        omega
  | @passed conn sock he hl hne =>
      subst he
      have hwait := hw key conn hl.1
      rw [Load.waiting] at hwait
      have hst : TcpApi.state sock ≠ .closed := by
        intro hcl
        rcases serviceConn_state conn sock with hs | hs <;> rw [hs, hcl] at hne <;> exact hne rfl
      have hfit := hf conn sock hl hst
      rw [serviceConn_inbound sock (h.pending key conn hl.1) (by omega), sends_eq, queuedBytes_append]
      omega

/-- A socket that `close` has just closed has received nothing, so the pass has relayed nothing. -/
theorem takes_of_closed {conn : TcpConn} {sock : T} (hst : TcpApi.state sock ≠ .closed)
    (hcl : TcpApi.state (serviceConn conn sock).2.2 = .closed) : conn.takes sock = [] := by
  have hun : TcpApi.state sock = .listen ∨ TcpApi.state sock = .synSent := by
    rcases serviceConn_state conn sock with hs | hs
    · exact absurd (hs.symm.trans hcl) hst
    · exact (TcpState.close_eq_closed (hs.symm.trans hcl)).resolve_left hst
  unfold TcpConn.takes
  rw [rx_unopened sock hun]
  split <;> simp

theorem Inv.within_step (h : w.Inv) (hw : w.Within) (hs : LoadStep w e w') :
    w'.Within ↔ Fits w e := by
  refine ⟨fun hw' => ?_, fun hf key conn hc => h.waiting hw hf (Conn.became h.sound hs hc)⟩
  cases e with
  | between e =>
      cases e with
      | egress id act =>
          cases id with
          | udp key => trivial
          | tcp key =>
              cases act with
              | recv | dropRx | dropTx => trivial
              | send data =>
                  intro conn hc hcan
                  obtain ⟨-, he, hnext⟩ := hs
                  change w'.engine = _ at he
                  have hnew : w'.engine.mgr.tcp.lookup key = some (conn.egress (.send data)) := by
                    rw [he, ConnManager.lookup_egress, if_pos rfl, hc]
                    rfl
                  have hwait := hw' key _ hnew
                  have hout : w'.outbox key = w.outbox key := by
                    rw [hnext]
                    exact Function.update_self ..
                  rw [Load.waiting, hout, (inbound_egress conn _).2.2 data rfl, if_pos hcan] at hwait
                  rw [Load.waiting]
                  omega
      | onPacket | dispatch | pollTcp | pollUdp | mark => trivial
  | expire now => trivial
  | passUdp key now => trivial
  | passTcp key =>
      intro conn sock hl hst
      have hwait := hw key conn hl.1
      rw [Load.waiting] at hwait
      obtain ⟨⟨q, he⟩, hout⟩ := hs
      rcases serviceTcp_cases h.sound he with ⟨hn, -⟩ | ⟨conn', sock', hc, hsock, hcase⟩
      · exact absurd (hn.symm.trans hl.1) nofun
      obtain ⟨rfl, rfl⟩ := Engine.Live.unique hl ⟨hc, hsock⟩
      rcases hcase with ⟨hcl, -⟩ | ⟨-, hm, -⟩
      · rw [takes_of_closed hst hcl, queuedBytes_nil]
        omega
      · have hnew : w'.engine.mgr.tcp.lookup key = some (serviceConn conn sock).2.1 := by
          rw [hm]
          exact Finmap.lookup_insert _
        have hwait' := hw' key _ hnew
        have hsends : w.engine.sends key = conn.takes sock :=
          (Engine.sends_of_live hl).trans (sends_eq conn sock)
        rw [Load.waiting, hout, Function.update_self, hsends, queuedBytes_append,
          serviceConn_inbound sock (h.pending key conn hc) (by omega)] at hwait'
        omega

omit [TcpApi T] [TcpBufferLaws T] in
theorem inv_new : (Load.new T U).Inv := ⟨Sound.new, nofun, nofun⟩

omit [TcpApi T] [TcpBufferLaws T] in
theorem within_new : (Load.new T U).Within := nofun

end Load

/-- **The charge is a bound** in the runs whose every delivery and every pass fits, and in no others. -/
theorem charge_bounds_iff [TcpBufferLaws T] (es : List (LoadEvent T U)) (w : Load T U) :
    Run (Keeping Bounded LoadStep) (.new T U) es w ↔
      Run (Guarded Fits LoadStep) (.new T U) es w := by
  refine Run.keeping_iff_guarded (I := Load.Inv) (fun _ _ _ => Load.Inv.step)
    (fun w e w' hi hb hs => ?_) Load.inv_new ((Load.bounded_iff Sound.new).mpr Load.within_new)
  rw [Load.bounded_iff (hi.step hs).sound]
  exact hi.within_step ((Load.bounded_iff hi.sound).mp hb) hs

/-! ### A dispatch -/

theorem serviceAll_run {now : Instant} {ids : List FlowId} {queued q : Bool}
    {m m' : ConnManager} {sockets sockets' : SocketSet T U} (h : Sound m sockets)
    (he : ConnManager.serviceAll now ids queued m sockets = .ok (q, m', sockets'))
    (outbox : FourTuple → List Bytes) :
    ∃ es outbox', Run LoadStep ⟨⟨m, sockets⟩, outbox⟩ es ⟨⟨m', sockets'⟩, outbox'⟩ := by
  induction ids generalizing queued m sockets outbox with
  | nil =>
      cases he
      exact ⟨[], outbox, .refl _⟩
  | cons id ids ih =>
      unfold ConnManager.serviceAll at he
      cases id with
      | tcp key =>
          obtain ⟨q₁, m₁, sockets₁, e₁, h₁⟩ := h.serviceTcp key
          dsimp only at he
          rw [e₁, ok_bind] at he
          obtain ⟨es, outbox', hr⟩ := ih h₁ he
            (Function.update outbox key (outbox key ++ Engine.sends ⟨m, sockets⟩ key))
          have hpass : LoadStep ⟨⟨m, sockets⟩, outbox⟩ (.passTcp key) ⟨⟨m₁, sockets₁⟩,
              Function.update outbox key (outbox key ++ Engine.sends ⟨m, sockets⟩ key)⟩ :=
            ⟨⟨q₁, e₁⟩, rfl⟩
          exact ⟨.passTcp key :: es, outbox', .more hpass hr⟩
      | udp key =>
          obtain ⟨q₁, m₁, sockets₁, e₁, h₁⟩ := h.serviceUdp key now
          dsimp only at he
          rw [e₁, ok_bind] at he
          obtain ⟨es, outbox', hr⟩ := ih h₁ he outbox
          have hpass : LoadStep ⟨⟨m, sockets⟩, outbox⟩ (.passUdp key now)
              ⟨⟨m₁, sockets₁⟩, outbox⟩ := ⟨⟨q₁, e₁⟩, rfl⟩
          exact ⟨.passUdp key now :: es, outbox', .more hpass hr⟩

/-- A dispatch is its expiry, and then its passes one by one. -/
theorem dispatch_run {s s' : Engine T U} {now : Instant} (h : Sound s.mgr s.sockets)
    (hs : ConnStep s (.dispatch now) s') (outbox : FourTuple → List Bytes) :
    ∃ es outbox', Run LoadStep ⟨s, outbox⟩ (.expire now :: es) ⟨s', outbox'⟩ := by
  obtain ⟨q, he⟩ := hs
  obtain ⟨m₁, sockets₁, e₁, h₁, e₂⟩ := dispatch_split h he
  obtain ⟨es, outbox', hr⟩ := serviceAll_run h₁.drained e₂ outbox
  have hexpire : LoadStep ⟨s, outbox⟩ (.expire now)
      ⟨⟨{ m₁ with ready := .new }, sockets₁⟩, outbox⟩ := ⟨⟨m₁, e₁, rfl⟩, rfl⟩
  exact ⟨es, outbox', .more hexpire hr⟩

/-! ### A burst from the server -/

/-- The egress task delivers a chunk again and again, and no pass comes. -/
theorem deliveries_run {w : Load T U} {key : FourTuple} {conn : TcpConn} (chunk : Bytes) (n : ℕ)
    (hc : w.engine.mgr.tcp.lookup key = some conn) (hp : conn.outToApp.peer = true)
    (hn : conn.outToApp.queue.length + n ≤ CHAN_CAP) (hlen : chunk.length ≤ READ_CHUNK) :
    ∃ w' conn', Run LoadStep w
        (List.replicate n (.between (.egress (.tcp key) (.send chunk)))) w' ∧
      w'.engine.mgr.tcp.lookup key = some conn' ∧
      queuedBytes conn'.outToApp.queue = queuedBytes conn.outToApp.queue + n * chunk.length := by
  induction n generalizing w conn with
  | zero => exact ⟨w, conn, .refl w, hc, by simp⟩
  | succ n ih =>
      have hcan : (conn.outToApp.peer && conn.outToApp.queue.length < CHAN_CAP) = true := by
        rw [hp]
        simp
        omega
      have hout : (conn.egress (.send chunk)).outToApp = conn.outToApp.send chunk := if_pos hcan
      let s : Engine T U := { w.engine with mgr := w.engine.mgr.egress (.send chunk) (.tcp key) }
      have hstep : LoadStep w (.between (.egress (.tcp key) (.send chunk)))
          (w.next s (.egress (.tcp key) (.send chunk))) := ⟨hlen, rfl, rfl⟩
      have hc' : s.mgr.tcp.lookup key = some (conn.egress (.send chunk)) := by
        change (w.engine.mgr.egress _ _).tcp.lookup key = _
        rw [ConnManager.lookup_egress, if_pos rfl, hc]
        rfl
      obtain ⟨w', conn', hr, hl, hbytes⟩ := ih (w := w.next s (.egress (.tcp key) (.send chunk))) hc'
        (by rw [hout]; exact hp)
        (by rw [hout]; simp [Chan.send]; omega)
      refine ⟨w', conn', .more hstep hr, hl, ?_⟩
      rw [hbytes, hout, Nat.succ_mul]
      simp [Chan.send]
      omega

/-- Nine full reads right behind the SYN. -/
def burst : List (LoadEvent BufTcp SimUdp) :=
  .between (.onPacket webSyn 0 0) ::
    List.replicate 9 (.between (.egress (.tcp webKey) (.send (List.replicate READ_CHUNK 0))))

/-- The flow holds 16 KiB more than its charge. -/
theorem charge_exceeded : ∃ w : Load BufTcp SimUdp,
    Run LoadStep (.new BufTcp SimUdp) burst w ∧ ¬ Bounded w := by
  let s : Engine BufTcp SimUdp := (Engine.new BufTcp SimUdp).apply (.onPacket webSyn 0 0)
  let w₁ : Load BufTcp SimUdp := (Load.new BufTcp SimUdp).next s (.onPacket webSyn 0 0)
  have hopen : LoadStep (.new BufTcp SimUdp) (.between (.onPacket webSyn 0 0)) w₁ :=
    ⟨trivial, ConnStep.of_enabled Sound.new rfl, rfl⟩
  have hc : w₁.engine.mgr.tcp.lookup webKey =
      some ⟨0, some .new, .new, .empty, false, false, secs 10⟩ := by decide +kernel
  obtain ⟨w, conn, hr, hl, hbytes⟩ :=
    deliveries_run (List.replicate READ_CHUNK 0) 9 hc rfl (by decide) (by simp)
  refine ⟨w, .more hopen hr, fun hb => ?_⟩
  have hheld := hb.flow webKey conn hl
  rw [Load.held, hbytes, List.length_replicate] at hheld
  simp only [TCP_FLOW_COST, TCP_BUF, READ_CHUNK] at hheld
  omega

end Tunnel.Conn
