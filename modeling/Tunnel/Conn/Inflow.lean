import Mathlib.Logic.Relation
import Tunnel.Conn.Queues

/-!
# Conn — From the egress to the app

The bytes of one TCP flow on their way to the app: the chunks in the channel, those that are
pending, and what `send_slice` has accepted.

* `Recorded`: a socket with a record of what it has accepted, and of whether `close` was called on
  it.  The record changes nothing (`serviceConn_recorded`).
* `Stage`: the moves a service pass is made of (`serviceConn_stages`); between any two of them the
  bytes are where `Streaming` says.
* `inflow_streams`: so they are at every point of a run of passes, whatever the egress task sends
  and however much the socket accepts.
-/

namespace Tunnel.Conn
open Support

/-! ### Pending bytes -/

namespace Pending

/-- The bytes not yet handed to smoltcp. -/
def content (p : Pending) : Bytes := p.chunks.flatten.drop p.head

namespace Wf

variable {p : Pending}

theorem length_flatten (chunks : List Bytes) : chunks.flatten.length = queuedBytes chunks :=
  List.length_flatten

/-- `bytes` is their number. -/
theorem length_content (h : p.Wf) : p.content.length = p.bytes := by
  have hb := h.bytes_eq
  rw [content, List.length_drop, length_flatten]
  omega

theorem isEmpty_iff (h : p.Wf) : p.isEmpty = true ↔ p.content = [] := by
  rw [← List.length_eq_zero_iff, h.length_content, Pending.isEmpty, beq_iff_eq]

theorem content_push (h : p.Wf) (v : Bytes) : (p.push v).content = p.content ++ v := by
  have hb := h.bytes_eq
  unfold Pending.push
  split
  · next hv => rw [List.isEmpty_iff.mp hv, List.append_nil]
  · have hle : p.head ≤ p.chunks.flatten.length := by
      rw [length_flatten]
      omega
    change (p.chunks ++ [v]).flatten.drop p.head = p.chunks.flatten.drop p.head ++ v
    rw [List.flatten_append, List.flatten_singleton, List.drop_append_of_le_length hle]

/-- `front` is the beginning of them. -/
theorem content_eq (h : p.Wf) : p.content = p.front ++ p.chunks.tail.flatten := by
  unfold content Pending.front
  cases hc : p.chunks with
  | nil => simp
  | cons c rest =>
      have hlt := h.head_lt c rest hc
      dsimp only
      rw [List.flatten_cons, List.drop_append_of_le_length (by omega)]
      rfl

/-- It is empty only when there are none. -/
theorem front_ne_nil_iff (h : p.Wf) : p.front ≠ [] ↔ p.content ≠ [] := by
  rw [h.content_eq]
  unfold Pending.front
  cases hc : p.chunks with
  | nil => simp
  | cons c rest =>
      have hlt := h.head_lt c rest hc
      have hne : c.drop p.head ≠ [] := by
        rw [ne_eq, List.drop_eq_nil_iff]
        omega
      simp [hne]

/-- What is advanced over is the beginning of them. -/
theorem content_advance (h : p.Wf) (n : ℕ) (hne : p.isEmpty = false) :
    p.content = p.front.take n ++ (p.advance n).content := by
  obtain ⟨c, rest, hc, -, hhead⟩ := h.front hne
  have hf : p.front = c.drop p.head := by rw [Pending.front, hc]
  have hdrop : p.content = p.front.take n ++ (c.drop (p.head + n) ++ rest.flatten) := by
    rw [h.content_eq, hc, hf, ← List.drop_drop, ← List.append_assoc, List.take_append_drop]
    rfl
  rw [hdrop]
  unfold Pending.advance
  simp only [hc]
  split
  · next hle =>
      rw [content, List.drop_zero, List.drop_eq_nil_of_le hle, List.nil_append]
  · next hlt =>
      change _ = p.front.take n ++ (c :: rest).flatten.drop (p.head + n)
      rw [List.flatten_cons, List.drop_append_of_le_length (by omega)]

end Wf

end Pending

/-! ### A socket with a record -/

/-- What `send_slice` documents: it accepts a prefix. -/
class TcpSendLaws (T : Type) [TcpApi T] : Prop where
  sendSlice_le : ∀ (sock : T) (data : Bytes) (n : ℕ),
    (TcpApi.sendSlice sock data).1 = some n → n ≤ data.length

/-- A socket, the bytes that `send_slice` has accepted on it, and whether `close` was called. -/
structure Recorded (T : Type) where
  sock : T
  accepted : Bytes
  closed : Bool
deriving DecidableEq

variable {T : Type} [TcpApi T]

instance : TcpApi (Recorded T) where
  listen addr := (TcpApi.listen addr).map fun sock => ⟨sock, [], false⟩
  state r := TcpApi.state r.sock
  canSend r := TcpApi.canSend r.sock
  sendSlice r data :=
    ((TcpApi.sendSlice r.sock data).1, { r with
      sock := (TcpApi.sendSlice r.sock data).2
      accepted := r.accepted ++ data.take ((TcpApi.sendSlice r.sock data).1.getD 0) })
  canRecv r := TcpApi.canRecv r.sock
  mayRecv r := TcpApi.mayRecv r.sock
  recv r := ((TcpApi.recv r.sock).1, { r with sock := (TcpApi.recv r.sock).2 })
  close r := { r with sock := TcpApi.close r.sock, closed := true }
  abort r := { r with sock := TcpApi.abort r.sock }

/-- An offer leaves the record with what was accepted of it. -/
theorem Recorded.sendSlice_eq {r r' : Recorded T} {data : Bytes} {res : Option ℕ}
    (e : TcpApi.sendSlice r data = (res, r')) :
    (TcpApi.sendSlice r.sock data).1 = res ∧
      r'.accepted = r.accepted ++ data.take (res.getD 0) ∧ r'.closed = r.closed := by
  cases e
  exact ⟨rfl, rfl, rfl⟩

theorem drainPending_recorded (n : ℕ) (pending : Pending) (r : Recorded T) (queued : Bool) :
    drainPending n pending r.sock queued = ((drainPending n pending r queued).1,
      (drainPending n pending r queued).2.1.sock, (drainPending n pending r queued).2.2) := by
  induction n generalizing pending r queued with
  | zero => rfl
  | succ n ih =>
      have hsend : TcpApi.sendSlice r.sock pending.front =
          ((TcpApi.sendSlice r pending.front).1, (TcpApi.sendSlice r pending.front).2.sock) := rfl
      have hcan : TcpApi.canSend r.sock = TcpApi.canSend r := rfl
      unfold drainPending
      rw [hcan, hsend]
      split
      · rcases TcpApi.sendSlice r pending.front with ⟨_ | _ | k, r'⟩
        · rfl
        · rfl
        · exact ih _ r' true
      · rfl

theorem relayOut_recorded (n : ℕ) (tx : Chan) (r : Recorded T) :
    relayOut n tx r.sock = ((relayOut n tx r).1, (relayOut n tx r).2.sock) := by
  induction n generalizing tx r with
  | zero => rfl
  | succ n ih =>
      have hrecv : TcpApi.recv r.sock = ((TcpApi.recv r).1, (TcpApi.recv r).2.sock) := rfl
      have hcan : TcpApi.canRecv r.sock = TcpApi.canRecv r := rfl
      unfold relayOut
      rw [hcan, hrecv]
      split
      · rcases TcpApi.recv r with ⟨_ | data, r'⟩
        · rfl
        · dsimp only
          split
          · rfl
          · exact ih _ r'
      · rfl

/-- A pass does to the socket in the record what it does to the socket. -/
theorem serviceConn_recorded (conn : TcpConn) (r : Recorded T) :
    serviceConn conn r.sock =
      ((serviceConn conn r).1, (serviceConn conn r).2.1, (serviceConn conn r).2.2.sock) := by
  have hsample : conn.sample r.sock = conn.sample r := rfl
  have hdrain : ∀ c : TcpConn, c.drain r.sock =
      ((c.drain r).1, (c.drain r).2.1, (c.drain r).2.2.sock) := by
    intro c
    unfold TcpConn.drain
    rw [drainPending_recorded]
  have hrelay : ∀ (c : TcpConn) (r : Recorded T), c.relay r.sock =
      ((c.relay r).1, (c.relay r).2.sock) := by
    intro c r
    unfold TcpConn.relay
    split
    · rw [relayOut_recorded]
    · rfl
  have hhalf : ∀ (c : TcpConn) (r : Recorded T), c.halfClose r.sock = c.halfClose r :=
    fun _ _ => rfl
  unfold serviceConn
  dsimp only
  rw [hsample, hdrain]
  dsimp only
  rw [hrelay]
  dsimp only
  rw [hhalf]
  generalize TcpConn.halfClose _ (_ : Recorded T) = c
  cases c.outEof && c.pendingOut.isEmpty <;> rfl

/-! ### The moves of a pass -/

/-- One move of a pass: it receives a chunk, finds the end of the channel, offers the first pending
bytes to the socket, closes it, or does something to the other direction. -/
inductive Stage : TcpConn × Recorded T → TcpConn × Recorded T → Prop where
  | receive {conn : TcpConn} {r : Recorded T} {data : Bytes} {rest : List Bytes}
      (h : conn.outToApp.queue = data :: rest) :
      Stage (conn, r) ({ conn with
        pendingOut := conn.pendingOut.push data
        outToApp := { conn.outToApp with queue := rest } }, r)
  | ended {conn : TcpConn} {r : Recorded T} (h : conn.outToApp.queue = [])
      (hp : conn.outToApp.peer = false) : Stage (conn, r) ({ conn with outEof := true }, r)
  | accept {conn : TcpConn} {r r' : Recorded T} {k : ℕ} (h : conn.pendingOut.isEmpty = false)
      (e : TcpApi.sendSlice r conn.pendingOut.front = (some (k + 1), r')) :
      Stage (conn, r) ({ conn with pendingOut := conn.pendingOut.advance (k + 1) }, r')
  | refuse {conn : TcpConn} {r r' : Recorded T} {res : Option ℕ} (h : res.getD 0 = 0)
      (e : TcpApi.sendSlice r conn.pendingOut.front = (res, r')) : Stage (conn, r) (conn, r')
  | close {conn : TcpConn} {r : Recorded T} (h : conn.outEof = true)
      (he : conn.pendingOut.isEmpty = true) : Stage (conn, r) (conn, TcpApi.close r)
  | other {conn conn' : TcpConn} {r r' : Recorded T} (hp : conn'.pendingOut = conn.pendingOut)
      (ho : conn'.outToApp = conn.outToApp) (he : conn'.outEof = conn.outEof)
      (ha : r'.accepted = r.accepted) (hc : r'.closed = r.closed) : Stage (conn, r) (conn', r')

abbrev Stages : TcpConn × Recorded T → TcpConn × Recorded T → Prop := Relation.ReflTransGen Stage

theorem fillPending_stages (r : Recorded T) {conn : TcpConn} {chunks : List Bytes}
    (h : conn.outToApp.queue = chunks) : Stages (conn, r) (fillPending conn chunks, r) := by
  induction chunks generalizing conn with
  | nil =>
      unfold fillPending
      split
      · exact .refl
      · split
        · exact .refl
        · next hp => exact .single (.ended h (by simpa using hp))
  | cons data rest ih =>
      unfold fillPending
      split
      · exact .refl
      · exact .head (.receive h) (ih rfl)

theorem drainPending_stages (n : ℕ) (conn : TcpConn) (r : Recorded T) (queued : Bool) :
    Stages (conn, r) ({ conn with pendingOut := (drainPending n conn.pendingOut r queued).1 },
      (drainPending n conn.pendingOut r queued).2.1) := by
  induction n generalizing conn r queued with
  | zero => exact .refl
  | succ n ih =>
      unfold drainPending
      split
      · next hc =>
          have hne : conn.pendingOut.isEmpty = false := by
            rw [Bool.and_eq_true, Bool.not_eq_true'] at hc
            exact hc.2
          split
          · next e => exact .single (.refuse rfl e)
          · next e => exact .single (.refuse rfl e)
          · next k r' e => exact .head (.accept hne e) (ih _ r' true)
      · exact .refl

theorem relayOut_record (n : ℕ) (tx : Chan) (r : Recorded T) :
    (relayOut n tx r).2.accepted = r.accepted ∧ (relayOut n tx r).2.closed = r.closed := by
  induction n generalizing tx r with
  | zero => exact ⟨rfl, rfl⟩
  | succ n ih =>
      have ha : (TcpApi.recv r).2.accepted = r.accepted := rfl
      have hc : (TcpApi.recv r).2.closed = r.closed := rfl
      unfold relayOut
      split
      · split
        · next e =>
            rw [e] at ha hc
            split
            · exact ⟨ha, hc⟩
            · exact ⟨(ih _ _).1.trans ha, (ih _ _).2.trans hc⟩
        · next e =>
            rw [e] at ha hc
            exact ⟨ha, hc⟩
      · exact ⟨rfl, rfl⟩

theorem relay_stage (conn : TcpConn) (r : Recorded T) : Stage (conn, r) (conn.relay r) := by
  unfold TcpConn.relay
  split
  · obtain ⟨ha, hc⟩ := relayOut_record (Chan.room _) _ r
    exact .other rfl rfl rfl ha hc
  · exact .other rfl rfl rfl rfl rfl

/-- A pass is made of stages. -/
theorem serviceConn_stages (conn : TcpConn) (r : Recorded T) :
    Stages (conn, r) (serviceConn conn r).2 := by
  have hsample : Stage (conn, r) (conn.sample r, r) := by
    unfold TcpConn.sample
    split <;> exact .other rfl rfl rfl rfl rfl
  have hhalf : ∀ (c : TcpConn) (r : Recorded T), Stage (c, r) (c.halfClose r, r) := by
    intro c r
    unfold TcpConn.halfClose
    split <;> exact .other rfl rfl rfl rfl rfl
  have hdrain : ∀ (c : TcpConn) (r : Recorded T), Stages (c, r) (c.drain r).2 :=
    fun c r => drainPending_stages _ c r false
  have h : Stages (conn, r) ((conn.relayed r).1.halfClose (conn.relayed r).2, (conn.relayed r).2) :=
    ((((Relation.ReflTransGen.single hsample).trans (fillPending_stages r rfl)).trans
      (hdrain _ r)).tail (relay_stage _ _)).tail (hhalf _ _)
  unfold serviceConn
  dsimp only
  split
  · next hc =>
      rw [Bool.and_eq_true] at hc
      exact h.tail (.close hc.1 hc.2)
  · exact h

/-! ### Where the bytes are -/

/-- Of the chunks `sent` to the channel, those not in it have been received: their bytes are accepted
or pending, in order and once.  `pending_out` is as its names say, and `advance` takes no more than
there is.  Once `close` has been called, the channel has ended and every byte is accepted. -/
structure Streaming (sent : List Bytes) (conn : TcpConn) (r : Recorded T) : Prop where
  stream : ∃ received, sent = received ++ conn.outToApp.queue ∧
    r.accepted ++ conn.pendingOut.content = received.flatten
  bytes : conn.pendingOut.bytes = conn.pendingOut.content.length
  front : conn.pendingOut.front ≠ [] ↔ conn.pendingOut.content ≠ []
  advance : ∀ n, (TcpApi.sendSlice r conn.pendingOut.front).1 = some n → n ≤ conn.pendingOut.bytes
  closed : r.closed = true →
    conn.outToApp.peer = false ∧ conn.outToApp.queue = [] ∧ r.accepted = sent.flatten

/-- What every move keeps. -/
structure Unbroken (sent : List Bytes) (conn : TcpConn) (r : Recorded T) : Prop where
  wf : conn.pendingOut.Wf
  stream : ∃ received, sent = received ++ conn.outToApp.queue ∧
    r.accepted ++ conn.pendingOut.content = received.flatten
  ended : conn.outEof = true → conn.outToApp.peer = false ∧ conn.outToApp.queue = []
  closed : r.closed = true → conn.outEof = true ∧ conn.pendingOut.isEmpty = true

/-- The chunks that an act adds to the channel. -/
def EgressAct.delivered (c : Chan) : EgressAct → List Bytes
  | .send data => if c.peer && c.queue.length < CHAN_CAP then [data] else []
  | _ => []

namespace Unbroken

variable {sent : List Bytes} {conn conn' : TcpConn} {r r' : Recorded T}

theorem streaming [TcpSendLaws T] (h : Unbroken sent conn r) : Streaming sent conn r := by
  refine ⟨h.stream, h.wf.length_content.symm, h.wf.front_ne_nil_iff, fun n hn => ?_, fun hcl => ?_⟩
  · have hle : n ≤ conn.pendingOut.front.length := TcpSendLaws.sendSlice_le r.sock _ n hn
    rw [← h.wf.length_content, h.wf.content_eq, List.length_append]
    exact Nat.le_add_right_of_le hle
  · obtain ⟨heof, hempty⟩ := h.closed hcl
    obtain ⟨hpeer, hqueue⟩ := h.ended heof
    obtain ⟨received, hsent, hbytes⟩ := h.stream
    rw [hqueue, List.append_nil] at hsent
    rw [h.wf.isEmpty_iff.mp hempty, List.append_nil] at hbytes
    exact ⟨hpeer, hqueue, by rw [hsent, hbytes]⟩

theorem stage [TcpSendLaws T] (h : Unbroken sent conn r) (hs : Stage (conn, r) (conn', r')) :
    Unbroken sent conn' r' := by
  obtain ⟨received, hsent, hbytes⟩ := h.stream
  cases hs with
  | @receive _ _ data rest hq =>
      have hopen : ¬ conn.outEof = true := by
        intro heof
        rw [(h.ended heof).2] at hq
        cases hq
      refine ⟨(h.wf.push data).1, ⟨received ++ [data], ?_, ?_⟩, fun heof => absurd heof hopen,
        fun hcl => absurd (h.closed hcl).1 hopen⟩
      · rw [hsent, hq, List.append_assoc]
        rfl
      · dsimp only
        rw [h.wf.content_push, ← List.append_assoc, hbytes, List.flatten_append,
          List.flatten_singleton]
  | ended hq hp => exact ⟨h.wf, h.stream, fun _ => ⟨hp, hq⟩, fun hcl => ⟨rfl, (h.closed hcl).2⟩⟩
  | @accept _ _ _ k hne e =>
      -- what the socket accepts is what `advance` takes off
      obtain ⟨hres, haccept, hclosed⟩ := Recorded.sendSlice_eq e
      rw [Option.getD_some] at haccept
      have hle : k + 1 ≤ conn.pendingOut.front.length := TcpSendLaws.sendSlice_le r.sock _ _ hres
      refine ⟨(h.wf.advance hle hne).1, ⟨received, hsent, ?_⟩, h.ended, fun hcl => ?_⟩
      · dsimp only
        rw [haccept, List.append_assoc, ← h.wf.content_advance (k + 1) hne, hbytes]
      · rw [hclosed] at hcl
        rw [(h.closed hcl).2] at hne
        cases hne
  | @refuse _ _ _ res hz e =>
      obtain ⟨-, haccept, hclosed⟩ := Recorded.sendSlice_eq e
      rw [hz, List.take_zero, List.append_nil] at haccept
      refine ⟨h.wf, ⟨received, hsent, ?_⟩, h.ended, fun hcl => h.closed (hclosed ▸ hcl)⟩
      rw [haccept]
      exact hbytes
  | close heof hempty => exact ⟨h.wf, h.stream, h.ended, fun _ => ⟨heof, hempty⟩⟩
  | other hp ho he ha hc =>
      refine ⟨hp ▸ h.wf, ⟨received, ?_, ?_⟩, ?_, ?_⟩
      · rw [ho]
        exact hsent
      · rw [ha, hp]
        exact hbytes
      · rw [he, ho]
        exact h.ended
      · rw [hc, he, hp]
        exact h.closed

theorem stages [TcpSendLaws T] {s : TcpConn × Recorded T} (h : Unbroken sent conn r)
    (hs : Stages (conn, r) s) : Unbroken sent s.1 s.2 := by
  induction hs with
  | refl => exact h
  | tail _ e ih => exact ih.stage e

omit [TcpApi T] in
/-- A poll leaves the record. -/
theorem poll (h : Unbroken sent conn r) (sock : T) : Unbroken sent conn { r with sock } :=
  ⟨h.wf, h.stream, h.ended, h.closed⟩

omit [TcpApi T] in
/-- The channel does not open again. -/
theorem egress (h : Unbroken sent conn r) (act : EgressAct) :
    Unbroken (sent ++ act.delivered conn.outToApp) (conn.egress act) r := by
  obtain ⟨received, hsent, hbytes⟩ := h.stream
  cases act with
  | recv =>
      exact ⟨h.wf, ⟨received, by rw [hsent]; exact List.append_nil _, hbytes⟩, h.ended, h.closed⟩
  | dropRx =>
      exact ⟨h.wf, ⟨received, by rw [hsent]; exact List.append_nil _, hbytes⟩, h.ended, h.closed⟩
  | dropTx =>
      exact ⟨h.wf, ⟨received, by rw [hsent]; exact List.append_nil _, hbytes⟩,
        fun heof => ⟨rfl, (h.ended heof).2⟩, h.closed⟩
  | send data =>
      by_cases hroom : (conn.outToApp.peer && decide (conn.outToApp.queue.length < CHAN_CAP)) = true
      · have hopen : ¬ conn.outEof = true := by
          intro heof
          rw [(h.ended heof).1] at hroom
          cases hroom
        have hchan : (conn.egress (.send data)).outToApp = conn.outToApp.send data := if_pos hroom
        have hnew : (EgressAct.send data).delivered conn.outToApp = [data] := if_pos hroom
        refine ⟨h.wf, ⟨received, ?_, hbytes⟩, fun heof => absurd heof hopen,
          fun hcl => absurd (h.closed hcl).1 hopen⟩
        rw [hchan, hnew, hsent, List.append_assoc]
        rfl
      · have hchan : (conn.egress (.send data)).outToApp = conn.outToApp := if_neg hroom
        have hnew : (EgressAct.send data).delivered conn.outToApp = [] := if_neg hroom
        refine ⟨h.wf, ⟨received, ?_, hbytes⟩, ?_, h.closed⟩
        · rw [hchan, hnew, hsent, List.append_nil]
        · rw [hchan]
          exact h.ended

end Unbroken

/-! ### The flow in the manager -/

variable {U : Type} [UdpApi U]

/-- The engine, and the chunks that the egress task has put into the flow's channel. -/
structure Download (T U : Type) where
  engine : Engine (Recorded T) U
  sent : List Bytes

inductive DownloadEvent (T : Type) where
  /-- smoltcp moves the flow's socket on, to any state. -/
  | poll (sock : T)
  /-- `service_tcp`. -/
  | pass
  | egress (act : EgressAct)

def Engine.delivers (s : Engine T U) (key : FourTuple) (act : EgressAct) : List Bytes :=
  match s.mgr.tcp.lookup key with
  | some conn => act.delivered conn.outToApp
  | none => []

def DownloadStep (key : FourTuple) (w : Download T U) : DownloadEvent T → Download T U → Prop
  | .poll sock, w' => ∃ conn r, w.engine.Live key conn r ∧
      w' = ⟨⟨w.engine.mgr, w.engine.sockets.insert conn.handle (.tcp { r with sock })⟩, w.sent⟩
  | .pass, w' =>
    (∃ queued, w.engine.mgr.serviceTcp w.engine.sockets key =
      .ok (queued, w'.engine.mgr, w'.engine.sockets)) ∧ w'.sent = w.sent
  | .egress act, w' =>
    w' = ⟨⟨w.engine.mgr.egress act (.tcp key), w.engine.sockets⟩,
      w.sent ++ w.engine.delivers key act⟩

structure Download.Inv (key : FourTuple) (w : Download T U) : Prop where
  sound : Sound w.engine.mgr w.engine.sockets
  unbroken : ∀ conn r, w.engine.Live key conn r → Unbroken w.sent conn r

namespace Download.Inv

variable {key : FourTuple} {w w' : Download T U}

theorem opened (h : Opened key ⟨w.engine, [], w.sent⟩) : w.Inv key := by
  obtain ⟨hsound, hfresh⟩ := h.fresh
  obtain ⟨-, -, -, hsent⟩ := h
  refine ⟨hsound, fun conn r hl => ?_⟩
  obtain ⟨handle, now, dst, hlisten, rfl⟩ := hfresh conn r hl
  obtain ⟨sock, -, rfl⟩ := Option.map_eq_some_iff.mp hlisten
  change w.sent = [] at hsent
  rw [hsent]
  exact ⟨.empty, ⟨[], rfl, rfl⟩, nofun, nofun⟩

theorem step [TcpSendLaws T] {e : DownloadEvent T} (h : w.Inv key) (hs : DownloadStep key w e w') :
    w'.Inv key := by
  cases e with
  | poll sock =>
      obtain ⟨conn, r, hl, rfl⟩ := hs
      refine ⟨h.sound.pollTcp hl.2, fun conn' r' hl' => ?_⟩
      obtain ⟨rfl, rfl⟩ := (hl.poll { r with sock }).unique hl'
      exact (h.unbroken _ _ hl).poll sock
  | pass =>
      obtain ⟨⟨q, e⟩, hsent⟩ := hs
      obtain ⟨q', m', sockets', e', hsound⟩ := h.sound.serviceTcp key
      rw [e] at e'
      cases e'
      refine ⟨hsound, fun conn' r' hl' => ?_⟩
      obtain ⟨conn, r, hl, hpass⟩ := Engine.Live.of_pass h.sound e hl'
      have hi := (h.unbroken conn r hl).stages (serviceConn_stages conn r)
      rwa [hpass, ← hsent] at hi
  | egress act =>
      cases hs
      refine ⟨h.sound.egress act (.tcp key), fun conn' r' hl' => ?_⟩
      obtain ⟨conn, hl, rfl⟩ := Engine.Live.of_egress hl'
      rw [Engine.delivers, hl.1]
      exact (h.unbroken conn r' hl).egress act

end Download.Inv

/-- **The egress to app relay keeps the byte stream.**  From the opening of a flow, through any run of
passes with whatever the socket accepts and the egress task delivers between them, the bytes are
where `Streaming` says, and at every move of the next pass they are as well; that pass does to the socket
what it does without the record. -/
theorem inflow_streams [TcpSendLaws T] {key : FourTuple} {w₀ w : Download T U}
    (h : Opened key ⟨w₀.engine, [], w₀.sent⟩) {es : List (DownloadEvent T)}
    (hr : Run (DownloadStep key) w₀ es w) {conn : TcpConn} {r : Recorded T}
    (hl : w.engine.Live key conn r) :
    Stages (conn, r) (serviceConn conn r).2 ∧
      (∀ s, Stages (conn, r) s → Streaming w.sent s.1 s.2) ∧
      serviceConn conn r.sock =
        ((serviceConn conn r).1, (serviceConn conn r).2.1, (serviceConn conn r).2.2.sock) := by
  have hi := hr.invariant (I := Download.Inv key) (fun _ _ _ => Download.Inv.step) (.opened h)
  exact ⟨serviceConn_stages conn r, fun s hs => ((hi.unbroken conn r hl).stages hs).streaming,
    serviceConn_recorded conn r⟩

/-! ### A socket with room for two bytes -/

instance : TcpSendLaws BufTcp where
  sendSlice_le sock data n h := by
    simp only [TcpApi.sendSlice] at h
    split at h <;> cases h
    exact Nat.min_le_left _ _

/-- A flow that has just been opened, as far as the egress is concerned. -/
def webDownload : Download BufTcp SimUdp :=
  ⟨(Engine.new (Recorded BufTcp) SimUdp).apply (.onPacket webSyn 0 0), []⟩

theorem webDownload_opened : Opened webKey ⟨webDownload.engine, [], webDownload.sent⟩ :=
  ⟨⟨_, webSyn, 0, 0, .new, ConnStep.of_enabled Sound.new (by decide +kernel), rfl, rfl⟩,
    by decide +kernel, rfl, rfl⟩

/-- Its socket, Established. -/
def narrow : Recorded BufTcp := ⟨⟨⟨.established, []⟩, 2, nofun⟩, [], false⟩

def webEstablished : Download BufTcp SimUdp :=
  ⟨⟨webDownload.engine.mgr, webDownload.engine.sockets.insert 0 (.tcp narrow)⟩, []⟩

/-- Three bytes have come from the egress. -/
def webArrived : Download BufTcp SimUdp :=
  ⟨⟨webEstablished.engine.mgr.egress (.send [1, 2, 3]) (.tcp webKey),
      webEstablished.engine.sockets⟩,
    webEstablished.sent ++ webEstablished.engine.delivers webKey (.send [1, 2, 3])⟩

def webConn : TcpConn := ⟨0, some .new, ⟨[[1, 2, 3]], true⟩, .empty, false, false, secs 10⟩

/-- The pass hands two of them to the socket and keeps the third. -/
theorem inflow_streams_narrow :
    Run (DownloadStep webKey) webDownload [.poll narrow.sock, .egress (.send [1, 2, 3])]
      webArrived ∧ webArrived.engine.Live webKey webConn narrow ∧
      Streaming webArrived.sent (serviceConn webConn narrow).2.1 (serviceConn webConn narrow).2.2 ∧
      (serviceConn webConn narrow).2.2.accepted = [1, 2] ∧
      (serviceConn webConn narrow).2.1.pendingOut.content = [3] := by
  have hl : webDownload.engine.Live webKey
      ⟨0, some .new, .new, .empty, false, false, secs 10⟩
      (⟨⟨⟨.listen, []⟩, TCP_BUF, fun _ => rfl⟩, [], false⟩ : Recorded BufTcp) :=
    ⟨by decide +kernel, by decide +kernel⟩
  have hpoll : DownloadStep webKey webDownload (.poll narrow.sock) webEstablished :=
    ⟨_, _, hl, rfl⟩
  have hr : Run (DownloadStep webKey) webDownload
      [.poll narrow.sock, .egress (.send [1, 2, 3])] webArrived := .more hpoll (.one rfl)
  have hlive : webArrived.engine.Live webKey webConn narrow :=
    ⟨by decide +kernel, by decide +kernel⟩
  obtain ⟨hpass, hall, -⟩ := inflow_streams webDownload_opened hr hlive
  exact ⟨hr, hlive, hall _ hpass, by decide +kernel, by decide +kernel⟩

end Tunnel.Conn
