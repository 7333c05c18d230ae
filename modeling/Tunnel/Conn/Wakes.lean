import Tunnel.Conn.Streams

/-!
# Conn — No wake is lost

A flow is serviced only when it is filed ready: by a change of its socket, through the wakers that
smoltcp holds, or by a mark of its egress task.  The poll loop takes the mark before its pass, the
pass registers the wakers at its end, and the task acts on the channels before it marks, so each of
the three can fall between any two steps of the others.

* `Awake`: what holds between the three at every point of a pass.
* `unfiled_settled`: a flow that is neither filed nor about to be has nothing that a pass could move.
* `stalled`: so where no party can move, a flow waits for the app to read or for the server.
-/

namespace Tunnel.Conn
open Support TcpLaws TcpBufferLaws

/-! ### The send buffer in a pass -/

/-- What smoltcp documents of the send buffer besides. -/
class TcpRoomLaws (T : Type) [TcpApi T] [TcpBufferLaws T] : Prop where
  recv_room : ∀ sock : T, txRoom (TcpApi.recv sock).2 = txRoom sock
  /-- A socket that has been closed does not send. -/
  close_room : ∀ sock : T, txRoom (TcpApi.close sock) = 0
  /-- A socket that listens does not send. -/
  listen_room : ∀ addr (sock : T), TcpApi.listen addr = some sock → txRoom sock = 0

variable {T : Type} [TcpApi T] [TcpBufferLaws T]

instance : TcpRoomLaws BufTcp where
  recv_room sock := by
    simp only [TcpApi.recv]
    split <;> rfl
  close_room sock := by
    obtain ⟨⟨state, bytes⟩, room, h⟩ := sock
    cases state <;> rfl
  listen_room addr sock h := by
    simp only [TcpApi.listen] at h
    split at h <;> cases h
    rfl

theorem canSend_eq_false {sock : T} (h : txRoom sock = 0) : TcpApi.canSend sock = false :=
  Bool.eq_false_iff.mpr fun hc => by
    have hpos := (canSend_iff sock).mp hc
    omega

/-- The room left is what the pending bytes do not take. -/
theorem drainPending_room {n : ℕ} {p : Pending} (hn : p.len ≤ n) (h : p.Wf) (sock : T)
    (queued : Bool) :
    txRoom (drainPending n p sock queued).2.1 = txRoom sock - p.len := by
  induction n generalizing p sock queued with
  | zero => rw [Nat.le_zero.mp hn]; rfl
  | succ n ih =>
      unfold drainPending
      split
      · next hc =>
          simp only [Bool.and_eq_true, Bool.not_eq_true'] at hc
          obtain ⟨hcan, hne⟩ := hc
          have hroom := (canSend_iff sock).mp hcan
          obtain ⟨c, rest, -, hfront, hhead⟩ := h.front hne
          have hle : p.front.length ≤ p.len := by
            rw [Pending.len, ← h.length_content, h.content_eq, List.length_append]
            exact Nat.le_add_right _ _
          obtain ⟨htaken, hleft⟩ := sendSlice_room sock p.front hroom
          split
          · next e => rw [e] at htaken; cases htaken
          · next e =>
              rw [e] at htaken
              simp only [Option.some.injEq] at htaken
              omega
          · next k sock' e =>
              rw [e] at htaken hleft
              simp only [Option.some.injEq] at htaken
              obtain ⟨hw, hlen⟩ := h.advance (n := k + 1) (by omega) hne
              rw [ih (by omega) hw sock' true, hlen, hleft]
              omega
      · next hc =>
          rw [Bool.and_eq_true, not_and_or] at hc
          rcases hc with hc | hc
          · have hroom : txRoom sock = 0 := by
              by_contra hne
              exact hc ((canSend_iff sock).mpr (Nat.pos_of_ne_zero hne))
            rw [hroom, Nat.zero_sub]
          · have hzero : p.len = 0 := by simpa [Pending.isEmpty, Pending.len] using hc
            rw [hzero, Nat.sub_zero]

namespace Link

variable {w w' : Link T}

/-! ### The invariant -/

/-- The socket has been handed all it has room for, and the end of the channel has been seen unless
the socket is full. -/
structure Flushed (w : Link T) : Prop where
  pending : w.conn.pendingOut.isEmpty = true ∨ TcpApi.canSend w.sock = false
  channel : w.conn.outToApp.queue = [] ∧ (w.conn.outToApp.peer = false → w.conn.outEof = true) ∨
    TcpApi.canSend w.sock = false ∧
      TCP_BUF ≤ w.sock.accepted.length + w.conn.pendingOut.len

/-- The egress task has been sent all that its channel has room for. -/
def Relayed (w : Link T) : Prop :=
  ∀ tx, w.conn.appToOut = some tx → TcpApi.canRecv w.sock = true → w.writer.past = false →
    tx.canReserve = false

/-- The app's FIN has been passed on, if it is in and its bytes are out. -/
def Halved (w : Link T) : Prop :=
  w.conn.established = true → w.conn.appToOut ≠ none →
    TcpApi.mayRecv w.sock = true ∨ TcpApi.canRecv w.sock = true

structure Awake (w : Link T) : Prop where
  room : w.point ≠ .removed → txRoom w.sock.sock ≤ TCP_BUF
  armed : w.point = .resting → w.filed = true ∨ w.recvWaker = true ∧ w.sendWaker = true
  ended : w.point = .resting → w.conn.outEof = true → w.conn.pendingOut.isEmpty = true →
    w.sock.closed = true
  flushed : w.point = .resting ∨ w.point = .relaying ∨ w.point = .leaving →
    w.filed = true ∨ w.reader.due = true ∨ w.Flushed
  relayed : w.point = .resting ∨ w.point = .leaving →
    w.filed = true ∨ w.writer.due = true ∨ w.Relayed
  halved : w.point = .resting → w.filed = true ∨ w.Halved
  sampled : w.point ≠ .taken → w.point ≠ .removed → w.filed = true ∨
    (TcpApi.state w.sock = .established → w.conn.established = true)
  opened : w.point = .resting → w.filed = true ∨ TcpApi.state w.sock ≠ .closed

namespace Awake

theorem new [TcpRoomLaws T] (h : Opened w) : Awake w := by
  obtain ⟨handle, deadline, dst, sock, hlisten, rfl⟩ := h
  have hroom := TcpRoomLaws.listen_room dst sock hlisten
  exact ⟨fun _ => hroom.trans_le (Nat.zero_le _), fun _ => .inl rfl, nofun, fun _ => .inl rfl,
    fun _ => .inl rfl, fun _ => .inl rfl, fun _ _ => .inl rfl, fun _ => .inl rfl⟩

/-! The egress task acts on the channels before it marks. -/

theorem reads (h : Awake w) (hs : Reads w w') : Awake w' := by
  have hf := hs.frame
  have hor : ∀ {P Q : Prop}, (P → Q) → w.filed = true ∨ P → w'.filed = true ∨ Q := fun hpq =>
    Or.imp hf.filed hpq
  refine ⟨?_, ?_, ?_, fun hp => ?_, fun hp => ?_, fun hp => ?_, fun hp hp' => ?_, fun hp => ?_⟩
  · rw [hf.point, hf.sock]
    exact h.room
  · rw [hf.point, hf.wakers.1, hf.wakers.2]
    exact fun hp => hor id (h.armed hp)
  · rw [hf.point, hf.pending.1, hf.pending.2, hf.sock]
    exact h.ended
  · rw [hf.point] at hp
    rcases hf.channel with hm | hd | ⟨hd, ho⟩
    · exact .inl hm
    · exact .inr (.inl hd)
    · refine (h.flushed hp).imp hf.filed fun hfl => .inr ?_
      rw [hd] at hfl
      obtain ⟨h₁, h₂⟩ := hfl.resolve_left nofun
      refine ⟨?_, ?_⟩
      · rw [hf.pending.1, hf.sock]
        exact h₁
      · rw [ho, hf.pending.1, hf.pending.2, hf.sock]
        exact h₂
  · rw [hf.point] at hp
    refine hor ?_ (h.relayed hp)
    unfold Relayed
    rw [hf.writer, hf.appToOut, hf.sock]
    exact id
  · rw [hf.point] at hp
    refine hor ?_ (h.halved hp)
    unfold Halved
    rw [hf.established, hf.appToOut, hf.sock]
    exact id
  · rw [hf.point] at hp hp'
    rw [hf.established, hf.sock]
    exact hor id (h.sampled hp hp')
  · rw [hf.point] at hp
    rw [hf.sock]
    exact hor id (h.opened hp)

omit [TcpBufferLaws T] in
/-- A writer that makes room is about to mark, or reads no more. -/
theorem relayed_writes (hs : Writes w w') :
    w'.filed = true ∨ w'.writer.due = true ∨ w'.Relayed := by
  have hdrop : w.dropRx.Relayed := fun tx _ _ ho => by cases ho
  cases hs with
  | forsake hw hr => exact .inr (.inr hdrop)
  | recv hw hq => exact .inr (.inl rfl)
  | finish hw hq ha => exact .inr (.inr fun tx htx => by rw [ha] at htx; cases htx)
  | write hw => exact .inr (.inl rfl)
  | fail hw n => exact .inr (.inr fun tx _ _ ho => by cases ho)
  | mark hw => exact .inl rfl
  | drop hw => exact .inr (.inr hdrop)

theorem writes (h : Awake w) (hs : Writes w w') : Awake w' := by
  have hf := hs.frame
  have hor : ∀ {P Q : Prop}, (P → Q) → w.filed = true ∨ P → w'.filed = true ∨ Q := fun hpq =>
    Or.imp hf.filed hpq
  refine ⟨?_, ?_, ?_, fun hp => ?_, fun hp => relayed_writes hs, fun hp => ?_, fun hp hp' => ?_,
    fun hp => ?_⟩
  · rw [hf.point, hf.sock]
    exact h.room
  · rw [hf.point, hf.wakers.1, hf.wakers.2]
    exact fun hp => hor id (h.armed hp)
  · rw [hf.point, hf.pending.1, hf.pending.2, hf.sock]
    exact h.ended
  · rw [hf.point] at hp
    refine hor (fun hfl => ?_) (h.flushed hp)
    rw [hf.reader]
    refine hfl.imp_right fun hfl => ⟨?_, ?_⟩
    · rw [hf.pending.1, hf.sock]
      exact hfl.pending
    · rw [hf.outToApp, hf.pending.1, hf.pending.2, hf.sock]
      exact hfl.channel
  · rw [hf.point] at hp
    refine hor ?_ (h.halved hp)
    intro hh he ha
    rw [hf.sock]
    exact hh (hf.established ▸ he) (mt hf.appToOut.mpr ha)
  · rw [hf.point] at hp hp'
    rw [hf.established, hf.sock]
    exact hor id (h.sampled hp hp')
  · rw [hf.point] at hp
    rw [hf.sock]
    exact hor id (h.opened hp)

theorem connect {ok : Bool} (h : Awake w) (hu : Up w) (hs : w.connect ok = some w') :
    Awake w' := by
  unfold Link.connect at hs
  split at hs
  swap
  · cases hs
  next hr =>
    have hflushed : w.point = .resting ∨ w.point = .relaying ∨ w.point = .leaving →
        w.filed = true ∨ w.Flushed := fun hp => (h.flushed hp).imp_right fun hfl => by
      rw [hr] at hfl
      exact hfl.resolve_left nofun
    have hrelayed : w.point = .resting ∨ w.point = .leaving → w.filed = true ∨ ∀ tx,
        w.conn.appToOut = some tx → TcpApi.canRecv w.sock = true → tx.canReserve = false :=
      fun hp => (h.relayed hp).imp_right fun hrl => by
        rw [Relayed, hu.connecting hr] at hrl
        exact fun tx htx hcan => hrl.resolve_left nofun tx htx hcan rfl
    split at hs <;> cases hs
    · exact ⟨h.room, h.armed, h.ended,
        fun hp => (hflushed hp).imp_right fun hfl => .inr ⟨hfl.pending, hfl.channel⟩,
        fun hp => (hrelayed hp).imp_right fun hrl => .inr fun tx htx hcan _ => hrl tx htx hcan,
        h.halved, h.sampled, h.opened⟩
    · exact ⟨h.room, h.armed, h.ended,
        fun hp => (hflushed hp).imp_right fun hfl => .inr ⟨hfl.pending, hfl.channel⟩,
        fun hp => (hrelayed hp).imp_right fun hrl => .inr fun tx htx hcan _ => hrl tx htx hcan,
        h.halved, h.sampled, h.opened⟩

/-- Within a pass there is less to say. -/
theorem amid (hp : w.point ≠ .resting)
    (hroom : w.point ≠ .removed → txRoom w.sock.sock ≤ TCP_BUF)
    (hflushed : w.point = .relaying ∨ w.point = .leaving →
      w.filed = true ∨ w.reader.due = true ∨ w.Flushed)
    (hrelayed : w.point = .leaving → w.Relayed)
    (hsampled : w.point ≠ .taken → w.point ≠ .removed → w.filed = true ∨
      (TcpApi.state w.sock = .established → w.conn.established = true)) : Awake w :=
  ⟨hroom, fun e => absurd e hp, fun e => absurd e hp, fun e => hflushed (e.resolve_left hp),
    fun e => .inr (.inr (hrelayed (e.resolve_left hp))), fun e => absurd e hp, hsampled,
    fun e => absurd e hp⟩

theorem removed (hp : w.point = .removed) : Awake w :=
  amid (by rw [hp]; nofun) (fun hne => absurd hp hne) (by rw [hp]; nofun) (by rw [hp]; nofun)
    fun _ hne => absurd hp hne

theorem reap (hs : w.reap = some w') : Awake w' := by
  unfold Link.reap at hs
  split at hs <;> cases hs
  exact removed rfl

/-! smoltcp changes the socket and fires the wakers that it holds. -/

theorem poll {sock : T} {data : Bytes} {spurious : Bool} (h : Awake w)
    (hs : w.poll sock data spurious = some w') : Awake w' := by
  unfold Link.poll at hs
  split at hs <;> cases hs
  next hc =>
    obtain ⟨hp, -, -, -, hroom⟩ := hc
    -- a flow that is not filed had both its wakers held, and neither has fired
    have hcase : (w.filed || w.recvWaker && (spurious || recvChanged w.sock.sock sock) ||
        w.sendWaker && (spurious || sendChanged w.sock.sock sock)) = true ∨
        w.filed = false ∧ w.recvWaker = true ∧ w.sendWaker = true ∧ spurious = false ∧
          recvChanged w.sock.sock sock = false ∧ sendChanged w.sock.sock sock = false := by
      cases hf : w.filed with
      | true => exact .inl rfl
      | false =>
          obtain ⟨hr, hsd⟩ := (h.armed hp).resolve_left (by rw [hf]; nofun)
          rw [hr, hsd]
          cases spurious <;> cases recvChanged w.sock.sock sock <;>
            cases sendChanged w.sock.sock sock <;> simp
    rcases hcase with hm | ⟨hf, hr, hsd, rfl, hrc, hsc⟩
    · exact ⟨fun _ => hroom, fun _ => .inl hm, fun hp => h.ended hp, fun _ => .inl hm,
        fun _ => .inl hm, fun _ => .inl hm, fun _ _ => .inl hm, fun _ => .inl hm⟩
    · have hno : w.filed = true → False := by rw [hf]; nofun
      have hstill : ∀ held changed : Bool, held = true → changed = false →
          (held && !(held && (false || changed))) = true := by decide
      have harmed := And.intro (hstill _ _ hr hrc) (hstill _ _ hsd hsc)
      simp only [recvChanged, Bool.or_eq_false_iff, bne_eq_false_iff_eq] at hrc
      simp only [sendChanged, Bool.or_eq_false_iff, bne_eq_false_iff_eq] at hsc
      obtain ⟨⟨hcan, hmay⟩, hstate⟩ := hrc
      have hsend : TcpApi.canSend sock = TcpApi.canSend w.sock := hsc.1.symm
      refine ⟨fun _ => hroom, fun _ => .inr harmed, fun hp => h.ended hp, fun hp => .inr ?_,
        fun hp => .inr ?_, fun hp => .inr ?_, fun hp hp' => .inr fun hst => ?_, fun hp => .inr ?_⟩
      · refine ((h.flushed hp).resolve_left hno).imp_right fun hfl => ⟨?_, ?_⟩
        · exact hfl.pending.imp_right hsend.trans
        · exact hfl.channel.imp_right (And.imp_left hsend.trans)
      · refine ((h.relayed hp).resolve_left hno).imp_right fun hrl tx htx hc => ?_
        exact hrl tx htx (hcan.trans hc)
      · intro he ha
        exact ((h.halved hp).resolve_left hno he ha).imp hmay.symm.trans hcan.symm.trans
      · exact (h.sampled hp hp').resolve_left hno (hstate.trans hst)
      · intro hst
        exact (h.opened hp).resolve_left hno (hstate.trans hst)

/-! A pass moves what there is room for, and registers the wakers at its end. -/

theorem drained_flushed [TcpSendLaws T] {conn : TcpConn} (hu : Unbroken w.sent conn w.sock)
    (hroom : txRoom w.sock.sock ≤ TCP_BUF) (hc : TCP_BUF ≤ conn.pendingOut.len ∨
      conn.outToApp.queue = [] ∧ (conn.outToApp.peer = false → conn.outEof = true)) :
    (w.drained conn).Flushed ∧ txRoom (w.drained conn).sock.sock ≤ TCP_BUF := by
  have hrec := drainPending_recorded conn.pendingOut.len conn.pendingOut w.sock false
  obtain ⟨hwf, hlen⟩ := drainPending_len le_rfl hu.wf w.sock.sock false
  have hleft := drainPending_room le_rfl hu.wf w.sock.sock false
  rw [hrec] at hwf hlen hleft
  have hu' : Unbroken w.sent (w.drained conn).conn (w.drained conn).sock :=
    hu.stages (drainPending_stages _ conn w.sock false)
  -- what the socket accepts is what is no longer pending
  have hsum : (w.drained conn).sock.accepted.length + (w.drained conn).conn.pendingOut.len =
      w.sock.accepted.length + conn.pendingOut.len := by
    obtain ⟨received, hsent, hbytes⟩ := hu.stream
    obtain ⟨received', hsent', hbytes'⟩ := hu'.stream
    have hsame : received' = received :=
      List.append_cancel_right (hsent'.symm.trans hsent : received' ++ conn.outToApp.queue = _)
    have hb := congrArg List.length hbytes
    have hb' := congrArg List.length hbytes'
    rw [List.length_append, hu.wf.length_content] at hb
    rw [List.length_append, hu'.wf.length_content, hsame] at hb'
    exact hb'.trans hb.symm
  have hfull : txRoom w.sock.sock - conn.pendingOut.len = 0 →
      TcpApi.canSend (w.drained conn).sock = false := fun hz =>
    canSend_eq_false (T := T) (hleft.trans hz)
  refine ⟨⟨?_, ?_⟩, ?_⟩
  · rcases Nat.le_total conn.pendingOut.len (txRoom w.sock.sock) with hle | hle
    · refine .inl ?_
      have hz : (w.drained conn).conn.pendingOut.len = 0 := hlen.trans (Nat.sub_eq_zero_of_le hle)
      simpa [Pending.isEmpty, Pending.len] using hz
    · exact .inr (hfull (Nat.sub_eq_zero_of_le hle))
  · rcases hc with hle | hq
    · refine .inr ⟨hfull (Nat.sub_eq_zero_of_le (hroom.trans hle)), ?_⟩
      rw [hsum]
      exact Nat.le_add_left_of_le hle
    · exact .inl hq
  · exact (hleft.trans_le (Nat.sub_le _ _)).trans hroom

theorem close_not_established (s : TcpState) : s.close ≠ .established := by
  cases s <;> decide

theorem mayRecv_close {sock : T} (h : TcpApi.mayRecv sock = true) :
    TcpApi.mayRecv (TcpApi.close sock) = true := by
  rw [mayRecv_iff] at h ⊢
  rw [close_state, close_rx]
  rcases h with h | h | h | h
  · rw [h]; exact .inr (.inl rfl)
  · rw [h]; exact .inr (.inl rfl)
  · rw [h]; exact .inr (.inr (.inl rfl))
  · exact .inr (.inr (.inr h))

theorem leave [TcpRoomLaws T] (h : Awake w) (hd : Down w) (hp : w.point = .leaving) :
    Awake w.leave := by
  obtain ⟨hpend, hout, heof, hest⟩ := halfClose_queues w.conn w.sock
  rcases leave_cases w with hgone | ⟨hpoint, hr, hsd, hconn, hopen, hsock⟩
  · exact removed hgone
  have hkept := leave_kept w
  have hlive : w.point ≠ .removed := by rw [hp]; nofun
  have hfiled : w.filed = true → w.leave.filed = true := by
    rcases hsock with ⟨-, -, -, hf⟩ | ⟨-, hf, -⟩
    · exact hf
    · exact fun h => hf.trans h
  have hrx := (leave_flight w).2.1
  have hcan : TcpApi.canRecv w.leave.sock = TcpApi.canRecv w.sock :=
    Bool.eq_iff_iff.mpr ((canRecv_iff w.leave.sock.sock).trans (hrx ▸ (canRecv_iff w.sock.sock).symm))
  refine ⟨fun _ => ?_, fun _ => .inr ⟨hr, hsd⟩, fun _ he hemp => ?_, fun _ => ?_, fun _ => ?_,
    fun _ => ?_, fun _ _ => ?_, fun _ => .inr hopen⟩
  · rcases hsock with ⟨e, -⟩ | ⟨e, -⟩
    · rw [e]
      exact (TcpRoomLaws.close_room w.sock.sock).trans_le (Nat.zero_le _)
    · rw [e]
      exact h.room hlive
  · rw [hconn, heof] at he
    rw [hconn, hpend] at hemp
    rcases hsock with ⟨e, -⟩ | ⟨-, -, hne⟩
    · rw [e]
      rfl
    · rw [hne he] at hemp
      cases hemp
  · rw [hkept.reader]
    rcases hsock with ⟨-, he, hemp, -⟩ | ⟨e, hf, -⟩
    · refine .inr (.inr ⟨.inl (by rw [hconn, hpend]; exact hemp), .inl ?_⟩)
      rw [hconn, hout, heof]
      exact ⟨(hd.unbroken.ended he).2, fun _ => he⟩
    · rw [hf]
      refine (h.flushed (.inr (.inr hp))).imp_right fun hfl => hfl.imp_right fun hfl => ⟨?_, ?_⟩
      · rw [hconn, hpend, e]
        exact hfl.pending
      · rw [hconn, hpend, hout, heof, e]
        exact hfl.channel
  · rw [hkept.writer]
    refine (h.relayed (.inr hp)).imp hfiled fun hrl => hrl.imp_right fun hrl tx htx hc ho => ?_
    rw [hconn] at htx
    exact hrl tx (Intact.halfClose_some htx) (hcan.symm.trans hc) (hkept.writer ▸ ho)
  · refine .inr fun he ha => ?_
    rw [hconn] at he ha
    have hreads : TcpApi.mayRecv w.sock.sock = true ∨ TcpApi.canRecv w.sock.sock = true := by
      unfold TcpConn.halfClose at he ha
      split at ha
      · exact absurd rfl ha
      · next hc =>
          rw [if_neg hc] at he
          rw [he, Option.isSome_iff_ne_none.mpr ha] at hc
          by_contra hno
          rw [not_or, Bool.not_eq_true, Bool.not_eq_true] at hno
          exact hc (by
            change (true && true && !TcpApi.mayRecv w.sock.sock && !TcpApi.canRecv w.sock.sock) = true
            rw [hno.1, hno.2]
            rfl)
    rcases hreads with hm | hc
    · refine .inl ?_
      have hm' : TcpApi.mayRecv (TcpApi.close w.sock.sock) = true := mayRecv_close hm
      rcases hsock with ⟨e, -⟩ | ⟨e, -⟩ <;> rw [e]
      · exact hm'
      · exact hm
    · exact .inr (hcan.trans hc)
  · refine (h.sampled (by rw [hp]; nofun) hlive).imp hfiled fun hst e => ?_
    rw [hconn, hest]
    refine hst ?_
    rcases hsock with ⟨e', -⟩ | ⟨e', -⟩
    · rw [e'] at e
      exact absurd ((close_state w.sock.sock).symm.trans e) (close_not_established _)
    · exact e' ▸ e

theorem moved [TcpRoomLaws T] [TcpSendLaws T] (h : Awake w) (hd : Down w) (hs : Moved w w') :
    Awake w' := by
  have hroom := h.room hs.not_removed
  have hdrain : ∀ conn : TcpConn, w.point = .filling → Unbroken w.sent conn w.sock →
      conn.established = w.conn.established → (TCP_BUF ≤ conn.pendingOut.len ∨
        conn.outToApp.queue = [] ∧ (conn.outToApp.peer = false → conn.outEof = true)) →
      Awake (w.drained conn) := by
    intro conn hp hu he hc
    obtain ⟨hfl, hr⟩ := drained_flushed hu hroom hc
    refine amid nofun (fun _ => hr) (fun _ => .inr (.inr hfl)) nofun fun _ _ => ?_
    refine (h.sampled (by rw [hp]; nofun) (by rw [hp]; nofun)).imp_right fun hst e => ?_
    have hstate : TcpApi.state (w.drained conn).sock.sock = TcpApi.state w.sock.sock :=
      (drained_sock w conn).1
    exact he.trans (hst (hstate.symm.trans e))
  cases hs with
  | take hp hf => exact amid nofun (fun _ => hroom) nofun nofun fun hne => absurd rfl hne
  | sample hp =>
      refine amid nofun (fun _ => hroom) nofun nofun fun _ _ => .inr fun e => ?_
      unfold TcpConn.sample
      split
      · rfl
      · next hc =>
          rw [Bool.and_eq_true, not_and] at hc
          by_contra hn
          exact hc (by simpa using hn) (beq_iff_eq.mpr e)
  | receive hp hq =>
      refine amid (by rw [hp]; nofun) (fun _ => hroom) (by rw [hp]; nofun) (by rw [hp]; nofun)
        h.sampled
  | full hp hle => exact hdrain _ hp hd.unbroken rfl (.inl hle)
  | empty hp hq hpeer =>
      exact hdrain _ hp hd.unbroken rfl (.inr ⟨hq, fun e => by rw [hpeer] at e; cases e⟩)
  | ended hp hq hpeer =>
      exact hdrain { w.conn with outEof := true } hp (hd.unbroken.stage (.ended hq hpeer)) rfl
        (.inr ⟨hq, fun _ => rfl⟩)
  | @send hp tx part htx hroom' hrx =>
      have hr : txRoom (TcpApi.recv w.sock).2.sock = txRoom w.sock.sock :=
        TcpRoomLaws.recv_room w.sock.sock
      have hcan : TcpApi.canSend (TcpApi.recv w.sock).2.sock = TcpApi.canSend w.sock.sock :=
        Bool.eq_iff_iff.mpr (by rw [canSend_iff, canSend_iff, hr])
      refine amid (by rw [hp]; nofun) (fun _ => hr.trans_le hroom) (fun _ => ?_)
        (by rw [hp]; nofun) fun _ _ => ?_
      · refine (h.flushed (.inr (.inl hp))).imp_right fun hfl => hfl.imp_right fun hfl => ⟨?_, ?_⟩
        · exact hfl.pending.imp_right hcan.trans
        · exact hfl.channel.imp_right (And.imp_left hcan.trans)
      · refine (h.sampled (by rw [hp]; nofun) (by rw [hp]; nofun)).imp_right fun hst e => hst ?_
        exact (recv_state w.sock.sock).symm.trans e
  | stop hp hs =>
      exact amid nofun (fun _ => hroom)
        (fun _ => (h.flushed (.inr (.inl hp))).imp_right fun hfl => hfl.imp_right fun hfl =>
          ⟨hfl.pending, hfl.channel⟩)
        (fun _ tx htx hcan _ => hs tx htx hcan)
        fun _ _ => h.sampled (by rw [hp]; nofun) (by rw [hp]; nofun)
  | leave hp => exact h.leave hd hp

theorem step [TcpRoomLaws T] [TcpSendLaws T] {e : LinkEvent T} (h : Awake w) (hf : Flowing w)
    (hs : LinkStep w e w') : Awake w' := by
  cases e with
  | pass => exact h.moved hf.down (pass_moved hs)
  | reap => exact reap hs
  | poll sock data spurious => exact h.poll hs
  | connect ok => exact h.connect hf.up hs
  | read got => exact h.reads (reads_reads hs)
  | write failed => exact h.writes (writes_writes hs)

theorem of_reachable [TcpRoomLaws T] [TcpSendLaws T] (h : LinkReachable w) : Awake w := by
  refine (Reachable.invariant (I := fun w => Flowing w ∧ Awake w) (fun w ho => ?_)
    (fun w e w' hi hs => ?_) h).2
  · exact ⟨.opened ho, new ho⟩
  · exact ⟨hi.1.step hs, hi.2.step hi.1 hs⟩

end Awake

/-! ### What is at rest -/

/-- A flow that a pass would find as the last one left it. -/
structure Settled (w : Link T) : Prop where
  armed : w.recvWaker = true ∧ w.sendWaker = true
  flushed : w.reader.due = false → w.Flushed
  relayed : w.writer.due = false → w.Relayed
  halved : w.Halved
  sampled : TcpApi.state w.sock = .established → w.conn.established = true
  ended : w.conn.outEof = true → w.conn.pendingOut.isEmpty = true → w.sock.closed = true
  opened : TcpApi.state w.sock ≠ .closed

theorem Settled.of_awake (ha : Awake w) (hp : w.point = .resting) (hf : w.filed = false) :
    Settled w := by
  have hno : ∀ {P : Prop}, w.filed = true ∨ P → P := fun hor =>
    hor.resolve_left (by rw [hf]; nofun)
  refine ⟨hno (ha.armed hp), fun hd => ?_, fun hd => ?_, hno (ha.halved hp), hno (ha.sampled ?_ ?_),
    ha.ended hp, hno (ha.opened hp)⟩
  · exact (hno (ha.flushed (.inl hp))).resolve_left (by rw [hd]; nofun)
  · exact (hno (ha.relayed (.inl hp))).resolve_left (by rw [hd]; nofun)
  · rw [hp]; nofun
  · rw [hp]; nofun

/-- The channel to the egress is open for as long as the writing half has its end. -/
def Joined (w : Link T) : Prop :=
  ∀ tx, w.conn.appToOut = some tx → tx.peer = w.writer.holds

omit [TcpBufferLaws T] in
theorem leave_appToOut {tx : Chan} (h : w.leave.conn.appToOut = some tx) :
    w.conn.appToOut = some tx := by
  unfold leave rest at h
  split at h
  · cases h
  · change w.halfClose.shut.conn.appToOut = some tx at h
    rw [(shut_flight w.halfClose).2] at h
    exact Intact.halfClose_some h

namespace Joined

omit [TcpBufferLaws T] in
theorem moved [TcpLaws T] (h : Joined w) (hs : Moved w w') : Joined w' := by
  have hdrain : ∀ conn : TcpConn, conn.appToOut = w.conn.appToOut → Joined (w.drained conn) :=
    fun conn ha tx htx => h tx (ha.symm.trans htx)
  cases hs with
  | sample hp =>
      intro tx htx
      refine h tx (htx ▸ ?_)
      unfold TcpConn.sample
      split <;> rfl
  | full hp hle => exact hdrain _ rfl
  | empty hp hq hpeer => exact hdrain _ rfl
  | ended hp hq hpeer => exact hdrain { w.conn with outEof := true } rfl
  | @send hp tx part htx hroom hrx =>
      rintro _ ⟨rfl⟩
      exact h tx htx
  | leave hp =>
      intro tx htx
      rw [(leave_kept w).writer]
      exact h tx (leave_appToOut htx)
  | _ => exact h

omit [TcpApi T] [TcpBufferLaws T] in
theorem writes (h : Joined w) (hs : Writes w w') : Joined w' := by
  have hdrop : Joined w.dropRx := fun tx htx => by
    obtain ⟨_, -, rfl⟩ := Option.map_eq_some_iff.mp htx
    rfl
  cases hs with
  | forsake hw hr => exact hdrop
  | drop hw => exact hdrop
  | recv hw hq =>
      intro tx htx
      obtain ⟨tx, hold, rfl⟩ := Option.map_eq_some_iff.mp htx
      rw [show (EgressAct.apply tx w.conn.outToApp .recv).1.peer = tx.peer from rfl, h tx hold, hw]
      rfl
  | finish hw hq ha => exact fun tx htx => by rw [h tx htx, hw]; rfl
  | write hw => exact fun tx htx => by rw [h tx htx, hw]; rfl
  | fail hw n => exact fun tx htx => by rw [h tx htx, hw]; rfl
  | mark hw => exact fun tx htx => by rw [h tx htx, hw]; rfl

theorem step {e : LinkEvent T} (h : Joined w) (hu : Up w) (hs : LinkStep w e w') : Joined w' := by
  cases e with
  | pass => exact h.moved (pass_moved hs)
  | reap =>
      unfold LinkStep Link.step Link.reap at hs
      dsimp only at hs
      split at hs <;> cases hs
      exact nofun
  | poll sock data spurious =>
      unfold LinkStep Link.step Link.poll at hs
      dsimp only at hs
      split at hs <;> cases hs
      exact h
  | connect ok =>
      unfold LinkStep Link.step Link.connect at hs
      dsimp only at hs
      split at hs
      · next hr =>
          split at hs <;> cases hs
          · exact fun tx htx => by rw [h tx htx, hu.connecting hr]; rfl
          · exact h
      · cases hs
  | read got =>
      have hf := (reads_reads hs).frame
      intro tx htx
      rw [hf.writer]
      exact h tx (hf.appToOut ▸ htx)
  | write failed => exact h.writes (writes_writes hs)

theorem of_reachable [TcpSendLaws T] (h : LinkReachable w) : Joined w := by
  refine (Reachable.invariant (I := fun w => Flowing w ∧ Joined w) (fun w ho => ?_)
    (fun w e w' hi hs => ?_) h).2
  · refine ⟨.opened ho, ?_⟩
    obtain ⟨handle, deadline, dst, sock, -, rfl⟩ := ho
    rintro _ ⟨rfl⟩
    rfl
  · exact ⟨hi.1.step hs, hi.2.step hi.1.up hs⟩

end Joined

/-- No party can move, but for the server, smoltcp and the clock. -/
structure Stalled (w : Link T) : Prop where
  pass : w.step .pass = none
  read : w.reader = .connecting ∨ w.reader = .reading ∨ ∀ got, w.step (.read got) = none
  write : (∃ chunk, w.writer = .writing chunk) ∨ ∀ failed, w.step (.write failed) = none

namespace Stalled

theorem rests (hs : Stalled w) (hp : w.point ≠ .removed) :
    w.point = .resting ∧ w.filed = false := by
  have h : w.pass = none := hs.pass
  unfold Link.pass at h
  split at h
  · next hr =>
      split at h
      · cases h
      · next hf => exact ⟨hr, by simpa using hf⟩
  · cases h
  · cases h
  · cases h
  · cases h
  · next hr => exact absurd hr hp

/-- The reading half waits for the server, or for a place in the channel, or has ended. -/
theorem reader (hs : Stalled w) (hp : w.point ≠ .removed) :
    w.reader.due = false ∧ (w.reader.held = [] ∨ w.conn.outToApp.queue ≠ []) := by
  rcases hs.read with hr | hr | hr
  · rw [hr]; exact ⟨rfl, .inl rfl⟩
  · rw [hr]; exact ⟨rfl, .inl rfl⟩
  · have h : w.reads none = none := hr none
    unfold Link.reads at h
    split at h
    · next e => rw [e]; exact ⟨rfl, .inl rfl⟩
    · cases h
    · next e =>
        rw [if_neg hp] at h
        split at h
        · cases h
        · next hfull =>
            rw [e]
            refine ⟨rfl, .inr fun hq => hfull ?_⟩
            rw [hq]
            decide
    · cases h
    · cases h
    · cases h
    · next e => rw [e]; exact ⟨rfl, .inl rfl⟩

/-- The writing half waits for the server, or for a chunk, or has ended. -/
theorem writer (hs : Stalled w) :
    (∃ chunk, w.writer = .writing chunk) ∨ w.writer = .connecting ∨ w.writer = .done ∨
      w.writer = .receiving ∧ w.flight = [] ∧ w.conn.appToOut ≠ none := by
  refine hs.write.imp_right fun hw => ?_
  have h : w.writes none = none := hw none
  unfold Link.writes at h
  split at h
  · next e => exact .inl e
  · next e =>
      split at h
      · cases h
      · next hq =>
          split at h
          · cases h
          · next ha => exact .inr (.inr ⟨e, hq, by simpa using ha⟩)
  · cases h
  · cases h
  · cases h
  · next e => exact .inr (.inl e)

end Stalled

end Link

end Tunnel.Conn
