import Tunnel.Conn.Tasks

/-!
# Conn — From the app to the server and back

The bytes of one TCP flow between its socket and the server's, in every order in which the poll loop
and the two halves of the egress task can move.

* `Down`, `Up`: where the bytes of each direction are, at every point of a pass.
* `streams`: the server gets what the app sent, in order and once, as far as it gets it, and so does
  the app; an end that is passed on comes after all the bytes before it.
-/

namespace Tunnel.Conn
open Support TcpLaws TcpBufferLaws

namespace Link

variable {T : Type}

/-! ### The invariants -/

/-- Server bytes are with the app's socket, in the flow, in the channel or with the reader. -/
structure Down (w : Link T) : Prop where
  unbroken : Unbroken w.sent w.conn w.sock
  peer : w.conn.outToApp.peer = w.reader.holds
  /-- Only a removed flow loses a chunk, and it has not closed its socket. -/
  read : ∃ lost, w.read = w.sent.flatten ++ w.reader.held ++ lost ∧
    (lost ≠ [] → w.point = .removed ∧ w.reader.past = true ∧ w.sock.closed = false)
  stats : w.stats.read = .ofNat w.read.length

/-- App bytes are with the server, the writer, in the channel or in the receive queue. -/
structure Up [TcpApi T] [TcpLaws T] (w : Link T) : Prop where
  whole : w.failed = false → ∃ rest,
    w.entered = w.written ++ w.writer.held ++ w.flight.flatten ++ rest ∧
      (w.point ≠ .removed → rest = (rx w.sock.sock).flatten)
  failed : w.failed = true → w.written <+: w.entered ∧ w.reader ≠ .connecting ∧
    (w.writer = .connecting ∨ w.writer.past = true)
  connecting : w.reader = .connecting → w.writer = .connecting
  connected : w.writer = .connecting → w.reader = .connecting ∨ w.failed = true
  past : w.failed = false → w.writer.past = true → w.conn.appToOut = none ∧ w.flight = []
  stats : ∃ whole part, w.written = whole ++ part ∧ w.stats.written = .ofNat whole.length ∧
    (w.failed = false → part = [])

/-- A flow that no longer sends to the egress has nothing to send, and never will. -/
structure Shut [TcpApi T] [TcpLaws T] (w : Link T) : Prop where
  shut : w.conn.appToOut = none → w.point ≠ .removed →
    rx w.sock.sock = [] ∧ (TcpApi.state w.sock.sock).age = 2
  begun : w.conn.established = true → w.point ≠ .removed →
    1 ≤ (TcpApi.state w.sock.sock).age

variable [TcpApi T] {w w' : Link T}

/-! ### Towards the app -/

namespace Down

omit [TcpApi T] in
theorem read_eq (h : Down w) (hp : w.point ≠ .removed) :
    w.read = w.sent.flatten ++ w.reader.held := by
  obtain ⟨lost, hread, hlost⟩ := h.read
  have hnil : lost = [] := by
    by_contra hne
    exact hp (hlost hne).1
  rw [hread, hnil, List.append_nil]

omit [TcpApi T] in
theorem of_kept (h : Down w) (hp : w.point ≠ .removed) (hk : Kept w w')
    (hpeer : w'.conn.outToApp.peer = w.conn.outToApp.peer)
    (hu : Unbroken w.sent w'.conn w'.sock) : Down w' := by
  refine ⟨hk.sent ▸ hu, ?_, ⟨[], ?_, fun hne => absurd rfl hne⟩, ?_⟩
  · rw [hpeer, hk.reader]
    exact h.peer
  · rw [hk.read, hk.sent, hk.reader, List.append_nil]
    exact h.read_eq hp
  · rw [hk.stats, hk.read]
    exact h.stats

theorem leave_unbroken [TcpSendLaws T] (hu : Unbroken w.sent w.conn w.sock) :
    Unbroken w.sent w.leave.conn w.leave.sock ∧ w.leave.conn.outToApp = w.conn.outToApp := by
  have hhalf : (w.conn.halfClose w.sock).outToApp = w.conn.outToApp ∧
      Stage (w.conn, w.sock) (w.conn.halfClose w.sock, w.sock) := by
    unfold TcpConn.halfClose
    split <;> exact ⟨rfl, .other rfl rfl rfl rfl rfl⟩
  have hshut : ∀ v : Link T, v.shut.conn = v.conn ∧
      (Unbroken w.sent v.conn v.sock → Unbroken w.sent v.conn v.shut.sock) := by
    intro v
    unfold shut
    split
    · next hc =>
        rw [Bool.and_eq_true] at hc
        exact ⟨rfl, fun hu => hu.stage (.close hc.1 hc.2)⟩
    · exact ⟨rfl, id⟩
  have hrest : ∀ v : Link T, v.rest.conn.outToApp = v.conn.outToApp ∧
      (Unbroken w.sent v.conn v.sock → Unbroken w.sent v.rest.conn v.rest.sock) := by
    intro v
    unfold rest
    split
    · exact ⟨rfl, fun hu => hu.stage (.other rfl rfl rfl rfl rfl)⟩
    · exact ⟨rfl, id⟩
  obtain ⟨hc, hs⟩ := hshut w.halfClose
  refine ⟨(hrest _).2 ?_, (hrest _).1.trans ((congrArg _ hc).trans hhalf.1)⟩
  rw [hc]
  exact hs (hu.stage hhalf.2)

theorem moved [TcpLaws T] [TcpSendLaws T] (h : Down w) (hs : Moved w w') : Down w' := by
  have hdrain : ∀ conn : TcpConn, Unbroken w.sent conn w.sock →
      Unbroken w.sent (w.drained conn).conn (w.drained conn).sock := fun conn hu =>
    hu.stages (drainPending_stages _ conn w.sock false)
  refine h.of_kept hs.not_removed hs.kept ?_ ?_
  · cases hs with
    | sample hp => exact congrArg Chan.peer (sample_queues _ _).2
    | leave hp => exact congrArg Chan.peer (leave_unbroken h.unbroken).2
    | _ => rfl
  · cases hs with
    | take hp hf => exact h.unbroken
    | sample hp =>
        refine h.unbroken.stage (.other (sample_queues _ _).1 (sample_queues _ _).2 ?_ rfl rfl)
        unfold TcpConn.sample
        split <;> rfl
    | receive hp hq => exact h.unbroken.stage (.receive hq)
    | full hp hle => exact hdrain _ h.unbroken
    | empty hp hq hpeer => exact hdrain _ h.unbroken
    | ended hp hq hpeer => exact hdrain _ (h.unbroken.stage (.ended hq hpeer))
    | send hp htx hroom hrx => exact h.unbroken.stage (.other rfl rfl rfl rfl rfl)
    | stop hp hs => exact h.unbroken
    | leave hp => exact (leave_unbroken h.unbroken).1

omit [TcpApi T] in
theorem reads (h : Down w) (hs : Reads w w') : Down w' := by
  obtain ⟨lost, hread, hlost⟩ := h.read
  have hpeer := h.peer
  -- a reader in its loop has lost nothing
  have hnone : w.reader.past = false → lost = [] := by
    intro ho
    by_contra hne
    rw [(hlost hne).2.1] at ho
    cases ho
  cases hs with
  | read hr data =>
      cases hnone (by rw [hr]; rfl)
      refine ⟨h.unbroken, by rw [hpeer, hr]; rfl, ⟨[], ?_, nofun⟩, ?_⟩
      · simp only [hread, hr, Reader.held, List.append_nil]
      · change w.stats.read + .ofNat data.length = _
        rw [h.stats, List.length_append, UInt64.ofNat_add]
  | finish hr =>
      cases hnone (by rw [hr]; rfl)
      exact ⟨h.unbroken, by rw [hpeer, hr]; rfl, ⟨[], by rw [hread, hr]; rfl, nofun⟩, h.stats⟩
  | @lose chunk hr hp =>
      cases hnone (by rw [hr]; rfl)
      refine ⟨h.unbroken, by rw [hpeer, hr]; rfl, ⟨chunk, ?_, fun _ => ⟨hp, rfl, ?_⟩⟩, h.stats⟩
      · simp only [hread, hr, Reader.held, List.append_nil]
      · by_contra hcl
        have hend := (h.unbroken.ended (h.unbroken.closed (by simpa using hcl)).1).1
        rw [hpeer, hr] at hend
        cases hend
  | @send chunk hr hp hroom =>
      cases hnone (by rw [hr]; rfl)
      have hp' : w.conn.outToApp.peer = true := by rw [hpeer, hr]; rfl
      have hnew : (EgressAct.send chunk).delivered w.conn.outToApp = [chunk] := by
        simp [EgressAct.delivered, hp', hroom]
      have hu := h.unbroken.egress (.send chunk)
      rw [hnew] at hu
      refine ⟨hu, ?_, ⟨[], ?_, nofun⟩, h.stats⟩
      · simp only [TcpConn.egress, EgressAct.apply, hp', hroom, Chan.send]
        rfl
      · simp only [hread, hr, Reader.held, List.append_nil, List.flatten_append, List.flatten_singleton]
  | mark hr =>
      cases hnone (by rw [hr]; rfl)
      exact ⟨h.unbroken, by rw [mark, hpeer, hr]; rfl, ⟨[], by rw [mark, hread, hr]; rfl, nofun⟩,
        h.stats⟩
  | drop hr =>
      refine ⟨List.append_nil w.sent ▸ h.unbroken.egress .dropTx, rfl,
        ⟨lost, by rw [hread, hr]; rfl, fun hne => ?_⟩, h.stats⟩
      exact ⟨(hlost hne).1, rfl, (hlost hne).2.2⟩
  | last hr =>
      refine ⟨h.unbroken, by rw [mark, hpeer, hr]; rfl,
        ⟨lost, by rw [mark, hread, hr]; rfl, fun hne => ?_⟩, h.stats⟩
      exact ⟨(hlost hne).1, rfl, (hlost hne).2.2⟩

omit [TcpApi T] in
theorem writes (h : Down w) (hs : Writes w w') : Down w' := by
  obtain ⟨hwf, hstream, hended, hclosed⟩ := h.unbroken
  have hf := hs.frame
  refine ⟨⟨hf.pending.1 ▸ hwf, ?_, ?_, ?_⟩, ?_, ?_, ?_⟩
  · rw [hf.sent, hf.outToApp, hf.pending.1, hf.sock]
    exact hstream
  · rw [hf.outToApp, hf.pending.2]
    exact hended
  · rw [hf.sock, hf.pending.1, hf.pending.2]
    exact hclosed
  · rw [hf.outToApp, hf.reader]
    exact h.peer
  · rw [hf.read, hf.sent, hf.reader, hf.point, hf.sock]
    exact h.read
  · rw [hf.stats, hf.read]
    exact h.stats

end Down

/-! ### Towards the server -/

section
variable [TcpLaws T]

theorem drained_sock (w : Link T) (conn : TcpConn) :
    TcpApi.state (w.drained conn).sock.sock = TcpApi.state w.sock.sock ∧
      rx (w.drained conn).sock.sock = rx w.sock.sock := by
  have hr := drainPending_recorded conn.pendingOut.len conn.pendingOut w.sock false
  have hk := drainPending_keeps conn.pendingOut.len conn.pendingOut w.sock.sock false
  rw [hr] at hk
  exact hk

theorem shut_rx (w : Link T) : rx w.shut.sock.sock = rx w.sock.sock := by
  unfold shut
  split
  · exact close_rx w.sock.sock
  · rfl

omit [TcpLaws T] in
theorem halfClose_flight (w : Link T) : w.halfClose.flight = w.flight := by
  unfold halfClose flight
  cases h : (w.conn.halfClose w.sock).appToOut with
  | none => rfl
  | some tx => simp [Intact.halfClose_some h]

omit [TcpLaws T] in
theorem shut_flight (w : Link T) : w.shut.flight = w.flight ∧ w.shut.conn = w.conn := by
  unfold shut
  split <;> exact ⟨rfl, rfl⟩

omit [TcpLaws T] in
theorem rest_flight (w : Link T) : w.rest.flight = w.flight ∧ w.rest.sock = w.sock ∧
    (w.conn.appToOut = none → w.rest.conn.appToOut = none) := by
  unfold rest
  split
  · exact ⟨rfl, rfl, fun _ => rfl⟩
  · exact ⟨rfl, rfl, id⟩

/-- The end of a pass leaves the bytes for the egress where they are. -/
theorem leave_flight (w : Link T) : w.leave.flight = w.flight ∧
    rx w.leave.sock.sock = rx w.sock.sock ∧
    (w.conn.appToOut = none → w.leave.conn.appToOut = none) := by
  obtain ⟨hf, hs, ha⟩ := rest_flight w.halfClose.shut
  obtain ⟨hf', hc⟩ := shut_flight w.halfClose
  refine ⟨(hf.trans hf').trans (halfClose_flight w), ?_, fun hn => ha ?_⟩
  · unfold leave
    rw [hs]
    exact shut_rx w.halfClose
  · rw [hc]
    cases h : (w.conn.halfClose w.sock).appToOut with
    | none => exact h
    | some tx => rw [Intact.halfClose_some h] at hn; cases hn

end

namespace Up

variable [TcpLaws T]

theorem of_kept (h : Up w) (hp : w.point ≠ .removed) (hk : Kept w w')
    (hf : w.flight.flatten ++ (rx w.sock.sock).flatten =
      w'.flight.flatten ++ (rx w'.sock.sock).flatten)
    (ho : w.conn.appToOut = none → w'.conn.appToOut = none ∧ w'.flight = w.flight) : Up w' := by
  refine ⟨fun hn => ?_, ?_, ?_, ?_, ?_, ?_⟩
  · rw [hk.failed] at hn
    obtain ⟨rest, hrest, hrx⟩ := h.whole hn
    refine ⟨_, ?_, fun _ => rfl⟩
    rw [hk.entered, hk.written, hk.writer, hrest, hrx hp]
    simp only [List.append_assoc, hf]
  · rw [hk.failed, hk.written, hk.entered, hk.reader, hk.writer]
    exact h.failed
  · rw [hk.reader, hk.writer]
    exact h.connecting
  · rw [hk.reader, hk.writer, hk.failed]
    exact h.connected
  · rw [hk.failed, hk.writer]
    intro hn hw
    obtain ⟨ha, hq⟩ := h.past hn hw
    exact ⟨(ho ha).1, (ho ha).2.trans hq⟩
  · rw [hk.written, hk.stats, hk.failed]
    exact h.stats

theorem moved (h : Up w) (hs : Moved w w') : Up w' := by
  have hsame : w'.flight = w.flight → rx w'.sock.sock = rx w.sock.sock →
      (w.conn.appToOut = none → w'.conn.appToOut = none) → Up w' := fun hf hr ha =>
    h.of_kept hs.not_removed hs.kept (by rw [hf, hr]) fun hn => ⟨ha hn, hf⟩
  have hdrain : ∀ conn : TcpConn, conn.appToOut = w.conn.appToOut → w' = w.drained conn → Up w' := by
    rintro conn ha rfl
    refine hsame ?_ (drained_sock w conn).2 fun hn => ha.trans hn
    unfold flight
    rw [show (w.drained conn).conn.appToOut = w.conn.appToOut from ha]
    rfl
  cases hs with
  | take hp hf => exact hsame rfl rfl id
  | sample hp =>
      have ha : (w.conn.sample w.sock).appToOut = w.conn.appToOut := by
        unfold TcpConn.sample
        split <;> rfl
      refine hsame ?_ rfl fun hn => ha.trans hn
      unfold flight
      dsimp only
      rw [ha]
  | receive hp hq => exact hsame rfl rfl id
  | full hp hle => exact hdrain _ rfl rfl
  | empty hp hq hpeer => exact hdrain _ rfl rfl
  | ended hp hq hpeer => exact hdrain { w.conn with outEof := true } rfl rfl
  | @send hp tx part htx hroom hrx =>
      refine h.of_kept (by rw [hp]; nofun) ⟨rfl, rfl, rfl, rfl, rfl, rfl, rfl, rfl⟩ ?_ fun hn => ?_
      · unfold flight
        rw [htx, hrx]
        simp [Chan.send]
      · rw [htx] at hn
        cases hn
  | stop hp hs => exact hsame rfl rfl id
  | leave hp =>
      obtain ⟨hf, hr, ha⟩ := leave_flight w
      exact hsame hf hr ha

/-- The reading half is no part of it, but that it tells when it has connected. -/
theorem reads (h : Up w) (hs : Reads w w') : Up w' := by
  have hf := hs.frame
  refine ⟨?_, ?_, fun hr => absurd hr hf.connected.2, ?_, ?_, ?_⟩
  · rw [hf.failed, hf.entered, hf.written, hf.writer, hf.flight, hf.point, hf.sock]
    exact h.whole
  · rw [hf.failed, hf.written, hf.entered, hf.writer]
    exact fun hn => ⟨(h.failed hn).1, hf.connected.2, (h.failed hn).2.2⟩
  · rw [hf.writer, hf.failed]
    exact fun hw => .inr ((h.connected hw).resolve_left hf.connected.1)
  · rw [hf.failed, hf.writer, hf.appToOut, hf.flight]
    exact h.past
  · rw [hf.written, hf.stats, hf.failed]
    exact h.stats

theorem dropRx (h : Up w) (hr : w.reader ≠ .connecting) (hw : w.writer.held = [])
    (hn : w.failed = false → w.writer.past = true) : Up w.dropRx := by
  refine ⟨fun hf => ?_, fun hf => ⟨(h.failed hf).1, hr, .inr rfl⟩, fun e => absurd e hr, nofun,
    fun hf _ => ?_, h.stats⟩
  · obtain ⟨rest, hrest, hrx⟩ := h.whole hf
    obtain ⟨ha, hq⟩ := h.past hf (hn hf)
    refine ⟨rest, ?_, hrx⟩
    rw [hw, hq] at hrest
    unfold Link.dropRx flight
    dsimp only [TcpConn.egress]
    rw [ha]
    exact hrest
  · obtain ⟨ha, -⟩ := h.past hf (hn hf)
    unfold Link.dropRx flight
    dsimp only [TcpConn.egress]
    rw [ha]
    exact ⟨rfl, rfl⟩

theorem writes (h : Up w) (hs : Writes w w') : Up w' := by
  obtain ⟨whole, part, hpart, hstat, hpnil⟩ := h.stats
  have hreader : w.writer ≠ .connecting → w.reader ≠ .connecting := fun hne hr =>
    hne (h.connecting hr)
  have hsound : w.writer ≠ .connecting → w.writer.past = false → w.failed = false := by
    intro hne ho
    by_contra hf
    rcases (h.failed (by simpa using hf)).2.2 with hw | hw
    · exact hne hw
    · rw [ho] at hw
      cases hw
  cases hs with
  | forsake hw hr =>
      have hf : w.failed = true := (h.connected hw).resolve_left (by rw [hr]; nofun)
      exact h.dropRx (by rw [hr]; nofun) (by rw [hw]; rfl) (by rw [hf]; nofun)
  | @recv hw chunk rest hq =>
      have hf := hsound (by rw [hw]; nofun) (by rw [hw]; rfl)
      obtain ⟨more, hmore, hrx⟩ := h.whole hf
      have hr := hreader (by rw [hw]; nofun)
      have htail : flight { w with
          conn := w.conn.egress .recv
          left := w.left.tail
          writer := .writing chunk } = rest := by
        unfold flight at hq ⊢
        dsimp only [TcpConn.egress]
        cases ha : w.conn.appToOut with
        | none =>
            rw [ha] at hq
            dsimp only at hq
            simp [hq]
        | some tx =>
            rw [ha] at hq
            dsimp only at hq
            simp [EgressAct.apply, hq]
      refine ⟨fun _ => ⟨more, ?_, hrx⟩, fun hf' => ?_, fun e => absurd e hr, nofun, nofun, h.stats⟩
      · rw [htail]
        rw [hmore, hw, hq]
        simp [Writer.held]
      · rw [hf] at hf'
        cases hf'
  | finish hw hq ha =>
      have hf := hsound (by rw [hw]; nofun) (by rw [hw]; rfl)
      have hr := hreader (by rw [hw]; nofun)
      obtain ⟨more, hmore, hrx⟩ := h.whole hf
      refine ⟨fun _ => ⟨more, by rw [hmore, hw]; rfl, hrx⟩, fun hf' => ?_, fun e => absurd e hr, nofun,
        fun _ _ => ⟨ha, hq⟩, h.stats⟩
      rw [hf] at hf'
      cases hf'
  | @write chunk hw =>
      have hf := hsound (by rw [hw]; nofun) (by rw [hw]; rfl)
      have hr := hreader (by rw [hw]; nofun)
      obtain ⟨more, hmore, hrx⟩ := h.whole hf
      cases hpnil hf
      refine ⟨fun _ => ⟨more, ?_, hrx⟩, fun hf' => ?_, fun e => absurd e hr, nofun, nofun,
        ⟨w.written ++ chunk, [], by simp, ?_, fun _ => rfl⟩⟩
      · rw [hmore, hw]
        simp [Writer.held, flight]
      · rw [hf] at hf'
        cases hf'
      · change w.stats.written + .ofNat chunk.length = _
        rw [hstat, hpart, List.append_nil, List.length_append, UInt64.ofNat_add]
  | @fail chunk hw n =>
      have hf := hsound (by rw [hw]; nofun) (by rw [hw]; rfl)
      have hr := hreader (by rw [hw]; nofun)
      obtain ⟨more, hmore, hrx⟩ := h.whole hf
      cases hpnil hf
      refine ⟨nofun, fun _ => ⟨?_, hr, .inr rfl⟩, fun e => absurd e hr, nofun, nofun,
        ⟨whole, chunk.take n, by rw [hpart, List.append_nil], hstat, nofun⟩⟩
      rw [hmore, hw]
      refine List.IsPrefix.trans ?_ (List.prefix_append _ _)
      refine List.IsPrefix.trans ?_ (List.prefix_append _ _)
      exact List.prefix_append_right_inj _ |>.mpr (List.take_prefix _ _)
  | mark hw =>
      have hf := hsound (by rw [hw]; nofun) (by rw [hw]; rfl)
      have hr := hreader (by rw [hw]; nofun)
      obtain ⟨more, hmore, hrx⟩ := h.whole hf
      refine ⟨fun _ => ⟨more, by rw [mark, hmore, hw]; rfl, hrx⟩, fun hf' => ?_, fun e => absurd e hr,
        nofun, nofun, h.stats⟩
      change w.failed = true at hf'
      rw [hf] at hf'
      cases hf'
  | drop hw =>
      exact h.dropRx (hreader (by rw [hw]; nofun)) (by rw [hw]; rfl) fun _ => by rw [hw]; rfl

end Up

/-! ### The end of the app's stream -/

section
variable [TcpLaws T]

theorem age_le (s : TcpState) : s.age ≤ 2 := by
  cases s <;> decide

theorem age_close (s : TcpState) : s.close.age = s.age ∨ s.early = true := by
  cases s <;> decide

theorem receives_of_age {s : TcpState} (h : s.age = 2) : s.receives = false := by
  revert h
  cases s <;> decide

theorem age_of_not {s : TcpState} (h : 1 ≤ s.age)
    (hs : ¬ (s = .established ∨ s = .finWait1 ∨ s = .finWait2)) : s.age = 2 := by
  revert h hs
  cases s <;> decide

namespace Shut

theorem leave (h : Shut w) (hp : w.point = .leaving) : Shut w.leave := by
  obtain ⟨-, hrx, -⟩ := leave_flight w
  rcases leave_cases w with hgone | ⟨-, -, -, hconn, -, hsock⟩
  · exact ⟨fun _ hne => absurd hgone hne, fun _ hne => absurd hgone hne⟩
  · have hlive : w.point ≠ .removed := by rw [hp]; nofun
    have hage : 1 ≤ (TcpApi.state w.sock.sock).age →
        (TcpApi.state w.leave.sock.sock).age = (TcpApi.state w.sock.sock).age := by
      intro hone
      rcases hsock with ⟨e, -⟩ | ⟨e, -⟩
      · rw [e, show (TcpApi.close w.sock).sock = TcpApi.close w.sock.sock from rfl, close_state]
        refine (age_close _).resolve_right fun he => ?_
        rw [TcpState.age, if_pos he] at hone
        cases hone
      · rw [e]
    have hest : w.leave.conn.established = w.conn.established := by
      rw [hconn]
      exact (halfClose_queues _ _).2.2.2
    refine ⟨fun ha _ => ?_, fun he _ => ?_⟩
    · rw [hconn] at ha
      change (w.conn.halfClose w.sock.sock).appToOut = none at ha
      rw [hrx]
      -- the sender was gone before, or goes now that the app's FIN is in and its bytes are out
      rcases Intact.halfClose_none ha with hn | ⟨he, hmay, hr⟩
      · obtain ⟨hr, htwo⟩ := h.shut hn hlive
        exact ⟨hr, (hage (by rw [htwo]; decide)).trans htwo⟩
      · have hone := h.begun he hlive
        refine ⟨hr, (hage hone).trans (age_of_not hone fun hopen => ?_)⟩
        have hyes := (mayRecv_iff w.sock.sock).mpr (hopen.imp_right (Or.imp_right .inl))
        rw [hmay] at hyes
        cases hyes
    · have hone := h.begun (hest.symm.trans he) hlive
      rw [hage hone]
      exact hone

theorem moved (h : Shut w) (hs : Moved w w') : Shut w' := by
  have hlive := hs.not_removed
  have hdrain : ∀ conn : TcpConn, conn.appToOut = w.conn.appToOut →
      conn.established = w.conn.established → Shut (w.drained conn) := by
    intro conn ha he
    obtain ⟨hst, hrx⟩ := drained_sock w conn
    refine ⟨fun hn _ => ?_, fun hb _ => ?_⟩
    · rw [hst, hrx]
      exact h.shut (ha.symm.trans hn) hlive
    · rw [hst]
      exact h.begun (he.symm.trans hb) hlive
  cases hs with
  | sample hp =>
      refine ⟨fun hn _ => h.shut ?_ hlive, fun he _ => ?_⟩
      · rw [← hn]
        unfold TcpConn.sample
        split <;> rfl
      · unfold TcpConn.sample at he
        split at he
        · next hc =>
            rw [Bool.and_eq_true, beq_iff_eq] at hc
            rw [show TcpApi.state w.sock.sock = .established from hc.2]
            decide
        · exact h.begun he hlive
  | full hp hle => exact hdrain _ rfl rfl
  | empty hp hq hpeer => exact hdrain _ rfl rfl
  | ended hp hq hpeer => exact hdrain { w.conn with outEof := true } rfl rfl
  | send hp htx hroom hrx =>
      refine ⟨nofun, fun he _ => ?_⟩
      rw [show TcpApi.state (TcpApi.recv w.sock).2.sock = TcpApi.state w.sock.sock from recv_state _]
      exact h.begun he hlive
  | leave hp => exact h.leave hp
  | _ => exact ⟨fun ha _ => h.shut ha hlive, fun he _ => h.begun he hlive⟩

theorem reads (h : Shut w) (hs : Reads w w') : Shut w' := by
  have hf := hs.frame
  refine ⟨?_, ?_⟩
  · rw [hf.appToOut, hf.point, hf.sock]
    exact h.shut
  · rw [hf.established, hf.point, hf.sock]
    exact h.begun

theorem writes (h : Shut w) (hs : Writes w w') : Shut w' := by
  have hf := hs.frame
  refine ⟨?_, ?_⟩
  · rw [hf.appToOut, hf.point, hf.sock]
    exact h.shut
  · rw [hf.established, hf.point, hf.sock]
    exact h.begun

end Shut

end

/-! ### Every order -/

section
variable [TcpBufferLaws T]

/-- Where all the bytes are. -/
structure Flowing (w : Link T) : Prop where
  down : Down w
  up : Up w
  shut : Shut w

namespace Flowing

theorem opened (h : Opened w) : Flowing w := by
  obtain ⟨handle, deadline, dst, sock, hlisten, rfl⟩ := h
  have hrx := listen_rx dst sock hlisten
  refine ⟨⟨⟨.empty, ⟨[], rfl, rfl⟩, nofun, nofun⟩, rfl, ⟨[], rfl, nofun⟩, rfl⟩, ?_, ⟨nofun, nofun⟩⟩
  refine ⟨fun _ => ⟨[], rfl, fun _ => ?_⟩, nofun, fun _ => rfl, fun _ => .inl rfl, nofun,
    ⟨[], [], rfl, rfl, fun _ => rfl⟩⟩
  rw [show (Link.new handle deadline sock).sock.sock = sock from rfl, hrx]
  rfl

theorem reap (h : Flowing w) (hs : w.reap = some w') : Flowing w' := by
  unfold Link.reap at hs
  split at hs <;> cases hs
  next hc =>
    have hlive : w.point ≠ .removed := by rw [hc.1]; nofun
    refine ⟨h.down.of_kept hlive ⟨rfl, rfl, rfl, rfl, rfl, rfl, rfl, rfl⟩ rfl
      ⟨h.down.unbroken.wf, h.down.unbroken.stream, h.down.unbroken.ended, h.down.unbroken.closed⟩, ?_,
      ⟨fun _ hne => absurd rfl hne,
      fun _ hne => absurd rfl hne⟩⟩
    refine ⟨fun hn => ?_, h.up.failed, h.up.connecting, h.up.connected, fun hn hw => ?_, h.up.stats⟩
    · obtain ⟨rest, hrest, -⟩ := h.up.whole hn
      exact ⟨rest, hrest, fun hne => absurd rfl hne⟩
    · exact ⟨rfl, (h.up.past hn hw).2⟩

theorem poll {sock : T} {data : Bytes} {spurious : Bool} (h : Flowing w)
    (hs : w.poll sock data spurious = some w') : Flowing w' := by
  unfold Link.poll at hs
  split at hs <;> cases hs
  next hc =>
    obtain ⟨hp, hrx, hage, hdata, -⟩ := hc
    have hlive : w.point ≠ .removed := by rw [hp]; nofun
    refine ⟨⟨h.down.unbroken.poll sock, h.down.peer, h.down.read, h.down.stats⟩, ?_, ⟨fun ha _ => ?_,
      fun he _ => (h.shut.begun he hlive).trans hage⟩⟩
    · refine ⟨fun hn => ?_, fun hn => ?_, h.up.connecting, h.up.connected, h.up.past, h.up.stats⟩
      · obtain ⟨rest, hrest, hr⟩ := h.up.whole hn
        refine ⟨_, ?_, fun _ => rfl⟩
        dsimp only
        rw [hrest, hr hlive, hrx, List.append_assoc]
        rfl
      · obtain ⟨hpre, hmore⟩ := h.up.failed hn
        exact ⟨hpre.trans (List.prefix_append _ _), hmore⟩
    · obtain ⟨hr, htwo⟩ := h.shut.shut ha hlive
      refine ⟨rx_eq_nil ?_, Nat.le_antisymm (age_le _) (htwo ▸ hage)⟩
      dsimp only
      rw [hrx, hr, hdata (receives_of_age htwo)]
      rfl

theorem connect {ok : Bool} (h : Flowing w) (hs : w.connect ok = some w') : Flowing w' := by
  unfold Link.connect at hs
  split at hs
  swap
  · cases hs
  next hr =>
    have hw := h.up.connecting hr
    have hf : w.failed = false := by
      by_contra hf
      exact (h.up.failed (by simpa using hf)).2.1 hr
    have hread : w.read = w.sent.flatten := by
      obtain ⟨lost, hread, hlost⟩ := h.down.read
      have hnone : lost = [] := by
        by_contra hne
        have ho := (hlost hne).2.1
        rw [hr] at ho
        cases ho
      rw [hread, hnone, hr]
      exact (List.append_nil _).trans (List.append_nil _)
    have hpeer : w.conn.outToApp.peer = true := by rw [h.down.peer, hr]; rfl
    obtain ⟨rest, hrest, hrx⟩ := h.up.whole hf
    rw [hw] at hrest
    have hdown : w.read = w.sent.flatten ++ [] ++ [] := by
      rw [hread, List.append_nil, List.append_nil]
    split at hs
    · cases hs
      refine ⟨⟨h.down.unbroken, hpeer, ⟨[], hdown, nofun⟩, h.down.stats⟩, ?_,
        ⟨h.shut.shut, h.shut.begun⟩⟩
      refine ⟨fun _ => ⟨rest, hrest, hrx⟩, fun hf' => ?_, nofun, nofun, nofun, h.up.stats⟩
      rw [hf] at hf'
      cases hf'
    · cases hs
      refine ⟨⟨h.down.unbroken, hpeer, ⟨[], hdown, nofun⟩, h.down.stats⟩, ?_,
        ⟨h.shut.shut, h.shut.begun⟩⟩
      obtain ⟨whole, part, hpart, hstat, -⟩ := h.up.stats
      refine ⟨nofun, fun _ => ⟨?_, nofun, .inl hw⟩, nofun, fun _ => .inr rfl, nofun,
        ⟨whole, part, hpart, hstat, nofun⟩⟩
      rw [hrest]
      simp only [List.append_assoc]
      exact List.prefix_append _ _

theorem step [TcpSendLaws T] {e : LinkEvent T} (h : Flowing w) (hs : LinkStep w e w') :
    Flowing w' := by
  cases e with
  | pass =>
      have hm := pass_moved hs
      exact ⟨h.down.moved hm, h.up.moved hm, h.shut.moved hm⟩
  | reap => exact h.reap hs
  | poll sock data spurious => exact h.poll hs
  | connect ok => exact h.connect hs
  | read got =>
      have hr := reads_reads hs
      exact ⟨h.down.reads hr, h.up.reads hr, h.shut.reads hr⟩
  | write failed =>
      have hw := writes_writes hs
      exact ⟨h.down.writes hw, h.up.writes hw, h.shut.writes hw⟩

theorem of_reachable [TcpSendLaws T] (h : LinkReachable w) : Flowing w :=
  Reachable.invariant (I := Flowing) (fun _ => opened) (fun _ _ _ hi hs => hi.step hs) h

end Flowing

/-- What the two ends of a flow see of each other's bytes. -/
structure Relays (w : Link T) : Prop where
  /-- The server gets a beginning of what the app sent. -/
  up : w.written <+: w.entered
  /-- The app gets a beginning of what the server sent. -/
  down : w.sock.accepted <+: w.read
  /-- While the flow lives, every other byte is somewhere between them. -/
  upward : w.point ≠ .removed → w.failed = false →
    w.entered = w.written ++ w.writer.held ++ w.flight.flatten ++ (rx w.sock.sock).flatten
  downward : w.point ≠ .removed → w.read =
    w.sock.accepted ++ w.conn.pendingOut.content ++ w.conn.outToApp.queue.flatten ++ w.reader.held
  /-- The server sees the end of the app's stream after all its bytes. -/
  shutdown : w.point ≠ .removed → w.failed = false → w.writer.past = true →
    w.written = w.entered ∧ (TcpApi.state w.sock.sock).age = 2
  /-- The app sees the end of the server's stream after all its bytes. -/
  close : w.sock.closed = true → w.sock.accepted = w.read ∧ w.reader.holds = false
  statsRead : w.stats.read = .ofNat w.read.length
  statsWritten : w.failed = false → w.stats.written = .ofNat w.written.length

theorem Relays.of_flowing (h : Flowing w) : Relays w := by
  obtain ⟨hd, hu, hs⟩ := h
  obtain ⟨received, hsent, hbytes⟩ := hd.unbroken.stream
  obtain ⟨lost, hread, hlost⟩ := hd.read
  have hdown : ∀ rest, w.sent.flatten ++ rest = w.sock.accepted ++ w.conn.pendingOut.content ++
      w.conn.outToApp.queue.flatten ++ rest := by
    intro rest
    rw [hbytes, ← List.flatten_append, ← hsent]
  have hup : w.point ≠ .removed → w.failed = false →
      w.entered = w.written ++ w.writer.held ++ w.flight.flatten ++ (rx w.sock.sock).flatten := by
    intro hp hf
    obtain ⟨rest, hrest, hrx⟩ := hu.whole hf
    rw [hrest, hrx hp]
  refine ⟨?_, ?_, hup, fun hp => ?_, fun hp hf hw => ?_, fun hcl => ?_, hd.stats, fun hf => ?_⟩
  · cases hf : w.failed with
    | true => exact (hu.failed hf).1
    | false =>
        obtain ⟨rest, hrest, -⟩ := hu.whole hf
        rw [hrest]
        simp only [List.append_assoc]
        exact List.prefix_append _ _
  · rw [hread, List.append_assoc, hdown]
    simp only [List.append_assoc]
    exact List.prefix_append _ _
  · rw [hd.read_eq hp, hdown]
  · obtain ⟨ha, hq⟩ := hu.past hf hw
    obtain ⟨hr, htwo⟩ := hs.shut ha hp
    refine ⟨?_, htwo⟩
    have hheld : w.writer.held = [] := by
      revert hw
      cases w.writer <;> simp [Writer.past, Writer.held]
    rw [hup hp hf, hheld, hq, hr]
    simp
  · obtain ⟨heof, hempty⟩ := hd.unbroken.closed hcl
    obtain ⟨hpeer, hqueue⟩ := hd.unbroken.ended heof
    rw [hd.peer] at hpeer
    have hnone : lost = [] := by
      by_contra hne
      have hno := (hlost hne).2.2
      rw [hcl] at hno
      cases hno
    have hheld : w.reader.held = [] := by
      revert hpeer
      cases w.reader <;> simp [Reader.holds, Reader.held]
    refine ⟨?_, hpeer⟩
    rw [hread, hnone, hheld, hdown, hqueue, hd.unbroken.wf.isEmpty_iff.mp hempty]
    simp
  · obtain ⟨whole, part, hpart, hstat, hnil⟩ := hu.stats
    rw [hstat, hpart, hnil hf, List.append_nil]

end

/-! ### A request and its answer -/

/-- A socket with nothing to read. -/
theorem quiet (state : TcpState) : state = .listen ∨ state = .synSent → ([] : Bytes) = [] :=
  fun _ => rfl

def webListening : Link BufTcp := .new 0 (secs 10) ⟨⟨.listen, []⟩, TCP_BUF, quiet .listen⟩

/-- The handshake, one byte from the app, two from the server, and a pass after each. -/
def exchange : List (LinkEvent BufTcp) :=
  List.replicate 5 .pass ++
    [.connect true, .poll ⟨⟨.synReceived, []⟩, TCP_BUF, nofun⟩ [] false,
      .poll ⟨⟨.established, [71]⟩, TCP_BUF, nofun⟩ [71] false] ++
    List.replicate 6 .pass ++ List.replicate 3 (.write none) ++
    [.read (some [72, 73]), .read none, .read none] ++ List.replicate 6 .pass

def exchanged : Link BufTcp where
  conn := ⟨0, some .new, .new, .empty, true, false, secs 10⟩
  sock := ⟨⟨⟨.established, []⟩, TCP_BUF - 2, quiet .established⟩, [72, 73], false⟩
  point := .resting
  filed := false
  recvWaker := true
  sendWaker := true
  left := []
  reader := .reading
  writer := .receiving
  stats := ⟨2, 1⟩
  entered := [71]
  read := [72, 73]
  sent := [[72, 73]]
  written := [71]
  failed := false

theorem exchanged_reachable : LinkReachable exchanged := by
  refine ⟨webListening, exchange, ⟨0, secs 10, webSyn.dst, _, ?_, rfl⟩, run_after ?_⟩
  · decide +kernel
  · decide +kernel

end Link

end Tunnel.Conn
