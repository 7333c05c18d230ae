import Tunnel.Conn.Inflow
import Tunnel.Conn.Memory
import Tunnel.State

/-!
# Conn — A flow and its egress task

One TCP flow with the two halves of its `tcp_task`, which run beside the poll loop.  A pass of
`service_tcp` is taken apart at its accesses to the two channels, so that a step of a task may fall
between any two of them (`Link.pass`); left alone, its steps are the pass (`Link.undisturbed`).

smoltcp holds the flow's waker for each direction from one pass to the first change that it reports,
and a fired waker files the flow ready.

A `Link` also records the bytes that enter its receive queue, the bytes read from and written to the
server, and the chunks that its task sent to the poll loop.
-/

namespace Tunnel.Conn
open Support TcpLaws TcpBufferLaws
open State (ExitStats)

/-! ### Where each party stands -/

/-- The reading half of `tcp_task`, which begins with its connect. -/
inductive Reader where
  | connecting
  /-- At `rd.read`. -/
  | reading
  /-- At `out_tx.send`. -/
  | sending (chunk : Bytes)
  /-- The chunk is sent; about to mark. -/
  | delivered
  /-- Out of its loop, or in `fail_flow`; about to drop `out_tx`. -/
  | ended
  /-- `out_tx` is dropped; about to mark. -/
  | dropped
  | done
deriving DecidableEq, Repr

/-- The writing half. -/
inductive Writer where
  | connecting
  /-- At `app_rx.recv`. -/
  | receiving
  /-- At `wr.write_all`. -/
  | writing (chunk : Bytes)
  /-- The chunk is written; about to mark. -/
  | written
  /-- Out of its loop, at `wr.shutdown`. -/
  | ended
  | done
deriving DecidableEq, Repr

/-- The poll loop, in a pass over the flow. -/
inductive Point where
  | resting
  /-- The flow is off the ready queue, and its turn has not come. -/
  | taken
  /-- egress → `pending_out`. -/
  | filling
  /-- smoltcp rx → egress. -/
  | relaying
  /-- From the half-close on. -/
  | leaving
  | removed
deriving DecidableEq, Repr

namespace Reader

/-- It is about to mark. -/
def due : Reader → Bool
  | .delivered | .dropped => true
  | _ => false

/-- It holds `out_tx`. -/
def holds : Reader → Bool
  | .dropped | .done => false
  | _ => true

/-- It is out of its loop. -/
def past : Reader → Bool
  | .ended | .dropped | .done => true
  | _ => false

/-- The bytes it has read and not sent. -/
def held : Reader → Bytes
  | .sending chunk => chunk
  | _ => []

end Reader

namespace Writer

/-- It has taken a chunk, and marks when the chunk is written. -/
def due : Writer → Bool
  | .writing _ | .written => true
  | _ => false

/-- It holds `app_rx`. -/
def holds : Writer → Bool
  | .done => false
  | _ => true

/-- It is out of its loop. -/
def past : Writer → Bool
  | .ended | .done => true
  | _ => false

/-- The bytes it has taken and not written. -/
def held : Writer → Bytes
  | .writing chunk => chunk
  | _ => []

end Writer

structure Link (T : Type) where
  conn : TcpConn
  sock : Recorded T
  point : Point
  /-- It is in the ready queue. -/
  filed : Bool
  recvWaker : Bool
  sendWaker : Bool
  /-- What the channel to the egress held when its sender was dropped, as far as it is not taken. -/
  left : List Bytes
  reader : Reader
  writer : Writer
  /-- What the flow has added to the counters. -/
  stats : ExitStats
  entered : Bytes
  read : Bytes
  sent : List Bytes
  written : Bytes
  /-- The connect or a write has failed. -/
  failed : Bool
deriving DecidableEq

namespace Link

section
variable {T : Type}

/-- A flow as `open_tcp` leaves it. -/
def new (handle : ℕ) (deadline : Instant) (sock : T) : Link T where
  conn := ⟨handle, some .new, .new, .empty, false, false, deadline⟩
  sock := ⟨sock, [], false⟩
  point := .resting
  filed := true
  recvWaker := true
  sendWaker := true
  left := []
  reader := .connecting
  writer := .connecting
  stats := .default
  entered := []
  read := []
  sent := []
  written := []
  failed := false

/-- The chunks in the channel to the egress. -/
def flight (w : Link T) : List Bytes :=
  match w.conn.appToOut with
  | some tx => tx.queue
  | none => w.left

/-- `ready.mark(id)`. -/
def mark (w : Link T) : Link T := { w with filed := true }

end

variable {T : Type} [TcpApi T]

/-! ### The poll loop -/

/-- `pending_out` → smoltcp tx, which touches no channel. -/
def drained (w : Link T) (conn : TcpConn) : Link T :=
  { w with
    conn := (conn.drain w.sock).2.1
    sock := (conn.drain w.sock).2.2
    point := .relaying }

/-- One round of egress → `pending_out`. -/
def fill (w : Link T) : Link T :=
  if TCP_BUF ≤ w.conn.pendingOut.len then w.drained w.conn
  else match w.conn.outToApp.queue with
    | data :: rest =>
      { w with conn := { w.conn with
        pendingOut := w.conn.pendingOut.push data
        outToApp := { w.conn.outToApp with queue := rest } } }
    | [] => w.drained (if w.conn.outToApp.peer then w.conn else { w.conn with outEof := true })

/-- One round of smoltcp rx → egress. -/
def relay (w : Link T) : Link T :=
  match w.conn.appToOut with
  | some tx =>
    if TcpApi.canRecv w.sock && tx.canReserve then
      match TcpApi.recv w.sock with
      | (some data, sock) =>
        if data.isEmpty then { w with sock, point := .leaving }
        else { w with conn := { w.conn with appToOut := some (tx.send data) }, sock }
      | (none, sock) => { w with sock, point := .leaving }
    else { w with point := .leaving }
  | none => { w with point := .leaving }

/-- The flow without its channels and its socket. -/
def remove (w : Link T) : Link T :=
  { w with
    conn := { w.conn with appToOut := none }
    left := w.flight
    point := .removed }

/-- `close` changes the socket's state, for which smoltcp fires the wakers that it holds. -/
def close (w : Link T) : Link T :=
  let sock := TcpApi.close w.sock
  let fires := TcpApi.state sock != TcpApi.state w.sock
  { w with
    sock
    filed := w.filed || fires && (w.recvWaker || w.sendWaker)
    recvWaker := w.recvWaker && !fires
    sendWaker := w.sendWaker && !fires }

def halfClose (w : Link T) : Link T :=
  { w with
    conn := w.conn.halfClose w.sock
    left := if (w.conn.halfClose w.sock).appToOut.isNone then w.flight else w.left }

/-- The egress has closed and everything is flushed. -/
def shut (w : Link T) : Link T :=
  if w.conn.outEof && w.conn.pendingOut.isEmpty then w.close else w

/-- The flow goes, or its wakers are registered. -/
def rest (w : Link T) : Link T :=
  if TcpApi.state w.sock = .closed then w.remove
  else { w with point := .resting, recvWaker := true, sendWaker := true }

/-- The end of a pass. -/
def leave (w : Link T) : Link T := w.halfClose.shut.rest

/-- The next step of the poll loop on the flow. -/
def pass (w : Link T) : Option (Link T) :=
  match w.point with
  | .resting => if w.filed then some { w with filed := false, point := .taken } else none
  | .taken => some { w with conn := w.conn.sample w.sock, point := .filling }
  | .filling => some w.fill
  | .relaying => some w.relay
  | .leaving => some w.leave
  | .removed => none

/-- `expire`, at the deadline of a flow that is not established. -/
def reap (w : Link T) : Option (Link T) :=
  if w.point = .resting ∧ w.conn.established = false then
    some { w with sock := TcpApi.abort w.sock }.remove
  else none

/-! ### The task -/

/-- `pin::connect_tcp` returns. -/
def connect (w : Link T) (ok : Bool) : Option (Link T) :=
  if w.reader = .connecting then
    match ok with
    | true => some { w with reader := .reading, writer := .receiving }
    | false => some { w with reader := .ended, failed := true }
  else none

/-- The next step of the reading half.  `got` is what `rd.read` returns: some bytes, or `none` for
the end of the stream or an error. -/
def reads (w : Link T) (got : Option Bytes) : Option (Link T) :=
  match w.reader with
  | .connecting => none
  | .reading =>
    match got with
    | some data =>
      if data ≠ [] ∧ data.length ≤ READ_CHUNK then
        some { w with
          reader := .sending data
          read := w.read ++ data
          stats := w.stats.addRead data.length }
      else none
    | none => some { w with reader := .ended }
  | .sending chunk =>
    if w.point = .removed then some { w with reader := .ended }
    else if w.conn.outToApp.queue.length < CHAN_CAP then
      some { w with
        conn := w.conn.egress (.send chunk)
        sent := w.sent ++ [chunk]
        reader := .delivered }
    else none
  | .delivered => some { w.mark with reader := .reading }
  | .ended => some { w with conn := w.conn.egress .dropTx, reader := .dropped }
  | .dropped => some { w.mark with reader := .done }
  | .done => none

/-- `app_rx` is dropped. -/
def dropRx (w : Link T) : Link T :=
  { w with conn := w.conn.egress .dropRx, left := [], writer := .done }

/-- The next step of the writing half.  `failed` is the number of bytes that `wr.write_all` has
written when it fails. -/
def writes (w : Link T) (failed : Option ℕ) : Option (Link T) :=
  match w.writer with
  | .connecting => if w.reader = .done then some w.dropRx else none
  | .receiving =>
    match w.flight with
    | chunk :: _ =>
      some { w with
        conn := w.conn.egress .recv
        left := w.left.tail
        writer := .writing chunk }
    | [] => if w.conn.appToOut.isNone then some { w with writer := .ended } else none
  | .writing chunk =>
    match failed with
    | none =>
      some { w with
        written := w.written ++ chunk
        stats := w.stats.addWritten chunk.length
        writer := .written }
    | some n =>
      if n < chunk.length then
        some { w with written := w.written ++ chunk.take n, writer := .ended, failed := true }
      else none
  | .written => some { w.mark with writer := .receiving }
  | .ended => some w.dropRx
  | .done => none

end Link

/-! ### smoltcp -/

/-- How far a connection has come: not open yet, open, or with the peer's FIN. -/
def TcpState.age (s : TcpState) : ℕ := if s.early then 0 else if s.finished then 2 else 1

section
variable {T : Type} [TcpApi T]

/-- A call that reads may return something else. -/
def recvChanged (old new : T) : Bool :=
  TcpApi.canRecv old != TcpApi.canRecv new || TcpApi.mayRecv old != TcpApi.mayRecv new ||
    TcpApi.state old != TcpApi.state new

/-- A call that sends may return something else. -/
def sendChanged (old new : T) : Bool :=
  TcpApi.canSend old != TcpApi.canSend new || TcpApi.state old != TcpApi.state new

variable [TcpBufferLaws T]

/-- What packets may do to a socket: they bring `data`, which only an open connection takes, and no
connection goes back.  The send buffer is that of `open_tcp`. -/
def Polled (old new : T) (data : Bytes) : Prop :=
  (rx new).flatten = (rx old).flatten ++ data ∧
    (TcpApi.state old).age ≤ (TcpApi.state new).age ∧
    ((TcpApi.state old).receives = false → data = []) ∧ txRoom new ≤ TCP_BUF

instance (old new : T) (data : Bytes) : Decidable (Polled old new data) :=
  inferInstanceAs (Decidable (_ ∧ _ ∧ _ ∧ _))

namespace Link

/-- smoltcp processes packets between two passes.  It fires a waker for a change, and may fire it
without one. -/
def poll (w : Link T) (sock : T) (data : Bytes) (spurious : Bool) : Option (Link T) :=
  if w.point = .resting ∧ Polled w.sock.sock sock data then
    let recv := w.recvWaker && (spurious || recvChanged w.sock.sock sock)
    let send := w.sendWaker && (spurious || sendChanged w.sock.sock sock)
    some { w with
      sock := { w.sock with sock }
      filed := w.filed || recv || send
      recvWaker := w.recvWaker && !recv
      sendWaker := w.sendWaker && !send
      entered := w.entered ++ data }
  else none

end Link

/-! ### Runs -/

inductive LinkEvent (T : Type) where
  | pass
  | reap
  | poll (sock : T) (data : Bytes) (spurious : Bool)
  | connect (ok : Bool)
  | read (got : Option Bytes)
  | write (failed : Option ℕ)

namespace Link

def step (w : Link T) : LinkEvent T → Option (Link T)
  | .pass => w.pass
  | .reap => w.reap
  | .poll sock data spurious => w.poll sock data spurious
  | .connect ok => w.connect ok
  | .read got => w.reads got
  | .write failed => w.writes failed

/-- `open_tcp` has just opened the flow. -/
def Opened (w : Link T) : Prop :=
  ∃ handle deadline dst sock, TcpApi.listen dst = some sock ∧ w = .new handle deadline sock

end Link

def LinkStep (w : Link T) (e : LinkEvent T) (w' : Link T) : Prop := w.step e = some w'

/-- The states a flow reaches, whatever order its three parties move in. -/
def LinkReachable : Link T → Prop := Reachable Link.Opened LinkStep

/-- The state that some events lead to. -/
def Link.after (w : Link T) : List (LinkEvent T) → Option (Link T)
  | [] => some w
  | e :: es => (w.step e).bind fun w => w.after es

theorem Link.run_after {w w' : Link T} {es : List (LinkEvent T)} (h : w.after es = some w') :
    Run LinkStep w es w' := by
  induction es generalizing w with
  | nil => cases h; exact .refl _
  | cons e es ih =>
      obtain ⟨w₁, hs, ht⟩ := Option.bind_eq_some_iff.mp h
      exact .more hs (ih ht)

end

/-! ### What each party does -/

namespace Link

variable {T : Type} [TcpApi T] {w w' : Link T}

/-- A step of the poll loop. -/
inductive Moved [TcpLaws T] (w : Link T) : Link T → Prop where
  | take (hp : w.point = .resting) (hf : w.filed = true) :
      Moved w { w with filed := false, point := .taken }
  | sample (hp : w.point = .taken) :
      Moved w { w with conn := w.conn.sample w.sock, point := .filling }
  | receive (hp : w.point = .filling) {data : Bytes} {rest : List Bytes}
      (hq : w.conn.outToApp.queue = data :: rest) :
      Moved w { w with conn := { w.conn with
        pendingOut := w.conn.pendingOut.push data
        outToApp := { w.conn.outToApp with queue := rest } } }
  | full (hp : w.point = .filling) (hle : TCP_BUF ≤ w.conn.pendingOut.len) :
      Moved w (w.drained w.conn)
  | empty (hp : w.point = .filling) (hq : w.conn.outToApp.queue = [])
      (hpeer : w.conn.outToApp.peer = true) : Moved w (w.drained w.conn)
  | ended (hp : w.point = .filling) (hq : w.conn.outToApp.queue = [])
      (hpeer : w.conn.outToApp.peer = false) :
      Moved w (w.drained { w.conn with outEof := true })
  | send (hp : w.point = .relaying) {tx : Chan} {part : Bytes}
      (htx : w.conn.appToOut = some tx) (hroom : tx.canReserve = true)
      (hrx : rx w.sock.sock = part :: rx (TcpApi.recv w.sock).2.sock) :
      Moved w { w with
        conn := { w.conn with appToOut := some (tx.send part) }
        sock := (TcpApi.recv w.sock).2 }
  | stop (hp : w.point = .relaying) (hs : ∀ tx, w.conn.appToOut = some tx →
      TcpApi.canRecv w.sock.sock = true → tx.canReserve = false) :
      Moved w { w with point := .leaving }
  | leave (hp : w.point = .leaving) : Moved w w.leave

theorem fill_moved [TcpLaws T] (hp : w.point = .filling) : Moved w w.fill := by
  unfold fill
  split
  · next hle => exact .full hp hle
  · split
    · next hq => exact .receive hp hq
    · next hq =>
        split
        · next hpeer => exact .empty hp hq hpeer
        · next hpeer => exact .ended hp hq (by simpa using hpeer)

/-- A readable socket hands out its first part. -/
theorem relay_moved [TcpLaws T] (hp : w.point = .relaying) : Moved w w.relay := by
  unfold relay
  split
  · next tx htx =>
      by_cases hc : (TcpApi.canRecv w.sock && tx.canReserve) = true
      · rw [if_pos hc]
        rw [Bool.and_eq_true] at hc
        obtain ⟨part, parts, hrx⟩ := List.exists_cons_of_ne_nil ((canRecv_iff w.sock.sock).mp hc.1)
        obtain ⟨hd, hrest⟩ := recv_rx w.sock.sock part parts hrx
        have hne : part.isEmpty = false := by
          simpa using rx_ne w.sock.sock part (by simp [hrx])
        have hrecv : TcpApi.recv w.sock = (some part, (TcpApi.recv w.sock).2) :=
          Prod.ext hd rfl
        rw [hrecv]
        simp only [hne, Bool.false_eq_true, if_false]
        exact .send hp htx hc.2 (hrx.trans (by rw [← hrest]; rfl))
      · rw [if_neg hc]
        refine .stop hp fun tx' htx' hcan => ?_
        cases htx.symm.trans htx'
        exact Bool.eq_false_iff.mpr fun hroom => hc (by rw [hroom, Bool.and_true]; exact hcan)
  · next htx => exact .stop hp fun tx htx' _ => by rw [htx] at htx'; cases htx'

theorem pass_moved [TcpLaws T] (h : w.pass = some w') : Moved w w' := by
  unfold pass at h
  split at h
  · next hp =>
      split at h <;> cases h
      next hf => exact .take hp hf
  · next hp => cases h; exact .sample hp
  · next hp => cases h; exact fill_moved hp
  · next hp => cases h; exact relay_moved hp
  · next hp => cases h; exact .leave hp
  · cases h

theorem halfClose_queues (conn : TcpConn) (sock : T) :
    (conn.halfClose sock).pendingOut = conn.pendingOut ∧
      (conn.halfClose sock).outToApp = conn.outToApp ∧
      (conn.halfClose sock).outEof = conn.outEof ∧
      (conn.halfClose sock).established = conn.established := by
  unfold TcpConn.halfClose
  split <;> exact ⟨rfl, rfl, rfl, rfl⟩

/-- A pass ends with the flow removed, or at rest with its wakers registered. -/
theorem leave_cases (w : Link T) : w.leave.point = .removed ∨
    w.leave.point = .resting ∧ w.leave.recvWaker = true ∧ w.leave.sendWaker = true ∧
      w.leave.conn = w.conn.halfClose w.sock ∧ TcpApi.state w.leave.sock ≠ .closed ∧
      (w.leave.sock = TcpApi.close w.sock ∧ w.conn.outEof = true ∧
          w.conn.pendingOut.isEmpty = true ∧ (w.filed = true → w.leave.filed = true) ∨
        w.leave.sock = w.sock ∧ w.leave.filed = w.filed ∧
          (w.conn.outEof = true → w.conn.pendingOut.isEmpty = false)) := by
  obtain ⟨hp, -, he, -⟩ := halfClose_queues w.conn w.sock
  unfold leave rest
  split
  · exact .inl rfl
  · next hcl =>
      refine .inr ⟨rfl, rfl, rfl, ?_, hcl, ?_⟩
      · unfold shut
        split <;> rfl
      · unfold shut
        split
        · next hc =>
            simp only [halfClose, hp, he, Bool.and_eq_true] at hc
            refine .inl ⟨rfl, hc.1, hc.2, fun hf => ?_⟩
            change (w.filed || _) = true
            rw [hf, Bool.true_or]
        · next hc =>
            simp only [halfClose, hp, he, Bool.and_eq_true, not_and, Bool.not_eq_true] at hc
            exact .inr ⟨rfl, rfl, hc⟩

/-- The task and the records are as they were. -/
structure Kept (w w' : Link T) : Prop where
  reader : w'.reader = w.reader
  writer : w'.writer = w.writer
  stats : w'.stats = w.stats
  entered : w'.entered = w.entered
  read : w'.read = w.read
  sent : w'.sent = w.sent
  written : w'.written = w.written
  failed : w'.failed = w.failed

omit [TcpApi T] in
theorem Kept.trans {w₁ : Link T} (h : Kept w w₁) (h' : Kept w₁ w') : Kept w w' :=
  ⟨h'.reader.trans h.reader, h'.writer.trans h.writer, h'.stats.trans h.stats,
    h'.entered.trans h.entered, h'.read.trans h.read, h'.sent.trans h.sent,
    h'.written.trans h.written, h'.failed.trans h.failed⟩

theorem shut_kept (w : Link T) : Kept w w.shut := by
  unfold shut
  split <;> exact ⟨rfl, rfl, rfl, rfl, rfl, rfl, rfl, rfl⟩

theorem rest_kept (w : Link T) : Kept w w.rest := by
  unfold rest
  split <;> exact ⟨rfl, rfl, rfl, rfl, rfl, rfl, rfl, rfl⟩

theorem leave_kept (w : Link T) : Kept w w.leave :=
  ((Kept.mk rfl rfl rfl rfl rfl rfl rfl rfl : Kept w w.halfClose).trans (shut_kept _)).trans
    (rest_kept _)

theorem Moved.kept [TcpLaws T] (h : Moved w w') : Kept w w' := by
  cases h with
  | leave hp => exact leave_kept w
  | _ => exact ⟨rfl, rfl, rfl, rfl, rfl, rfl, rfl, rfl⟩

theorem Moved.not_removed [TcpLaws T] (h : Moved w w') : w.point ≠ .removed := by
  cases h with
  | _ hp => rw [hp]; nofun

/-- A step of the reading half. -/
inductive Reads (w : Link T) : Link T → Prop where
  | read (hr : w.reader = .reading) (data : Bytes) : Reads w { w with
      reader := .sending data
      read := w.read ++ data
      stats := w.stats.addRead data.length }
  | finish (hr : w.reader = .reading) : Reads w { w with reader := .ended }
  | lose {chunk : Bytes} (hr : w.reader = .sending chunk) (hp : w.point = .removed) :
      Reads w { w with reader := .ended }
  | send {chunk : Bytes} (hr : w.reader = .sending chunk) (hp : w.point ≠ .removed)
      (hroom : w.conn.outToApp.queue.length < CHAN_CAP) : Reads w { w with
        conn := w.conn.egress (.send chunk)
        sent := w.sent ++ [chunk]
        reader := .delivered }
  | mark (hr : w.reader = .delivered) : Reads w { w.mark with reader := .reading }
  | drop (hr : w.reader = .ended) :
      Reads w { w with conn := w.conn.egress .dropTx, reader := .dropped }
  | last (hr : w.reader = .dropped) : Reads w { w.mark with reader := .done }

omit [TcpApi T] in
theorem reads_reads {got : Option Bytes} (h : w.reads got = some w') : Reads w w' := by
  unfold reads at h
  split at h
  · cases h
  · next hr =>
      split at h
      · next data =>
          split at h <;> cases h
          exact .read hr data
      · cases h
        exact .finish hr
  · next chunk hr =>
      split at h
      · next hp => cases h; exact .lose hr hp
      · next hp =>
          split at h <;> cases h
          next hroom => exact .send hr hp hroom
  · next hr => cases h; exact .mark hr
  · next hr => cases h; exact .drop hr
  · next hr => cases h; exact .last hr
  · cases h

/-- What the reading half leaves, once it has connected.  When it changes the channel it is about to
mark, and when it was about to mark it has. -/
structure ReadsFrame (w w' : Link T) : Prop where
  connected : w.reader ≠ .connecting ∧ w'.reader ≠ .connecting
  channel : w'.filed = true ∨ w'.reader.due = true ∨
    w.reader.due = false ∧ w'.conn.outToApp = w.conn.outToApp
  filed : w.filed = true → w'.filed = true
  wakers : w'.recvWaker = w.recvWaker ∧ w'.sendWaker = w.sendWaker
  sock : w'.sock = w.sock
  point : w'.point = w.point
  appToOut : w'.conn.appToOut = w.conn.appToOut
  left : w'.left = w.left
  established : w'.conn.established = w.conn.established
  pending : w'.conn.pendingOut = w.conn.pendingOut ∧ w'.conn.outEof = w.conn.outEof
  writer : w'.writer = w.writer
  stats : w'.stats.written = w.stats.written
  entered : w'.entered = w.entered
  written : w'.written = w.written
  failed : w'.failed = w.failed

omit [TcpApi T] in
theorem ReadsFrame.flight (h : ReadsFrame w w') : w'.flight = w.flight := by
  unfold Link.flight
  rw [h.appToOut, h.left]

omit [TcpApi T] in
theorem Reads.frame (h : Reads w w') : ReadsFrame w w' := by
  have hmap : ∀ o : Option Chan, o.map (fun tx => tx) = o := fun o => by cases o <;> rfl
  cases h with
  | send hr hp hroom =>
      exact ⟨⟨by rw [hr]; nofun, nofun⟩, .inr (.inl rfl), id, ⟨rfl, rfl⟩, rfl, rfl, hmap _, rfl, rfl,
        ⟨rfl, rfl⟩, rfl, rfl, rfl, rfl, rfl⟩
  | drop hr =>
      exact ⟨⟨by rw [hr]; nofun, nofun⟩, .inr (.inl rfl), id, ⟨rfl, rfl⟩, rfl, rfl, hmap _, rfl, rfl,
        ⟨rfl, rfl⟩, rfl, rfl, rfl, rfl, rfl⟩
  | mark hr =>
      exact ⟨⟨by rw [hr]; nofun, nofun⟩, .inl rfl, fun _ => rfl, ⟨rfl, rfl⟩, rfl, rfl, rfl, rfl, rfl,
        ⟨rfl, rfl⟩, rfl, rfl, rfl, rfl, rfl⟩
  | last hr =>
      exact ⟨⟨by rw [hr]; nofun, nofun⟩, .inl rfl, fun _ => rfl, ⟨rfl, rfl⟩, rfl, rfl, rfl, rfl, rfl,
        ⟨rfl, rfl⟩, rfl, rfl, rfl, rfl, rfl⟩
  | _ hr =>
      exact ⟨⟨by rw [hr]; nofun, nofun⟩, .inr (.inr ⟨by rw [hr]; rfl, rfl⟩), id, ⟨rfl, rfl⟩, rfl, rfl,
        rfl, rfl, rfl, ⟨rfl, rfl⟩, rfl, rfl, rfl, rfl, rfl⟩

/-- A step of the writing half. -/
inductive Writes (w : Link T) : Link T → Prop where
  | forsake (hw : w.writer = .connecting) (hr : w.reader = .done) : Writes w w.dropRx
  | recv (hw : w.writer = .receiving) {chunk : Bytes} {rest : List Bytes}
      (hq : w.flight = chunk :: rest) : Writes w { w with
        conn := w.conn.egress .recv
        left := w.left.tail
        writer := .writing chunk }
  | finish (hw : w.writer = .receiving) (hq : w.flight = []) (ha : w.conn.appToOut = none) :
      Writes w { w with writer := .ended }
  | write {chunk : Bytes} (hw : w.writer = .writing chunk) : Writes w { w with
      written := w.written ++ chunk
      stats := w.stats.addWritten chunk.length
      writer := .written }
  | fail {chunk : Bytes} (hw : w.writer = .writing chunk) (n : ℕ) :
      Writes w { w with written := w.written ++ chunk.take n, writer := .ended, failed := true }
  | mark (hw : w.writer = .written) : Writes w { w.mark with writer := .receiving }
  | drop (hw : w.writer = .ended) : Writes w w.dropRx

/-- What the writing half leaves. -/
structure WritesFrame (w w' : Link T) : Prop where
  filed : w.filed = true → w'.filed = true
  wakers : w'.recvWaker = w.recvWaker ∧ w'.sendWaker = w.sendWaker
  sock : w'.sock = w.sock
  point : w'.point = w.point
  appToOut : w'.conn.appToOut = none ↔ w.conn.appToOut = none
  outToApp : w'.conn.outToApp = w.conn.outToApp
  established : w'.conn.established = w.conn.established
  pending : w'.conn.pendingOut = w.conn.pendingOut ∧ w'.conn.outEof = w.conn.outEof
  reader : w'.reader = w.reader
  stats : w'.stats.read = w.stats.read
  read : w'.read = w.read
  sent : w'.sent = w.sent

omit [TcpApi T] in
theorem Writes.frame (h : Writes w w') : WritesFrame w w' := by
  cases h with
  | forsake hw hr =>
      exact ⟨id, ⟨rfl, rfl⟩, rfl, rfl, Option.map_eq_none_iff, rfl, rfl, ⟨rfl, rfl⟩, rfl, rfl, rfl, rfl⟩
  | recv hw hq =>
      exact ⟨id, ⟨rfl, rfl⟩, rfl, rfl, Option.map_eq_none_iff, rfl, rfl, ⟨rfl, rfl⟩, rfl, rfl, rfl, rfl⟩
  | drop hw =>
      exact ⟨id, ⟨rfl, rfl⟩, rfl, rfl, Option.map_eq_none_iff, rfl, rfl, ⟨rfl, rfl⟩, rfl, rfl, rfl, rfl⟩
  | mark hw =>
      exact ⟨fun _ => rfl, ⟨rfl, rfl⟩, rfl, rfl, .rfl, rfl, rfl, ⟨rfl, rfl⟩, rfl, rfl, rfl, rfl⟩
  | _ => exact ⟨id, ⟨rfl, rfl⟩, rfl, rfl, .rfl, rfl, rfl, ⟨rfl, rfl⟩, rfl, rfl, rfl, rfl⟩

omit [TcpApi T] in
theorem writes_writes {failed : Option ℕ} (h : w.writes failed = some w') : Writes w w' := by
  unfold writes at h
  split at h
  · next hw =>
      split at h <;> cases h
      next hr => exact .forsake hw hr
  · next hw =>
      split at h
      · next hq => cases h; exact .recv hw hq
      · next hq =>
          split at h <;> cases h
          next ha => exact .finish hw hq (by simpa using ha)
  · next hw =>
      split at h
      · cases h; exact .write hw
      · next n =>
          split at h <;> cases h
          exact .fail hw n
  · next hw => cases h; exact .mark hw
  · next hw => cases h; exact .drop hw
  · cases h

end Link

/-! ### A pass that no task disturbs -/

namespace Link

variable {T : Type} [TcpApi T]

/-- The poll loop moves, and nothing else. -/
abbrev Alone : Link T → Link T → Prop := Relation.ReflTransGen fun w w' => w.pass = some w'

theorem pass_filling {w : Link T} (h : w.point = .filling) : w.pass = some w.fill := by
  rw [pass, h]

theorem pass_relaying {w : Link T} (h : w.point = .relaying) : w.pass = some w.relay := by
  rw [pass, h]

theorem fill_alone {w : Link T} {chunks : List Bytes} (h : w.point = .filling)
    (hq : w.conn.outToApp.queue = chunks) : Alone w (w.drained (fillPending w.conn chunks)) := by
  induction chunks generalizing w with
  | nil =>
      refine .single ?_
      rw [pass_filling h]
      unfold fill fillPending
      rw [hq]
      split
      · rfl
      · rfl
  | cons data rest ih =>
      by_cases hle : TCP_BUF ≤ w.conn.pendingOut.len
      · refine .single ?_
        rw [pass_filling h]
        unfold fill fillPending
        rw [if_pos hle, if_pos hle]
      · have hfill : w.fill = { w with conn := { w.conn with
            pendingOut := w.conn.pendingOut.push data
            outToApp := { w.conn.outToApp with queue := rest } } } := by
          unfold fill
          rw [if_neg hle, hq]
        refine .head (pass_filling h) ?_
        unfold fillPending
        rw [if_neg hle, hfill]
        exact @ih { w with conn := { w.conn with
          pendingOut := w.conn.pendingOut.push data
          outToApp := { w.conn.outToApp with queue := rest } } } h rfl

theorem relay_stop {w : Link T} {tx : Chan} (h : w.point = .relaying)
    (htx : w.conn.appToOut = some tx) (hc : (TcpApi.canRecv w.sock && tx.canReserve) ≠ true) :
    Alone w { w with conn := { w.conn with appToOut := some tx }, point := .leaving } := by
  refine .single ?_
  rw [pass_relaying h, relay, htx]
  simp only [hc]
  rw [← htx]
  rfl

theorem relay_alone {n : ℕ} {w : Link T} {tx : Chan} (h : w.point = .relaying)
    (htx : w.conn.appToOut = some tx) (hn : tx.room ≤ n) : Alone w { w with
      conn := { w.conn with appToOut := some (relayOut n tx w.sock).1 }
      sock := (relayOut n tx w.sock).2
      point := .leaving } := by
  induction n generalizing w tx with
  | zero =>
      have hfull : tx.canReserve = false := by
        have hcap : CHAN_CAP ≤ tx.queue.length := Nat.le_of_sub_eq_zero (Nat.le_zero.mp hn)
        simp [Chan.canReserve, hcap]
      have hs := relay_stop h htx (by simp [hfull])
      exact hs
  | succ n ih =>
      unfold relayOut
      split
      · next hc =>
          split
          · next data sock e =>
              by_cases hd : data.isEmpty = true
              · refine .single ?_
                rw [pass_relaying h, relay, htx]
                simp only [hc, e, hd, if_true]
                rw [← htx]
              · have hnext : w.relay = { w with
                    conn := { w.conn with appToOut := some (tx.send data) }
                    sock := sock } := by
                  rw [relay, htx]
                  simp only [hc, e, hd, if_true, if_false, Bool.false_eq_true]
                have hroom : (tx.send data).room ≤ n := by
                  simp only [Chan.canReserve, Bool.and_eq_true, decide_eq_true_eq] at hc
                  unfold Chan.room at hn ⊢
                  simp only [Chan.send, List.length_append, List.length_singleton]
                  omega
                refine .head (pass_relaying h) ?_
                rw [hnext, if_neg hd]
                exact @ih { w with
                  conn := { w.conn with appToOut := some (tx.send data) }
                  sock := sock } _ h rfl hroom
          · next sock e =>
              refine .single ?_
              rw [pass_relaying h, relay, htx]
              simp only [hc, e, if_true]
              rw [← htx]
      · next hc => exact relay_stop h htx hc

/-- Left alone from its beginning to its end, a pass is the manager's. -/
theorem undisturbed {w : Link T} (h : w.point = .taken) :
    ∃ w', Alone w w' ∧ w'.reader = w.reader ∧ w'.writer = w.writer ∧
      w'.sock = (serviceConn w.conn w.sock).2.2 ∧
      (TcpApi.state w'.sock = .closed ∧ w'.point = .removed ∨
        TcpApi.state w'.sock ≠ .closed ∧ w'.point = .resting ∧
          w'.conn = (serviceConn w.conn w.sock).2.1) := by
  have hbegin : Alone w { w with conn := w.conn.sample w.sock, point := .filling } :=
    .single (by rw [pass, h])
  have hfill : Alone { w with conn := w.conn.sample w.sock, point := .filling }
      (w.drained (w.conn.filled w.sock)) := fill_alone rfl rfl
  have hrelay : Alone (w.drained (w.conn.filled w.sock)) { w with
      conn := (w.conn.relayed w.sock).1
      sock := (w.conn.relayed w.sock).2
      point := .leaving } := by
    unfold TcpConn.relayed TcpConn.relay
    split
    · next tx htx => exact relay_alone rfl htx le_rfl
    · next htx =>
        refine .single ?_
        rw [pass_relaying rfl, relay, show (w.drained _).conn.appToOut = none from htx]
        rfl
  obtain ⟨hconn, -⟩ := serviceConn_relayed w.conn w.sock
  have hsock : (serviceConn w.conn w.sock).2.2 =
      if (serviceConn w.conn w.sock).2.1.outEof &&
          (serviceConn w.conn w.sock).2.1.pendingOut.isEmpty then
        TcpApi.close (w.conn.relayed w.sock).2
      else (w.conn.relayed w.sock).2 := by
    rw [hconn]
    unfold serviceConn
    dsimp only
    split
    · next hc => exact (if_pos hc).symm
    · next hc => exact (if_neg hc).symm
  have hshut : ∀ w : Link T, w.shut.conn = w.conn ∧ w.shut.reader = w.reader ∧
      w.shut.writer = w.writer ∧ w.shut.sock =
        if w.conn.outEof && w.conn.pendingOut.isEmpty then TcpApi.close w.sock else w.sock := by
    intro w
    unfold shut
    split <;> exact ⟨rfl, rfl, rfl, rfl⟩
  refine ⟨_, ((hbegin.trans hfill).trans hrelay).tail rfl, ?_⟩
  rw [hsock, hconn]
  unfold leave rest
  obtain ⟨hc, hr, hw, hs⟩ := hshut (halfClose { w with
    conn := (w.conn.relayed w.sock).1
    sock := (w.conn.relayed w.sock).2
    point := .leaving })
  split
  · next hcl => exact ⟨hr, hw, hs, .inl ⟨hcl, rfl⟩⟩
  · next hcl => exact ⟨hr, hw, hs, .inr ⟨hcl, rfl, hc⟩⟩

end Link

end Tunnel.Conn
