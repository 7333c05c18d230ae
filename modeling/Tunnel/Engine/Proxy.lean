import Tunnel.Conn.Expiry
import Tunnel.Conn.ParseFlow
import Tunnel.Wg.Exit

/-!
# Engine — The proxy loop

`proxy` and `flush_tun`: the data path of a direct exit, which carries packets between the TUN and
smoltcp, and runs the connection manager on what it sees of them.  `TunDevice` is the pair of queues
that smoltcp polls.

smoltcp is not part of the repository.  What a poll takes from the device, emits into it and does to
the sockets is part of the step (`Polled`), as are the packets the TUN is read for, the readings of
the clock, and whether the TUN writer is still there.  Egress tasks act, and flows are filed ready,
between any two steps of the loop.

* `ProxyStep`: one step of the loop, or of others between two of its steps.
* `ProxyMoves`: what a step can do.
* `Driven`: the connection manager has come where it is by its own steps.
-/

namespace Tunnel.Engine
open Support
open Conn (ClockReachable Clocked ConnEvent ConnManager ConnStep EgressAct FlowId Socket SocketSet
  TcpApi UdpApi parseFlow)
open Inspect (Direction)

def DRAIN_BUDGET : ℕ := 1024

/-- 200 ms. -/
def MAX_IDLE : ℕ := 200000000

/-! ### The device -/

/-- The queues of `TunDevice`. -/
structure TunDevice where
  inbound : List Bytes
  outbound : List Bytes

namespace TunDevice

def new : TunDevice := ⟨[], []⟩

def inject (d : TunDevice) (pkt : Bytes) : TunDevice := { d with inbound := d.inbound ++ [pkt] }

def popOutbound (d : TunDevice) : Option (Bytes × TunDevice) :=
  match d.outbound with
  | [] => none
  | pkt :: rest => some (pkt, { d with outbound := rest })

end TunDevice

/-- One `iface.poll`: the packets it takes from the device, those it emits, and the sockets it moves
on. -/
structure Polled (T U : Type) where
  consumed : ℕ
  emitted : List Bytes
  moved : List (ℕ × Socket T U)

/-! ### The loop -/

/-- Where the loop is: `again` is the second poll of a turn, and its flush. -/
inductive Phase where
  | parking
  | selecting
  | draining (drained : ℕ)
  | woken
  | polling (again : Bool)
  | flushing (again : Bool)
  | dispatching
  | stopped
deriving DecidableEq

/-- There is nothing to flush. -/
def Phase.Quiet (phase : Phase) : Prop := (∀ again, phase ≠ .flushing again) ∧ phase ≠ .stopped

structure Proxy (T U : Type) where
  device : TunDevice
  engine : Conn.Engine T U
  phase : Phase
  /-- What the select sleeps for at most. -/
  delay : ℕ
  shutdown : Bool
  /-- The last readings of the clock: at all, and for a dispatch. -/
  clock : Instant
  dispatched : Instant
  /-- The packets shown to the monitor. -/
  recorded : List (Direction × Bytes)
  /-- The packets smoltcp took, and those it emitted. -/
  consumed : List Bytes
  emitted : List Bytes
  /-- The packets the TUN writer took. -/
  delivered : List Bytes

/-- A packet that the TUN was read for, the handle of the socket that may be made for it, and the
time. -/
structure Read where
  pkt : Bytes
  handle : ℕ
  now : Instant

inductive ProxyEvent (T U : Type) where
  /-- The head of the loop, with smoltcp's `poll_delay`. -/
  | park (now : Instant) (protocol : Option ℕ)
  /-- The arms of the select. -/
  | interrupt
  | recv (read : Option Read)
  | ready
  | timer
  | tryRecv (read : Option Read)
  /-- The flag is read. -/
  | check
  | poll (p : Polled T U)
  /-- `flush_tun`, for one packet.  `taken` is whether the writer is there. -/
  | flush (taken : Bool)
  | dispatch (now : Instant)
  /-- The dashboard closes. -/
  | shutdown
  | egress (id : FlowId) (act : EgressAct)
  | mark (id : FlowId)

/-- What the select sleeps for, by smoltcp's timers and the time to the next deadline. -/
def sleepFor (protocol deadline : Option ℕ) : ℕ :=
  min (match protocol, deadline with
    | some a, some b => min a b
    | some a, none => a
    | none, some b => b
    | none, none => MAX_IDLE) MAX_IDLE

namespace Proxy

variable {T U : Type} [TcpApi T] [UdpApi U] (s : Proxy T U)

/-- Before the loop. -/
def start (T U : Type) [UdpApi U] (now : Instant) : Proxy T U where
  device := .new
  engine := .new T U
  phase := .parking
  delay := 0
  shutdown := false
  clock := now
  dispatched := now
  recorded := []
  consumed := []
  emitted := []
  delivered := []

/-- A packet of a burst, the `drained`th. -/
def takeIn (r : Read) (drained : ℕ) : Checked (Proxy T U) := do
  let s := { s with recorded := s.recorded ++ [(Direction.up, r.pkt)], clock := r.now }
  let engine ← match ← parseFlow r.pkt with
    | some flow =>
      let (mgr, sockets) := s.engine.mgr.onPacket s.engine.sockets flow r.handle r.now
      pure ⟨mgr, sockets⟩
    | none => pure s.engine
  return { s with engine, device := s.device.inject r.pkt, phase := .draining drained }

/-- `flush_tun` goes round, or returns. -/
def flush (again taken : Bool) : Proxy T U :=
  match s.device.popOutbound with
  | none => { s with phase := if again then .parking else .dispatching }
  | some (pkt, device) =>
    let s := { s with device, recorded := s.recorded ++ [(Direction.down, pkt)] }
    if taken then { s with delivered := s.delivered ++ [pkt] } else { s with phase := .stopped }

def polled (p : Polled T U) (again : Bool) : Proxy T U :=
  { s with
    device := ⟨s.device.inbound.drop p.consumed, s.device.outbound ++ p.emitted⟩
    engine := { s.engine with
      sockets := p.moved.foldl (fun sockets x => sockets.insert x.1 x.2) s.engine.sockets }
    consumed := s.consumed ++ s.device.inbound.take p.consumed
    emitted := s.emitted ++ p.emitted
    phase := .flushing again }

/-- The dispatch, and whether there is more to poll. -/
def dispatch (now : Instant) : Checked (Proxy T U) := do
  let (queued, mgr, sockets) ← s.engine.mgr.dispatch s.engine.sockets now
  return { s with
    engine := ⟨mgr, sockets⟩
    clock := now
    dispatched := now
    delay := 0
    phase := if queued then .polling true else .parking }

/-- One step, if the loop is where it can be taken. -/
def step : ProxyEvent T U → Option (Checked (Proxy T U))
  | .park now protocol =>
    if s.phase = .parking then
      let deadline := s.engine.mgr.nextDeadline.map fun due => due - now
      some (.ok { s with clock := now, delay := sleepFor protocol deadline, phase := .selecting })
    else none
  | .interrupt | .recv none =>
    if s.phase = .selecting then some (.ok { s with phase := .stopped }) else none
  | .recv (some r) => if s.phase = .selecting then some (s.takeIn r 1) else none
  | .ready | .timer =>
    if s.phase = .selecting then some (.ok { s with phase := .woken }) else none
  | .tryRecv r =>
    match s.phase, r with
    | .draining drained, some r =>
      if drained < DRAIN_BUDGET then some (s.takeIn r (drained + 1)) else none
    -- the queue is empty, or the budget spent
    | .draining _, none => some (.ok { s with phase := .woken })
    | _, _ => none
  | .check =>
    if s.phase = .woken then
      some (.ok { s with phase := if s.shutdown then .stopped else .polling false })
    else none
  | .poll p =>
    match s.phase with
    | .polling again => some (.ok (s.polled p again))
    | _ => none
  | .flush taken =>
    match s.phase with
    | .flushing again => some (.ok (s.flush again taken))
    | _ => none
  | .dispatch now => if s.phase = .dispatching then some (s.dispatch now) else none
  | .shutdown => some (.ok { s with shutdown := true })
  | .egress id act => some (.ok { s with engine := s.engine.apply (.egress id act) })
  | .mark id => some (.ok { s with engine := s.engine.apply (.mark id) })

end Proxy

/-- Whether a socket is of the kind of another. -/
def sameKind {T U : Type} : Socket T U → Socket T U → Bool
  | .tcp _, .tcp _ => true
  | .udp _, .udp _ => true
  | _, _ => false

theorem sameKind_trans {T U : Type} {old sock sock' : Socket T U} (h : sameKind old sock = true)
    (h' : sameKind old sock' = true) : sameKind sock sock' = true := by
  cases old <;> cases sock <;> cases sock' <;> simp_all only [sameKind, Bool.false_eq_true]

/-- What the loop relies on: the clock does not go back, a new socket has a new handle, and a poll
takes packets that are there and moves on sockets that are there. -/
def ProxyEvent.Enabled {T U : Type} (s : Proxy T U) : ProxyEvent T U → Prop
  | .park now _ | .dispatch now => s.clock ≤ now
  | .recv (some r) | .tryRecv (some r) => s.clock ≤ r.now ∧ s.engine.sockets.lookup r.handle = none
  | .poll p => p.consumed ≤ s.device.inbound.length ∧
      ∀ x ∈ p.moved, (s.engine.sockets.lookup x.1).any (sameKind · x.2) = true
  | _ => True

section
variable {T U : Type} [TcpApi T] [UdpApi U]

def ProxyStep (s : Proxy T U) (e : ProxyEvent T U) (s' : Proxy T U) : Prop :=
  e.Enabled s ∧ s.step e = some (.ok s')

def Proxy.Starts (s : Proxy T U) : Prop := ∃ now, s = .start T U now

def ProxyReachable : Proxy T U → Prop := Reachable Proxy.Starts ProxyStep

/-! ### What a step does -/

/-- The engine once a packet has been looked at. -/
def shownTo (engine : Conn.Engine T U) (r : Read) : Conn.Engine T U :=
  match if Wg.HdrOk r.pkt then Conn.flowOf r.pkt else none with
  | some flow => engine.apply (.onPacket flow r.handle r.now)
  | none => engine

theorem Proxy.takeIn_eq (s : Proxy T U) (r : Read) (drained : ℕ) :
    s.takeIn r drained = .ok { s with
      recorded := s.recorded ++ [(Direction.up, r.pkt)]
      clock := r.now
      engine := shownTo s.engine r
      device := s.device.inject r.pkt
      phase := .draining drained } := by
  unfold Proxy.takeIn shownTo
  rw [Conn.parseFlow_eq, ok_bind]
  split <;> rfl

/-- What a step can do. -/
inductive ProxyMoves (s : Proxy T U) : ProxyEvent T U → Proxy T U → Prop where
  | park {now : Instant} {protocol : Option ℕ} (hp : s.phase = .parking) :
      ProxyMoves s (.park now protocol) { s with
        clock := now
        delay := sleepFor protocol (s.engine.mgr.nextDeadline.map fun due => due - now)
        phase := .selecting }
  | leave {e : ProxyEvent T U} (he : e = .interrupt ∨ e = .recv none) (hp : s.phase = .selecting) :
      ProxyMoves s e { s with phase := .stopped }
  | takeIn {e : ProxyEvent T U} {r : Read} {drained : ℕ}
      (he : e = .recv (some r) ∨ e = .tryRecv (some r))
      (hp : s.phase = .selecting ∨ ∃ n, s.phase = .draining n) (hd : drained ≤ DRAIN_BUDGET) :
      ProxyMoves s e { s with
        recorded := s.recorded ++ [(Direction.up, r.pkt)]
        clock := r.now
        engine := shownTo s.engine r
        device := s.device.inject r.pkt
        phase := .draining drained }
  | wake {e : ProxyEvent T U} (he : e = .ready ∨ e = .timer ∨ e = .tryRecv none)
      (hp : s.phase = .selecting ∨ ∃ n, s.phase = .draining n) :
      ProxyMoves s e { s with phase := .woken }
  | check (hp : s.phase = .woken) :
      ProxyMoves s .check { s with phase := if s.shutdown then .stopped else .polling false }
  | poll {p : Polled T U} {again : Bool} (hp : s.phase = .polling again) :
      ProxyMoves s (.poll p) (s.polled p again)
  | flush {again taken : Bool} (hp : s.phase = .flushing again) :
      ProxyMoves s (.flush taken) (s.flush again taken)
  | dispatch {now : Instant} {queued : Bool} {mgr : ConnManager} {sockets : SocketSet T U}
      (hp : s.phase = .dispatching)
      (hd : s.engine.mgr.dispatch s.engine.sockets now = .ok (queued, mgr, sockets)) :
      ProxyMoves s (.dispatch now) { s with
        engine := ⟨mgr, sockets⟩
        clock := now
        dispatched := now
        delay := 0
        phase := if queued then .polling true else .parking }
  | shutdown : ProxyMoves s .shutdown { s with shutdown := true }
  | egress {id : FlowId} {act : EgressAct} :
      ProxyMoves s (.egress id act) { s with engine := s.engine.apply (.egress id act) }
  | mark {id : FlowId} : ProxyMoves s (.mark id) { s with engine := s.engine.apply (.mark id) }

variable {s s' : Proxy T U}

theorem ProxyMoves.of_step {e : ProxyEvent T U} (h : s.step e = some (.ok s')) :
    ProxyMoves s e s' := by
  unfold Proxy.step at h
  split at h
  · split at h
    · next hp => cases h; exact .park hp
    · cases h
  · split at h
    · next hp => cases h; exact .leave (.inl rfl) hp
    · cases h
  · split at h
    · next hp => cases h; exact .leave (.inr rfl) hp
    · cases h
  · split at h
    · next hp =>
        rw [Proxy.takeIn_eq] at h
        cases h
        exact .takeIn (.inl rfl) (.inl hp) (by decide)
    · cases h
  · split at h
    · next hp => cases h; exact .wake (.inl rfl) (.inl hp)
    · cases h
  · split at h
    · next hp => cases h; exact .wake (.inr (.inl rfl)) (.inl hp)
    · cases h
  · split at h
    · next n r hp =>
        split at h
        · next hn =>
            rw [Proxy.takeIn_eq] at h
            cases h
            exact .takeIn (.inr rfl) (.inr ⟨n, hp⟩) hn
        · cases h
    · next n hp => cases h; exact .wake (.inr (.inr rfl)) (.inr ⟨n, hp⟩)
    · cases h
  · split at h
    · next hp => cases h; exact .check hp
    · cases h
  · split at h
    · next again hp => cases h; exact .poll hp
    · cases h
  · split at h
    · next again hp => cases h; exact .flush hp
    · cases h
  · split at h
    · next hp =>
        unfold Proxy.dispatch at h
        obtain ⟨⟨queued, mgr, sockets⟩, hd, h⟩ := bind_eq_ok.mp (Option.some.inj h)
        cases h
        exact .dispatch hp hd
    · cases h
  · cases h; exact .shutdown
  · cases h; exact .egress
  · cases h; exact .mark

/-! ### The connection manager -/

/-- The connection manager has come to this by its own steps, by this time. -/
def Driven (engine : Conn.Engine T U) (clock : Instant) : Prop :=
  ∃ c : Clocked T U, ClockReachable c ∧ c.engine = engine ∧ c.clock ≤ clock

namespace Driven

variable {engine engine' : Conn.Engine T U} {clock now : Instant}

theorem later (h : Driven engine clock) (ht : clock ≤ now) : Driven engine now := by
  obtain ⟨c, hc, he, hle⟩ := h
  exact ⟨c, hc, he, hle.trans ht⟩

theorem sound (h : Driven engine clock) : Conn.Sound engine.mgr engine.sockets := by
  obtain ⟨c, hc, rfl, -⟩ := h
  exact hc.inv.sound

/-- A call at some time. -/
theorem call (h : Driven engine clock) {e : ConnEvent T U} (he : e.time = some now)
    (ht : clock ≤ now) (hs : ConnStep engine e engine') : Driven engine' now := by
  obtain ⟨c, hc, rfl, hle⟩ := h
  refine ⟨⟨engine', now⟩, hc.run (.one ⟨hs, fun t hn => ?_, by rw [he]; rfl⟩), rfl, le_refl now⟩
  rw [he] at hn
  cases hn
  exact hle.trans ht

/-- A step of others. -/
theorem others (h : Driven engine clock) {e : ConnEvent T U} (he : e.time = none)
    (hs : ConnStep engine e engine') : Driven engine' clock := by
  obtain ⟨c, hc, rfl, hle⟩ := h
  refine ⟨⟨engine', c.clock⟩, hc.run (.one ⟨hs, fun t hn => ?_, by rw [he]; rfl⟩), rfl, hle⟩
  rw [he] at hn
  cases hn

theorem shownTo (h : Driven engine clock) {r : Read} (ht : clock ≤ r.now)
    (hh : engine.sockets.lookup r.handle = none) : Driven (shownTo engine r) r.now := by
  unfold Engine.shownTo
  split
  · next flow _ => exact h.call (e := .onPacket flow r.handle r.now) rfl ht ⟨hh, rfl⟩
  · exact h.later ht

/-- A socket is moved on. -/
theorem move (h : Driven engine clock) {handle : ℕ} {sock old : Socket T U}
    (ho : engine.sockets.lookup handle = some old) (hk : sameKind old sock = true) :
    Driven { engine with sockets := engine.sockets.insert handle sock } clock := by
  cases old with
  | tcp old =>
      cases sock with
      | tcp sock => exact h.others (e := .pollTcp handle sock) rfl ⟨⟨old, ho⟩, rfl⟩
      | udp sock => cases hk
  | udp old =>
      cases sock with
      | tcp sock => cases hk
      | udp sock => exact h.others (e := .pollUdp handle sock) rfl ⟨⟨old, ho⟩, rfl⟩

theorem poll {moved : List (ℕ × Socket T U)} (h : Driven engine clock)
    (hm : ∀ x ∈ moved, (engine.sockets.lookup x.1).any (sameKind · x.2) = true) :
    Driven { engine with
      sockets := moved.foldl (fun sockets x => sockets.insert x.1 x.2) engine.sockets } clock := by
  induction moved generalizing engine with
  | nil => exact h
  | cons x moved ih =>
      obtain ⟨hx, hm⟩ := List.forall_mem_cons.mp hm
      obtain ⟨old, ho, hk⟩ := (Option.any_eq_true _ _).mp hx
      refine ih (h.move ho hk) fun y hy => ?_
      have hy := hm y hy
      change ((engine.sockets.insert x.1 x.2).lookup y.1).any _ = true
      rw [Finmap.lookup_insert_eq]
      split
      · next he =>
          rw [he, ho] at hy
          exact sameKind_trans hk hy
      · exact hy

end Driven

theorem Driven.filed {engine : Conn.Engine T U} {clock : Instant} (h : Driven engine clock) :
    Conn.Filed engine.mgr := by
  obtain ⟨c, hc, rfl, -⟩ := h
  exact hc.inv.tcp

end

end Tunnel.Engine
