import Tunnel.Probe.Intel
import Tunnel.Probe.Scan
import Tunnel.Support.Runs

/-!
# Probe — A job and the widget that waits for it

`spawn`: a probe on a thread of its own, and the slot it reports through.  The thread publishes what it
has so far and at last its result; the widget, once a frame, takes the result if it is there and else
looks at what has been published.  Each of these holds the slot's lock, and they come in any order.

* `job_shows`: in every run the widget shows what was published or the result, and once it waits no
  longer it shows the result.
* `lookup_collected`: the widget that waits for a lookup is never left waiting.
-/

namespace Tunnel.Probe
open Support Text

inductive Outcome where
  | dns (o : DnsOutcome)
  | scan (o : ScanOutcome)
  | intel (o : IntelOutcome)

abbrev ProbeResult := Except Text Outcome

/-- The worker's side of a job. -/
structure Slot where
  latest : Option ProbeResult
  done : Bool

namespace Slot

def snapshot (s : Slot) : Option ProbeResult := s.latest

/-- What is taken, and what is left. -/
def take (s : Slot) : Option ProbeResult × Slot :=
  if s.done then (s.latest, { s with latest := none }) else (none, s)

end Slot

/-- Where the thread is: what it has still to publish. -/
inductive JobThread where
  | running (progress : List Outcome)
  | stopped

/-- A job, and the widget's side of it. -/
structure Job where
  slot : Slot
  thread : JobThread
  /-- What `run_with` returns, unless it panics. -/
  out : Checked ProbeResult
  /-- `p.job.is_some()`. -/
  waiting : Bool
  /-- `p.last`. -/
  last : Option ProbeResult
  /-- A frame has found nothing to take, and is about to look. -/
  polled : Bool

namespace Job

/-- The job as `spawn` returns it, to a widget that shows nothing yet. -/
def spawned (started : Except Text Unit) (progress : List Outcome) (out : Checked ProbeResult) : Job :=
  match started with
  | .ok () => ⟨⟨none, false⟩, .running progress, out, true, none, false⟩
  | .error e =>
    let failed : ProbeResult := .error (lit "could not start probe thread: " ++ e)
    ⟨⟨some failed, true⟩, .stopped, .ok failed, true, none, false⟩

end Job

inductive JobEvent where
  | publish
  | finish
  | take
  | snapshot
deriving DecidableEq

namespace Job

def publish (j : Job) : Option Job :=
  match j.thread with
  | .running (o :: progress) =>
    some { j with slot := { j.slot with latest := some (.ok o) }, thread := .running progress }
  | _ => none

/-- A thread that panics does not come here. -/
def finish (j : Job) : Option Job :=
  match j.thread, j.out with
  | .running [], .ok out => some { j with slot := ⟨some out, true⟩, thread := .stopped }
  | _, _ => none

def take (j : Job) : Option Job :=
  if j.waiting && !j.polled then
    match j.slot.take with
    | (some result, slot) => some { j with slot, last := some result, waiting := false }
    | (none, slot) => some { j with slot, polled := true }
  else none

def snapshot (j : Job) : Option Job :=
  if j.polled then some { j with last := j.slot.snapshot.or j.last, polled := false } else none

def step (j : Job) : JobEvent → Option Job
  | .publish => j.publish
  | .finish => j.finish
  | .take => j.take
  | .snapshot => j.snapshot

/-- A step of the job or of its widget. -/
def Step (j : Job) (e : JobEvent) (j' : Job) : Prop := j.step e = some j'

/-! ### What the widget shows -/

/-- A result that may be shown: something to be published, or what comes of the probe. -/
def Showable (progress : List Outcome) (out : Checked ProbeResult) (r : ProbeResult) : Prop :=
  (∃ o ∈ progress, r = .ok o) ∨ out = .ok r

/-- What the job holds, by where its thread is and whether the widget still waits. -/
structure Inv (progress : List Outcome) (out : Checked ProbeResult) (j : Job) : Prop where
  out_eq : j.out = out
  shown : ∀ r, j.last = some r → Showable progress out r
  latest : ∀ r, j.slot.latest = some r → Showable progress out r
  running : ∀ left, j.thread = .running left →
    j.slot.done = false ∧ j.waiting = true ∧ ∀ o ∈ left, o ∈ progress
  stopped : j.thread = .stopped → ∃ r, out = .ok r ∧
    (j.waiting = true → j.slot = ⟨some r, true⟩) ∧
    (j.waiting = false → j.last = some r ∧ j.polled = false)

variable {progress : List Outcome} {out : Checked ProbeResult} {j j' : Job}

theorem Inv.publish (h : Inv progress out j) (hs : j.publish = some j') : Inv progress out j' := by
  unfold Job.publish at hs
  split at hs
  · next o left ht =>
      cases hs
      obtain ⟨hdone, hwait, hleft⟩ := h.running _ ht
      refine ⟨h.out_eq, h.shown, ?_, ?_, nofun⟩
      · rintro r ⟨⟩
        exact .inl ⟨o, hleft o (by simp), rfl⟩
      · rintro left' ⟨⟩
        exact ⟨hdone, hwait, fun o ho => hleft o (List.mem_cons_of_mem _ ho)⟩
  · cases hs

theorem Inv.finish (h : Inv progress out j) (hs : j.finish = some j') : Inv progress out j' := by
  unfold Job.finish at hs
  split at hs
  · next r ht ho =>
      cases hs
      obtain ⟨-, hwait, -⟩ := h.running _ ht
      have hout : out = .ok r := h.out_eq.symm.trans ho
      refine ⟨h.out_eq, h.shown, ?_, nofun, fun _ => ⟨r, hout, fun _ => rfl, fun hn => ?_⟩⟩
      · rintro r' ⟨⟩
        exact .inr hout
      · exact absurd (hwait.symm.trans hn) (by decide)
  · cases hs

theorem Inv.take (h : Inv progress out j) (hs : j.take = some j') : Inv progress out j' := by
  unfold Job.take at hs
  split at hs
  · next hpoll =>
      rw [Bool.and_eq_true] at hpoll
      cases ht : j.thread with
      | running left =>
          -- nothing to take yet
          obtain ⟨hdone, hwait, hleft⟩ := h.running _ ht
          rw [Slot.take, hdone, if_neg (by decide)] at hs
          cases hs
          exact ⟨h.out_eq, h.shown, h.latest, h.running, fun hs => absurd (ht.symm.trans hs) nofun⟩
      | stopped =>
          obtain ⟨r, hout, hslot, -⟩ := h.stopped ht
          rw [hslot hpoll.1, Slot.take, if_pos rfl] at hs
          cases hs
          refine ⟨h.out_eq, ?_, nofun, ?_, fun _ => ⟨r, hout, nofun, fun _ => ⟨rfl, ?_⟩⟩⟩
          · rintro r' ⟨⟩
            exact .inr hout
          · intro left hl
            exact absurd (ht.symm.trans hl) nofun
          · simpa using hpoll.2
  · cases hs

theorem Inv.snapshot (h : Inv progress out j) (hs : j.snapshot = some j') :
    Inv progress out j' := by
  unfold Job.snapshot at hs
  split at hs
  · next hpolled =>
      cases hs
      refine ⟨h.out_eq, ?_, h.latest, h.running, fun ht => ?_⟩
      · intro r hr
        rcases Option.or_eq_some_iff.mp hr with hr | ⟨-, hr⟩
        · exact h.latest r hr
        · exact h.shown r hr
      · obtain ⟨r, hout, hslot, hdone⟩ := h.stopped ht
        refine ⟨r, hout, hslot, fun hn => ?_⟩
        exact absurd (hpolled.symm.trans (hdone hn).2) (by decide)
  · cases hs

theorem Inv.step {e : JobEvent} (h : Inv progress out j) (hs : Step j e j') :
    Inv progress out j' := by
  cases e with
  | publish => exact h.publish hs
  | finish => exact h.finish hs
  | take => exact h.take hs
  | snapshot => exact h.snapshot hs

theorem Inv.run {es : List JobEvent} (h : Inv progress out j) (hr : Run Step j es j') :
    Inv progress out j' :=
  hr.invariant (I := Inv progress out) (fun _ _ _ hi hs => hi.step hs) h

theorem inv_spawned (started : Except Text Unit) (progress : List Outcome)
    (out : Checked ProbeResult) :
    Inv progress (spawned started progress out).out (spawned started progress out) := by
  cases started with
  | ok u => exact ⟨rfl, nofun, nofun, fun left hl => by cases hl; exact ⟨rfl, rfl, fun _ => id⟩, nofun⟩
  | error e =>
      refine ⟨rfl, nofun, ?_, nofun, fun _ => ⟨_, rfl, fun _ => rfl, nofun⟩⟩
      rintro r ⟨⟩
      exact .inr rfl

/-! ### The result is collected -/

/-- Where the thread has stopped, a frame collects the result. -/
theorem Inv.collect {r : ProbeResult} (h : Inv progress (.ok r) j) (ht : j.thread = .stopped) :
    ∃ es j', Run Step j es j' ∧ j'.waiting = false ∧ j'.last = some r := by
  obtain ⟨r', hout, hslot, hdone⟩ := h.stopped ht
  cases hout
  cases hw : j.waiting with
  | false => exact ⟨[], j, .refl j, hw, (hdone hw).1⟩
  | true =>
      have htake : ∀ j : Job, j.waiting = true → j.polled = false → j.slot = ⟨some r, true⟩ →
          j.step .take = some { j with slot := ⟨none, true⟩, last := some r, waiting := false } := by
        intro j hw hp hslot
        simp [Job.step, Job.take, hw, hp, hslot, Slot.take]
      cases hp : j.polled with
      | false => exact ⟨_, _, .one (htake j hw hp (hslot hw)), rfl, rfl⟩
      | true =>
          -- the frame under way ends first
          have hsnap : j.step .snapshot =
              some { j with last := j.slot.snapshot.or j.last, polled := false } := if_pos hp
          exact ⟨_, _, .more hsnap (.one (htake _ hw rfl (hslot hw))), rfl, rfl⟩

/-- The thread publishes what is left and finishes. -/
theorem Inv.exists_stopped {r : ProbeResult} (h : Inv progress (.ok r) j) :
    ∃ es j', Run Step j es j' ∧ j'.thread = .stopped := by
  cases ht : j.thread with
  | stopped => exact ⟨[], j, .refl j, ht⟩
  | running left =>
      induction left generalizing j with
      | nil =>
          have hs : j.step .finish =
              some { j with slot := ⟨some r, true⟩, thread := .stopped } := by
            simp [Job.step, Job.finish, ht, h.out_eq]
          exact ⟨_, _, .one hs, rfl⟩
      | cons o left ih =>
          have hs : j.step .publish = some
              { j with slot := { j.slot with latest := some (.ok o) }, thread := .running left } := by
            simp [Job.step, Job.publish, ht]
          obtain ⟨es, j', hr, hstop⟩ := ih (h.step (e := .publish) hs) rfl
          exact ⟨_, j', .more hs hr, hstop⟩

end Job

/-- **A widget shows what was found**: in every run from the spawn of a job, what it shows was
published or is the result of the probe, and once it waits no longer it shows the result. -/
theorem job_shows (started : Except Text Unit) (progress : List Outcome) (out : Checked ProbeResult)
    {es : List JobEvent} {j : Job} (h : Run Job.Step (Job.spawned started progress out) es j) :
    (∀ r, j.last = some r → Job.Showable progress j.out r) ∧
      (j.waiting = false → ∃ r, j.out = .ok r ∧ j.last = some r) := by
  have hi := (Job.inv_spawned started progress out).run h
  rw [hi.out_eq]
  refine ⟨hi.shown, fun hw => ?_⟩
  cases ht : j.thread with
  | running left => exact absurd ((hi.running _ ht).2.1.symm.trans hw) (by decide)
  | stopped =>
      obtain ⟨r, hout, -, hdone⟩ := hi.stopped ht
      exact ⟨r, hout, (hdone hw).1⟩

def aResult : ProbeResult := .ok (.dns aOutcome)

/-- The job after its widget looked too early, and took the result in the next frame. -/
def aCollected : Job := ⟨⟨none, true⟩, .stopped, .ok aResult, false, some aResult, false⟩

theorem job_shows_early :
    (∀ r, aCollected.last = some r → Job.Showable [] aCollected.out r) ∧
      (aCollected.waiting = false → ∃ r, aCollected.out = .ok r ∧ aCollected.last = some r) := by
  have h : Run Job.Step (Job.spawned (.ok ()) [] (.ok aResult))
      [.take, .snapshot, .finish, .take] aCollected :=
    .more rfl (.more rfl (.more rfl (.one rfl)))
  exact job_shows _ _ _ h

/-- `run_with` of a lookup, and of a dossier. -/
def runNslookup (parseIp : Text → Option IpAddr) (req : Request) (id : UInt16) (socks : Sockets)
    (elapsed : ℕ) : Checked ProbeResult :=
  (nslookup parseIp req id socks elapsed).result.map (·.map .dns)

def runIntel (parseIp : Text → Option IpAddr) (req : Request) (asks : Asks) (elapsed : ℕ) :
    Checked ProbeResult :=
  (intel parseIp req asks elapsed).result.map (·.map .intel)

/-- The widget can still collect the result of the probe, or that there was no thread for it. -/
def Job.Collectable (j : Job) : Prop :=
  ∃ es j' r, Run Job.Step j es j' ∧ j'.waiting = false ∧ j.out = .ok r ∧ j'.last = some r

/-- The result of a probe that ends can be collected. -/
theorem Job.collectable {started : Except Text Unit} {progress : List Outcome}
    {out : Checked ProbeResult} (hout : Returns out) {es : List JobEvent} {j : Job}
    (h : Run Job.Step (Job.spawned started progress out) es j) : j.Collectable := by
  have hends : ∃ r, (Job.spawned started progress out).out = .ok r := by
    cases started with
    | error e => exact ⟨_, rfl⟩
    | ok u => exact hout
  obtain ⟨r, hr⟩ := hends
  have hi := (Job.inv_spawned started progress out).run h
  rw [hr] at hi
  obtain ⟨es₁, j₁, hrun₁, hstop⟩ := hi.exists_stopped
  obtain ⟨es₂, j₂, hrun₂, hdone, hlast⟩ := (hi.run hrun₁).collect hstop
  exact ⟨_, j₂, r, hrun₁.trans hrun₂, hdone, hi.out_eq, hlast⟩

/-- What ends still ends where its outcome is wrapped. -/
theorem returns_map {α : Type} {x : Checked (Except Text α)} (f : α → Outcome) (h : Returns x) :
    Returns (x.map (·.map f)) := by
  obtain ⟨r, rfl⟩ := h
  exact .ok _

/-- **No lookup leaves its widget waiting**: whatever the sockets of an `nslookup` or a dossier meet,
and however far the job and the widget have come, the widget can still collect the result. -/
theorem lookup_collected (parseIp : Text → Option IpAddr) (req : Request) (elapsed : ℕ)
    (started : Except Text Unit) :
    (∀ (id : UInt16) (socks : Sockets) (es : List JobEvent) (j : Job),
      socks.udp.Timely req.timeout →
      Run Job.Step (Job.spawned started [] (runNslookup parseIp req id socks elapsed)) es j →
      j.Collectable) ∧
    ∀ (asks : Asks) (es : List JobEvent) (j : Job), asks.Timely req.timeout →
      Run Job.Step (Job.spawned started [] (runIntel parseIp req asks elapsed)) es j →
      j.Collectable :=
  ⟨fun _ _ _ _ ht h => Job.collectable (returns_map _ (nslookup_ends ht)) h,
    fun _ _ _ ht h => Job.collectable (returns_map _ (dossier_ends ht)) h⟩

theorem lookup_collected_late :
    (Job.spawned (.ok ()) [] (runNslookup (fun _ => none) aRequest 7 ⟨aUdp, aTcp⟩ 5)).Collectable ∧
      (Job.spawned (.ok ()) [] (runIntel (fun _ => none) aRequest aDossier 5)).Collectable := by
  have h : aUdp.Timely aRequest.timeout := timely_aUdp
  have hall := lookup_collected (fun _ => none) aRequest 5 (.ok ())
  exact ⟨hall.1 7 ⟨aUdp, aTcp⟩ _ _ h (.refl _), hall.2 aDossier _ _ ⟨h, h, h, h⟩ (.refl _)⟩

end Tunnel.Probe
