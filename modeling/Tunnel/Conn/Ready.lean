import Tunnel.Conn.Manager

/-!
# Conn — The ready queue

`Ready` between threads.  `mark` is two steps, the insert under the lock and, for an id that was not
there, `notify_one`; any number of threads may stand between the two.  `take` is one step.  The
consumer is the engine's loop: it parks, is woken by the permit or by another arm of its `select!`,
takes, and parks again.

tokio's `Notify` is not part of the repository.  It stores at most one permit, and keeps it when a
wait is cancelled.

* `Wakes.Inv`: the queue holds the ids marked since the last take, and an id it holds is announced:
  by the permit, or by a marker about to store it, unless the consumer is on its way to take it.
* `no_wake_lost`: the same, in every reachable state.
-/

namespace Tunnel.Conn
open Support

/-- Where the engine's loop stands. -/
inductive Consumer where
  /-- In the `select!`. -/
  | parked
  /-- Past it, and before `take`. -/
  | awake
  /-- Past `take`, or not yet parked for the first time. -/
  | drained
deriving DecidableEq, Repr

/-- The queue and its notification, with the markers between their two steps, and every mark since
the last take. -/
structure Wakes (M : Type) where
  ready : Ready
  permit : Bool
  notifying : Finset M
  consumer : Consumer
  marks : List FlowId

inductive WakeEvent (M : Type) where
  /-- The first step of `mark`, under the lock. -/
  | insert (m : M) (id : FlowId)
  /-- The second: `notify_one`. -/
  | notify (m : M)
  /-- `wait` returns with the permit. -/
  | woken
  /-- Another arm is taken. -/
  | otherArm
  | take (ids : List FlowId)
  | park

variable {M : Type} [DecidableEq M]

def Wakes.new : Wakes M := ⟨.new, false, ∅, .drained, []⟩

def WakeStep (s : Wakes M) : WakeEvent M → Wakes M → Prop
  | .insert m id, s' =>
    m ∉ s.notifying ∧ s' = { s with
      ready := s.ready.mark id
      notifying := if id ∈ s.ready.marked then s.notifying else insert m s.notifying
      marks := s.marks ++ [id] }
  | .notify m, s' =>
    m ∈ s.notifying ∧ s' = { s with permit := true, notifying := s.notifying.erase m }
  | .woken, s' =>
    s.consumer = .parked ∧ s.permit = true ∧ s' = { s with permit := false, consumer := .awake }
  | .otherArm, s' => s.consumer = .parked ∧ s' = { s with consumer := .awake }
  | .take ids, s' =>
    s.consumer = .awake ∧ ids = s.ready.take.1 ∧
      s' = { s with ready := s.ready.take.2, consumer := .drained, marks := [] }
  | .park, s' => s.consumer = .drained ∧ s' = { s with consumer := .parked }

def WakeReachable : Wakes M → Prop := Reachable (· = Wakes.new) WakeStep

namespace Wakes

/-- The permit is stored, or a marker between its two steps will store it. -/
def Announced (s : Wakes M) : Prop := s.permit = true ∨ s.notifying.Nonempty

structure Inv (s : Wakes M) : Prop where
  queue : s.ready.queue = s.marks.eraseDups
  marked : ∀ id, id ∈ s.ready.marked ↔ id ∈ s.marks
  announced : s.consumer ≠ .awake → s.ready.queue ≠ [] → s.Announced

omit [DecidableEq M] in
theorem inv_new : (new : Wakes M).Inv where
  queue := rfl
  marked := by simp [new, Ready.new]
  announced _ h := absurd rfl h

/-- One more mark: at the end of the queue if it is the first. -/
theorem eraseDups_concat (ids : List FlowId) (id : FlowId) :
    (ids ++ [id]).eraseDups = if id ∈ ids then ids.eraseDups else ids.eraseDups ++ [id] := by
  rw [List.eraseDups_append]
  by_cases h : id ∈ ids <;> simp [List.removeAll, List.eraseDups_cons, h]

theorem nodup_eraseDups (ids : List FlowId) : ids.eraseDups.Nodup := by
  induction ids using List.reverseRecOn with
  | nil => simp
  | append_singleton ids id ih =>
      rw [eraseDups_concat]
      split
      · exact ih
      · next h =>
          rw [← List.concat_eq_append]
          exact ih.concat (by simpa using h)

theorem Inv.insert {s : Wakes M} (h : s.Inv) (m : M) (id : FlowId) :
    Inv { s with
      ready := s.ready.mark id
      notifying := if id ∈ s.ready.marked then s.notifying else insert m s.notifying
      marks := s.marks ++ [id] } := by
  have hm := h.marked id
  by_cases hid : id ∈ s.ready.marked
  · have hmark : s.ready.mark id = s.ready := if_pos hid
    refine ⟨?_, fun id' => ?_, fun hc hq => ?_⟩
    · simp [hmark, eraseDups_concat, hm.mp hid, h.queue]
    · simp only [hmark, h.marked, List.mem_append, List.mem_singleton]
      exact ⟨Or.inl, fun he => he.elim (fun h => h) fun e => e ▸ hm.mp hid⟩
    · simp only [hmark] at hq
      simpa [Announced, hid] using h.announced hc hq
  · have hmark : s.ready.mark id = ⟨s.ready.queue ++ [id], Insert.insert id s.ready.marked⟩ :=
      if_neg hid
    refine ⟨?_, fun id' => ?_, fun _ _ => ?_⟩
    · simp [hmark, eraseDups_concat, mt hm.mpr hid, h.queue]
    · simp [hmark, h.marked, or_comm]
    · simp [Announced, hid]

theorem Inv.step {s s' : Wakes M} {e : WakeEvent M} (h : s.Inv) (hs : WakeStep s e s') :
    s'.Inv := by
  cases e with
  | insert m id =>
      obtain ⟨-, rfl⟩ := hs
      exact h.insert m id
  | notify m =>
      obtain ⟨-, rfl⟩ := hs
      exact ⟨h.queue, h.marked, fun _ _ => .inl rfl⟩
  | woken =>
      obtain ⟨-, -, rfl⟩ := hs
      exact ⟨h.queue, h.marked, fun hc => absurd rfl hc⟩
  | otherArm =>
      obtain ⟨-, rfl⟩ := hs
      exact ⟨h.queue, h.marked, fun hc => absurd rfl hc⟩
  | take ids =>
      obtain ⟨-, -, rfl⟩ := hs
      exact ⟨rfl, by simp [Ready.take, Ready.new], fun _ hq => absurd rfl hq⟩
  | park =>
      obtain ⟨hc, rfl⟩ := hs
      exact ⟨h.queue, h.marked, fun _ => h.announced (by simp [hc])⟩

end Wakes

theorem WakeReachable.inv {s : Wakes M} (h : WakeReachable s) : s.Inv := by
  refine Reachable.invariant (I := Wakes.Inv) ?_ (fun _ _ _ => Wakes.Inv.step) h
  rintro _ rfl
  exact Wakes.inv_new

/-- Whatever the interleaving, a take returns the ids marked since the last one, each once and in
the order of their first marks; and while the consumer is parked before a queue that is not empty,
the permit is stored or a marker will store it. -/
theorem no_wake_lost {s : Wakes M} (h : WakeReachable s) :
    (∀ ids s', WakeStep s (.take ids) s' → ids = s.marks.eraseDups ∧ ids.Nodup ∧ s'.marks = []) ∧
      (s.consumer = .parked → s.ready.queue ≠ [] → s.permit = true ∨ ∃ m, m ∈ s.notifying) := by
  have hi := h.inv
  constructor
  · rintro ids s' ⟨-, rfl, rfl⟩
    exact ⟨hi.queue, by simp [Ready.take, hi.queue, Wakes.nodup_eraseDups], rfl⟩
  · intro hc hq
    exact hi.announced (by simp [hc]) hq

/-- A flow is marked and not yet announced when the loop parks. -/
theorem no_wake_lost_marked : ∃ s : Wakes ℕ, s.consumer = .parked ∧ s.ready.queue ≠ [] ∧
    s.permit = false ∧ (s.permit = true ∨ ∃ m, m ∈ s.notifying) := by
  let flow : FlowId := .tcp ⟨⟨⟨10, 0, 0, 2⟩, 40000⟩, ⟨⟨1, 1, 1, 1⟩, 443⟩⟩
  let s : Wakes ℕ := ⟨⟨[flow], {flow}⟩, false, {0}, .parked, [flow]⟩
  have hr : WakeReachable s :=
    ⟨.new, [.insert 0 flow, .park], rfl, .more ⟨by simp [Wakes.new], rfl⟩ (.one ⟨rfl, rfl⟩)⟩
  exact ⟨s, rfl, by simp [s], rfl, (no_wake_lost hr).2 rfl (by simp [s])⟩

end Tunnel.Conn
