import Tunnel.Wg.Allocator
import Tunnel.Wg.Forward

/-!
# Wg — The reuse of a released port

The history of a NAT: beside its state, how far the cursor has come and how far it had come when
each port was last released.  The cursor moves only when a binding opens, so a binding that lives
while the cursor goes round may be released with the cursor just before its port.

* `History`, `HistoryStep`: the history, and what a call adds to it.  `history_of_run`: every run of
  calls has one.
* `Rested`: what the cursor's documentation promises of an allocation; `CameBy`: the condition on
  the history under which it holds.
* `rested_iff`: the runs that keep the promise.  `reused_at_once`: a run that does not.
-/

namespace Tunnel.Wg
open Support

namespace Nat44

/-- The tuple a call opens a binding for. -/
def opening (nat : Nat44) : NatOp → Option FwdKey
  | .translateOut pkt _ =>
    match nat.outClass pkt with
    | .keyed key => if nat.fwd.lookup key = none then some key else none
    | _ => none
  | _ => none

/-- The port a call takes from the allocator, with its protocol. -/
def handedOut (nat : Nat44) (op : NatOp) : Option RevKey :=
  (nat.opening op).bind fun key => (nat.allocPort key.proto).1.map (RevKey.mk key.proto)

/-- How far a call moves the cursor. -/
def moves (nat : Nat44) (op : NatOp) : ℕ := ((nat.opening op).map (nat.allocMoves ·.proto)).getD 0

end Nat44

structure History where
  nat : Nat44
  /-- How often the cursor has moved. -/
  travel : ℕ
  /-- How often it had when a binding on this port was last released. -/
  released : RevKey → Option ℕ

namespace History

def new (wg : Ipv4Addr) : History := ⟨.new wg, 0, fun _ => none⟩

/-- The history after a call that leaves `nat'`. -/
def next (h : History) (op : NatOp) (nat' : Nat44) : History where
  nat := nat'
  travel := h.travel + h.nat.moves op
  released k :=
    if (h.nat.rev.lookup k ≠ none ∨ h.nat.handedOut op = some k) ∧ nat'.rev.lookup k = none then
      some (h.travel + h.nat.moves op)
    else h.released k

/-- A port the allocator hands out that was bound before has rested: since its release the cursor
has moved once round all the ports. -/
def Rested (h : History) (op : NatOp) : Prop :=
  ∀ k t, h.nat.handedOut op = some k → h.released k = some t →
    t + Nat44.span ≤ h.travel + h.nat.moves op

/-- When the first port that is free for a new binding was released, the cursor stood just past it,
or it has been at the port since. -/
def CameBy (h : History) (op : NatOp) : Prop :=
  ∀ key i t, h.nat.opening op = some key → h.nat.rev.size < MAX_BINDINGS →
    FirstFree Nat44.portAt (h.nat.free key.proto · = true) h.travel i →
    h.released ⟨key.proto, Nat44.portAt i⟩ = some t →
    Nat44.portAt t = Nat44.portAt (i + 1) ∨
      ∃ j, t ≤ j ∧ j < h.travel ∧ Nat44.portAt j = Nat44.portAt i

end History

def HistoryStep (h : History) (op : NatOp) (h' : History) : Prop :=
  ∃ nat', NatStep h.nat op nat' ∧ h' = h.next op nat'

/-- Every run of calls has a history. -/
theorem history_of_run {ops : List NatOp} {h : History} {nat : Nat44}
    (hr : Run NatStep h.nat ops nat) : ∃ h', Run HistoryStep h ops h' ∧ h'.nat = nat :=
  hr.lift History.nat fun h op nat' e => ⟨h.next op nat', ⟨nat', e, rfl⟩, rfl⟩

namespace Nat44

theorem opening_eq_some {nat : Nat44} {op : NatOp} {key : FwdKey} :
    nat.opening op = some key ↔ ∃ pkt now, op = .translateOut pkt now ∧
      nat.outClass pkt = .keyed key ∧ nat.fwd.lookup key = none := by
  cases op with
  | translateOut pkt now =>
      have heq : (∃ pkt' now', NatOp.translateOut pkt now = .translateOut pkt' now' ∧
          nat.outClass pkt' = .keyed key ∧ nat.fwd.lookup key = none) ↔
          nat.outClass pkt = .keyed key ∧ nat.fwd.lookup key = none := by
        constructor
        · rintro ⟨_, _, e, h⟩
          cases e
          exact h
        · exact fun h => ⟨pkt, now, rfl, h⟩
      rw [heq, opening]
      cases nat.outClass pkt with
      | keyed key' =>
          dsimp only
          split
          · next hn =>
              rw [Option.some.injEq, OutClass.keyed.injEq]
              exact ⟨fun e => ⟨e, e ▸ hn⟩, And.left⟩
          · next hn =>
              refine iff_of_false nofun fun ⟨e, hf⟩ => hn ?_
              cases e
              exact hf
      | _ => exact iff_of_false nofun fun h => by cases h.1
  | _ => exact iff_of_false nofun fun ⟨_, _, e, _⟩ => by cases e

/-- A call that opens no binding leaves the cursor. -/
theorem nextPort_of_opening_none {nat nat' : Nat44} {op : NatOp} (hc : PORT_LO ≤ nat.nextPort)
    (hn : nat.opening op = none) (e : NatStep nat op nat') : nat'.nextPort = nat.nextPort := by
  obtain ⟨out, e⟩ := e
  cases op with
  | setForward host port => cases e; rfl
  | clearForward => cases e; rfl
  | translateOut pkt now =>
      obtain ⟨v, pkt', e₁⟩ := NatStep.translateOut ⟨out, e⟩
      have hbound : ∀ key, nat.outClass pkt = .keyed key → ∃ p, nat.bind key now = (some p, nat) := by
        intro key hk
        rcases nat.bind_cases key now hc with ⟨p, -, hb⟩ | ⟨_, hf, -⟩ | ⟨_, _, hf, -⟩
        · exact ⟨p, hb⟩
        all_goals
          rw [opening_eq_some.mpr ⟨pkt, now, rfl, hk, hf⟩] at hn
          cases hn
      rcases translateOut_cases e₁ with ⟨-, rfl⟩ | ⟨key, hk, hb, -⟩ | ⟨key, p, nat₁, hk, hb, -, -, rfl⟩
      · rfl
      · obtain ⟨p, hp⟩ := hbound key hk
        rw [hp] at hb
        cases hb
      · obtain ⟨p, hp⟩ := hbound key hk
        rw [hp] at hb
        cases hb
        rw [closeIf_nextPort, refresh_nextPort]
  | translateIn pkt now =>
      obtain ⟨v, pkt', e₁⟩ := NatStep.translateIn ⟨out, e⟩
      rcases translateIn_cases e₁ with hs | ⟨k, b, -, -, -, -, rfl⟩ | ⟨k, b, -, -, -, -, rfl⟩
      · exact hs.2.2.2.1
      · exact refresh_nextPort _ _ _
      · rw [closeIf_nextPort, (noteFrag_sameTables _ _ _ _).2.2.2.1, refresh_nextPort]
  | expire now => cases e; rfl

/-- What a call that opens a binding does: nothing at the ceiling, else the first free port is handed
out and the cursor is left just past it. -/
theorem opening_spec {nat nat' : Nat44} {op : NatOp} {key : FwdKey} (hn : nat.opening op = some key)
    (e : NatStep nat op nat') {m : ℕ} (hm : nat.nextPort = portAt m) :
    (MAX_BINDINGS ≤ nat.rev.size ∧ nat.handedOut op = none ∧ nat.moves op = 0 ∧ nat' = nat) ∨
    (nat.rev.size < MAX_BINDINGS ∧ ∃ i, i < m + span ∧
      FirstFree portAt (nat.free key.proto · = true) m i ∧
      nat.handedOut op = some ⟨key.proto, portAt i⟩ ∧ m + nat.moves op = i + 1 ∧
      nat'.nextPort = portAt (i + 1)) := by
  obtain ⟨pkt, now, rfl, hk, hf⟩ := opening_eq_some.mp hn
  obtain ⟨out, e⟩ := e
  obtain ⟨v, pkt', e₁⟩ := NatStep.translateOut ⟨out, e⟩
  rw [handedOut, moves, hn, Option.bind_some, Option.map_some, Option.getD_some]
  rw [translateOut_eq, hk] at e₁
  dsimp only at e₁
  rw [bind, hf] at e₁
  dsimp only at e₁
  rcases Nat.lt_or_ge nat.rev.size MAX_BINDINGS with hs | hs
  · obtain ⟨i, hi, hff, ha, hmoves⟩ := nat.allocPort_firstFree key.proto hs hm
    have hle := hff.le
    rw [ha] at e₁
    cases e₁
    refine .inr ⟨hs, i, hi, hff, by rw [ha]; rfl, by rw [hmoves]; omega, ?_⟩
    rw [closeIf_nextPort, refresh_nextPort]
  · rw [nat.allocPort_full key.proto hs] at e₁ ⊢
    cases e₁
    exact .inl ⟨hs, rfl, if_pos hs, rfl⟩

end Nat44

namespace History

/-- The cursor is where its travel has brought it, and no release is still to come. -/
structure Inv (h : History) : Prop where
  nat : h.nat.Inv
  cursor : h.nat.nextPort = Nat44.portAt h.travel
  past : ∀ k t, h.released k = some t → t ≤ h.travel

theorem inv_new (wg : Ipv4Addr) : (new wg).Inv := ⟨Nat44.inv_new wg, rfl, nofun⟩

theorem Inv.step {h h' : History} {op : NatOp} (hi : h.Inv) (e : HistoryStep h op h') : h'.Inv := by
  obtain ⟨nat', e, rfl⟩ := e
  refine ⟨hi.nat.call e, ?_, fun k t hk => ?_⟩
  · change nat'.nextPort = Nat44.portAt (h.travel + h.nat.moves op)
    cases hn : h.nat.opening op with
    | none =>
        rw [Nat44.nextPort_of_opening_none hi.nat.cursor_ge hn e, hi.cursor, Nat44.moves, hn]
        rfl
    | some key =>
        rcases Nat44.opening_spec hn e hi.cursor with ⟨-, -, hm, rfl⟩ | ⟨-, i, -, -, -, hm, hc⟩
        · rw [hm]; exact hi.cursor
        · rw [hm, hc]
  · change t ≤ h.travel + h.nat.moves op
    change (if _ then _ else _) = some t at hk
    split at hk
    · cases hk; exact Nat.le_refl _
    · exact Nat.le_add_right_of_le (hi.past k t hk)

/-- An allocation keeps the promise exactly when the cursor came by the port. -/
theorem Inv.rested_iff_cameBy {h : History} (hi : h.Inv) (op : NatOp) :
    h.Rested op ↔ h.CameBy op := by
  obtain ⟨out, nat', e⟩ := h.nat.call_total op
  cases hn : h.nat.opening op with
  | none =>
      refine iff_of_true (fun k t hk => ?_) (fun key i t hk => ?_)
      · rw [Nat44.handedOut, hn] at hk; cases hk
      · rw [hn] at hk; cases hk
  | some key =>
      rcases Nat44.opening_spec hn ⟨out, e⟩ hi.cursor with
          ⟨hs, hout, -, -⟩ | ⟨hs, i, hlt, hff, hout, hm, -⟩
      · -- At the ceiling nothing is handed out.
        refine iff_of_true (fun k t hk => ?_) (fun key i t _ hlt => ?_)
        · rw [hout] at hk; cases hk
        · exact absurd hlt (Nat.not_lt.mpr hs)
      have hround : ∀ t, h.released ⟨key.proto, Nat44.portAt i⟩ = some t →
          (t + Nat44.span ≤ i + 1 ↔ Nat44.portAt t = Nat44.portAt (i + 1) ∨
            ∃ j, t ≤ j ∧ j < h.travel ∧ Nat44.portAt j = Nat44.portAt i) :=
        fun t ht => Nat44.ports.round_iff (hi.past _ t ht) hff.le hlt
      constructor
      · intro hr key' i' t hk' hs' hff' ht
        cases hn.symm.trans hk'
        cases hff.unique hff'
        refine (hround t ht).mp ?_
        rw [← hm]
        exact hr _ t hout ht
      · intro hcb k t hk ht
        cases hout.symm.trans hk
        rw [hm]
        exact (hround t ht).mpr (hcb key i t hn hs hff ht)

end History

/-- A released port rests for a full cycle in exactly the runs in which, whenever a binding opens on
a port that was released, the cursor stood just past the port at the release or has been at it
since. -/
theorem rested_iff (wg : Ipv4Addr) (ops : List NatOp) (h : History) :
    Run (Guarded History.Rested HistoryStep) (History.new wg) ops h ↔
      Run (Guarded History.CameBy HistoryStep) (History.new wg) ops h :=
  Run.guarded_congr (I := History.Inv) (fun _ _ _ hi _ e => hi.step e)
    (fun _ op hi => hi.rested_iff_cameBy op) (History.inv_new wg)

/-! ### A port reused at once -/

namespace History

variable {n : ℕ} {h : History}

/-- A call that opens a binding on a free port at the cursor moves the cursor once. -/
theorem Inv.opens_at_cursor (hi : h.Inv) {op : NatOp} {key : FwdKey} {nat' : Nat44}
    (hn : h.nat.opening op = some key) (hs : h.nat.rev.size < MAX_BINDINGS)
    (hfree : h.nat.free key.proto (Nat44.portAt h.travel) = true) (e : NatStep h.nat op nat') :
    h.nat.handedOut op = some ⟨key.proto, Nat44.portAt h.travel⟩ ∧ h.nat.moves op = 1 := by
  rcases Nat44.opening_spec hn e hi.cursor with ⟨hfull, -⟩ | ⟨-, i, -, hff, hout, hm, -⟩
  · exact absurd hs (Nat.not_lt.mpr hfull)
  have hi' : i = h.travel := hff.unique (.here hfree)
  subst hi'
  exact ⟨hout, by omega⟩

/-- What the sweep after the idle time leaves: no binding, and the port released where the cursor
is. -/
structure Swept (h : History) : Prop where
  inv : h.Inv
  wgAddr : h.nat.wgAddr = ⟨10, 2, 0, 2⟩
  forward : h.nat.forward = none
  rev : ∀ k, h.nat.rev.lookup k = none
  size : h.nat.rev.size < MAX_BINDINGS
  released : h.released ⟨PROTO_UDP, 1024⟩ = some h.travel

theorem Inv.swept (hi : h.Inv) (hc : Nat44.Circled n h.nat) : Swept (h.next (.expire UDP_IDLE)
    (h.nat.expire UDP_IDLE).2) := by
  have hrev : ∀ k, (h.nat.expire UDP_IDLE).2.rev.lookup k = none := by
    intro k
    rw [Nat44.lookup_expire_rev, hc.lookup_rev]
    split
    · next e => rw [e]; decide
    · rfl
  have hl := hc.lookup_rev ⟨PROTO_UDP, 1024⟩
  rw [if_pos rfl] at hl
  refine ⟨hi.step ⟨_, ⟨none, rfl⟩, rfl⟩, hc.wgAddr, hc.forward, hrev, ?_, ?_⟩
  · exact Nat.lt_of_le_of_lt (Finmap.size_retain_le _ _) hc.size_lt
  · exact if_pos ⟨.inl (by rw [hl]; nofun), hrev _⟩

/-- A tuple that has none opens its binding at the cursor. -/
theorem Swept.opens {pkt : Bytes} {key : FwdKey} (hw : Swept h) (hk : outTuple pkt = some key)
    (hr : routable key.dst = true) (hd : key.dst ≠ ⟨10, 2, 0, 2⟩) (now : Instant) :
    h.nat.handedOut (.translateOut pkt now) = some ⟨key.proto, Nat44.portAt h.travel⟩ ∧
      h.nat.moves (.translateOut pkt now) = 1 := by
  have hc : h.nat.outClass pkt = .keyed key :=
    Nat44.outClass_keyed_iff.mpr ⟨hk, hr, hw.wgAddr ▸ hd, by rw [Nat44.forwards, hw.forward]; rfl⟩
  have hf : h.nat.fwd.lookup key = none := by
    by_contra hne
    obtain ⟨p, hp⟩ := Option.ne_none_iff_exists'.mp hne
    obtain ⟨b, hb, -⟩ := hw.inv.nat.fwd_rev _ p hp
    rw [hw.rev] at hb
    cases hb
  have hfree : h.nat.free key.proto (Nat44.portAt h.travel) = true := by
    refine Nat44.free_iff.mpr ⟨?_, hw.rev _⟩
    rw [Nat44.reserved, hw.forward]
    exact Bool.and_false _
  obtain ⟨out, nat', e⟩ := h.nat.call_total (.translateOut pkt now)
  exact hw.inv.opens_at_cursor (Nat44.opening_eq_some.mpr ⟨pkt, now, rfl, hc, hf⟩) hw.size hfree
    ⟨out, e⟩

end History

/-- A conversation that lives while the cursor goes once round: its port is released with the cursor
at it, and the next conversation gets it. -/
theorem reused_at_once :
    ∃ ops h op k, Run HistoryStep (History.new ⟨10, 2, 0, 2⟩) ops h ∧
      h.nat.handedOut op = some k ∧ h.released k = some h.travel ∧ h.nat.moves op = 1 ∧
      ¬ h.Rested op := by
  obtain ⟨nat, hc⟩ := Nat44.circled 64511
  obtain ⟨_, ops, rfl, hcalls⟩ := hc.reach
  obtain ⟨h, hr, rfl⟩ := history_of_run (h := .new ⟨10, 2, 0, 2⟩) hcalls
  have hi := hr.invariant (I := History.Inv) (fun _ _ _ hi e => hi.step e) (History.inv_new _)
  have hw := hi.swept hc
  have hport : Nat44.portAt h.travel = 1024 := by
    rw [← hi.cursor, hc.cursor]
    decide
  obtain ⟨hout, hm⟩ := hw.opens (Nat44.outTuple_udpPacket ⟨10, 0, 0, 5⟩ ⟨1, 1, 1, 1⟩ 5001 53)
    (by decide) (by decide) UDP_IDLE
  have hout' := hout.trans (congrArg (fun p => some (RevKey.mk PROTO_UDP p)) hport)
  refine ⟨_, _, _, _, hr.trans (.one ⟨_, ⟨none, rfl⟩, rfl⟩), hout', hw.released, hm, fun hrest => ?_⟩
  have hspan := hrest _ _ hout' hw.released
  rw [hm] at hspan
  have : Nat44.span = 64512 := rfl
  omega

end Tunnel.Wg
