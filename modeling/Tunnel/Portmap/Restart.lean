import Tunnel.Portmap.Lease
import Tunnel.Support.Restarts

/-!
# Portmap — A gateway that restarts

A gateway's epoch counts the seconds since it started, so an accepted reply whose epoch is below that
of one accepted before says that every mapping is gone.  `renew` compares the epoch of a UDP reply
with the last one, and no other.

* `NoticesRestart`: no pass in which a restart shows ends with a live lease.
* `Uncompared`: the epochs a UDP reply's is not compared with.  `Compared`: the condition under which
  that does no harm.
* `notices_iff_compared`: one pass.  `restart_noticed_iff`: a run of passes.
-/

namespace Tunnel.Portmap
open Support Text

/-- The epochs of accepted replies, in order. -/
def epochs (heard : List (Proto × UInt32)) : List UInt32 := heard.map Prod.snd

/-- Those of UDP replies. -/
def udpEpochs (heard : List (Proto × UInt32)) : List UInt32 :=
  heard.filterMap fun x => if x.1 = .udp then some x.2 else none

/-- Where the pass accepts a reply with an epoch below that of one accepted before, the renewal fails,
no lease is left, and the driver is told of no port. -/
def NoticesRestart (gateway : Ipv4Addr) (s : Session) (p : Pass) : Prop :=
  ∀ result lease asked, renew gateway p s.lease = .ok (result, lease, asked) →
    Undercut (epochs s.heard) (epochs (asked.filterMap Exchange.heard)) →
      (∃ e, result = .error e) ∧ lease.current = none ∧
        ∀ s' event wait, leasePass gateway p s = .ok (s', event, wait) →
          ∀ port, event ≠ .mapped port

/-- The epoch of a TCP reply, or of a UDP reply from before a restart that was noticed. -/
def Session.Uncompared (s : Session) (e : UInt32) : Prop :=
  (.tcp, e) ∈ s.heard ∨ BeforeDescent (udpEpochs s.heard) e

/-- Where the UDP reply of the pass is accepted and shows no restart itself, an accepted TCP reply shows
none since, and no uncompared epoch is above; or TCP is refused, and there is no lease to lose. -/
def Compared (gateway : Ipv4Addr) (s : Session) (p : Pass) : Prop :=
  ∀ u, grant gateway p.udp .udp = some u → gatewayRestarted s.lease.epoch u.epoch = false →
    (∀ t, grant gateway p.tcp .tcp = some t → u.epoch ≤ t.epoch) ∧
      ((∀ e, s.Uncompared e → e ≤ u.epoch) ∨
        grant gateway p.tcp .tcp = none ∧ s.lease.current = none)

/-! ### The recorded epoch -/

/-- The epoch that is recorded is that of the last UDP reply. -/
def Session.Recorded (s : Session) : Prop := s.lease.epoch = (udpEpochs s.heard).getLast?

theorem recorded_start : Session.start.Recorded := rfl

/-- Every renewal in which UDP is accepted records its epoch. -/
theorem Renewal.recorded {gateway : Ipv4Addr} {p : Pass} {lease lease' : Lease}
    {r : Except Text Mapping} {heard new : List (Proto × UInt32)}
    (h : Renewal gateway p lease r lease' new) (hr : lease.epoch = (udpEpochs heard).getLast?) :
    lease'.epoch = (udpEpochs (heard ++ new)).getLast? := by
  cases h with
  | refused => rwa [List.append_nil]
  | restarted | half | renewed => simp [udpEpochs]

theorem Session.Recorded.step {gateway : Ipv4Addr} {s s' : Session} {p : Pass} (h : s.Recorded)
    (hstep : LeaseStep gateway s p s') : s'.Recorded := by
  obtain ⟨r, lease', new, hend, hlease, hheard⟩ := hstep.spec
  rw [Recorded, hlease, hheard]
  exact hend.recorded h

/-- An epoch above that of a UDP reply that shows no restart is one it is not compared with. -/
theorem Session.Recorded.above_iff {s : Session} (h : s.Recorded) {e : UInt32}
    (he : gatewayRestarted s.lease.epoch e = false) :
    (∃ b ∈ epochs s.heard, e < b) ↔ ∃ b, s.Uncompared b ∧ e < b := by
  constructor
  · rintro ⟨b, hb, hlt⟩
    obtain ⟨⟨proto, b'⟩, hmem, rfl⟩ := List.mem_map.mp hb
    cases proto with
    | tcp => exact ⟨b', .inl hmem, hlt⟩
    | udp =>
        refine ⟨b', .inr (by_contra fun hd => ?_), hlt⟩
        have hudp : b' ∈ udpEpochs s.heard := List.mem_filterMap.mpr ⟨(.udp, b'), hmem, rfl⟩
        -- otherwise it is at most the last one, which is
        obtain ⟨last, hlast⟩ : ∃ last, (udpEpochs s.heard).getLast? = some last :=
          Option.isSome_iff_exists.mp (by simpa using List.ne_nil_of_mem hudp)
        have hle := le_last_of_not_beforeDescent hudp hd hlast
        rw [h.trans hlast] at he
        exact absurd (UInt32.lt_of_lt_of_le hlt hle) (of_decide_eq_false he)
  · rintro ⟨b, hb | hb, hlt⟩
    · exact ⟨b, List.mem_map_of_mem (f := Prod.snd) hb, hlt⟩
    · obtain ⟨⟨proto, b'⟩, hmem, heq⟩ := List.mem_filterMap.mp hb.mem
      refine ⟨b, List.mem_map.mpr ⟨_, hmem, ?_⟩, hlt⟩
      dsimp only at heq
      split at heq
      · exact Option.some.inj heq
      · cases heq

/-! ### One pass -/

variable {gateway : Ipv4Addr} {p : Pass} {s : Session}

/-- What a pass notices, by the end its renewal has. -/
theorem noticesRestart_iff {r : Except Text Mapping} {lease' : Lease} {asked : List Exchange}
    (h : renew gateway p s.lease = .ok (r, lease', asked)) :
    NoticesRestart gateway s p ↔
      (Undercut (epochs s.heard) (epochs (asked.filterMap Exchange.heard)) →
        (∃ e, r = .error e) ∧ lease'.current = none) := by
  constructor
  · intro hn hcut
    obtain ⟨he, hc, -⟩ := hn _ _ _ h hcut
    exact ⟨he, hc⟩
  · intro hn result lease asked' h' hcut
    rw [h] at h'
    cases h'
    obtain ⟨⟨e, rfl⟩, hc⟩ := hn hcut
    refine ⟨⟨e, rfl⟩, hc, fun s' event wait hp port hm => ?_⟩
    obtain ⟨s₁, event₁, wait₁, hp₁, -, -, hmapped, -⟩ := leasePass_spec h
    rw [hp] at hp₁
    cases hp₁
    obtain ⟨m, hm, -⟩ := (hmapped port).mp hm
    cases hm

/-- A restart shows in a UDP reply that is not below the last where an uncompared epoch is above it. -/
theorem Session.Recorded.undercut_iff (hs : s.Recorded) {e : UInt32}
    (he : gatewayRestarted s.lease.epoch e = false) :
    Undercut (epochs s.heard) [e] ↔ ¬ ∀ b, s.Uncompared b → b ≤ e := by
  rw [undercut_singleton, hs.above_iff he]
  constructor
  · rintro ⟨b, hb, hlt⟩ hle
    exact UInt32.not_lt.mpr (hle b hb) hlt
  · intro h
    obtain ⟨b, hb⟩ := Classical.not_forall.mp h
    obtain ⟨hb, hlt⟩ := Classical.not_imp.mp hb
    exact ⟨b, hb, UInt32.not_le.mp hlt⟩

/-- The condition, where the UDP reply is accepted and is not below the last. -/
theorem compared_iff {u : Mapping} (hudp : grant gateway p.udp .udp = some u)
    (hr : gatewayRestarted s.lease.epoch u.epoch = false) :
    Compared gateway s p ↔
      (∀ t, grant gateway p.tcp .tcp = some t → u.epoch ≤ t.epoch) ∧
        ((∀ e, s.Uncompared e → e ≤ u.epoch) ∨
          grant gateway p.tcp .tcp = none ∧ s.lease.current = none) := by
  constructor
  · exact fun h => h u hudp hr
  · intro h u' hu' _
    cases hudp.symm.trans hu'
    exact h

/-- A pass notices what it compares. -/
theorem notices_iff_compared (hs : s.Recorded) :
    NoticesRestart gateway s p ↔ Compared gateway s p := by
  obtain ⟨r, lease', asked, hren, hend⟩ := renew_spec gateway p s.lease
  rw [noticesRestart_iff hren]
  generalize asked.filterMap Exchange.heard = new at hend
  cases hend with
  | refused hudp =>
      refine iff_of_true (fun hcut => hcut.elim) fun u hu => ?_
      cases hudp.symm.trans hu
  | restarted hudp hr =>
      refine iff_of_true (fun _ => ⟨⟨_, rfl⟩, rfl⟩) fun u hu hr' => ?_
      cases hudp.symm.trans hu
      cases hr.symm.trans hr'
  | @half e u hudp hr htcp =>
      -- the lease is kept, so there must be none where a restart shows
      rw [compared_iff hudp hr, show epochs [(Proto.udp, u.epoch)] = [u.epoch] from rfl,
        hs.undercut_iff hr]
      constructor
      · intro hn
        refine ⟨fun t ht => (nomatch htcp.symm.trans ht), ?_⟩
        by_cases hle : ∀ b, s.Uncompared b → b ≤ u.epoch
        · exact .inl hle
        · exact .inr ⟨htcp, (hn hle).2⟩
      · rintro ⟨-, hle | ⟨-, hnone⟩⟩ hcut
        · exact absurd hle hcut
        · exact ⟨⟨e, rfl⟩, hnone⟩
  | @renewed u t hudp hr htcp =>
      -- the renewal succeeds, so no restart may show
      have hcut : Undercut (epochs s.heard) (epochs [(.udp, u.epoch), (.tcp, t.epoch)]) ↔
          (¬ ∀ b, s.Uncompared b → b ≤ u.epoch) ∨ t.epoch < u.epoch := by
        rw [← hs.undercut_iff hr, undercut_singleton]
        exact undercut_pair
      rw [compared_iff hudp hr, hcut]
      constructor
      · intro hn
        have hnot : ∀ {P : Prop}, (P → (some u.external : Option UInt16) = none) → ¬ P :=
          fun h hp => Option.some_ne_none _ (h hp)
        refine ⟨fun t' ht' => ?_, .inl ?_⟩
        · cases htcp.symm.trans ht'
          exact UInt32.not_lt.mp (hnot fun hlt => (hn (.inr hlt)).2)
        · exact Classical.not_not.mp (hnot fun hle => (hn (.inl hle)).2)
      · rintro ⟨htu, hle | ⟨hnone, -⟩⟩ hcut
        · rcases hcut with hcut | hlt
          · exact absurd hle hcut
          · exact absurd hlt (UInt32.not_lt.mpr (htu t htcp))
        · cases htcp.symm.trans hnone

/-! ### Runs -/

/-- **A restart is noticed where it is compared.**  The runs of the loop in which no restart is reported
as a live lease are those whose passes all meet the condition. -/
theorem restart_noticed_iff (gateway : Ipv4Addr) (ps : List Pass) (s : Session) :
    Run (Guarded (NoticesRestart gateway) (LeaseStep gateway)) .start ps s ↔
      Run (Guarded (Compared gateway) (LeaseStep gateway)) .start ps s :=
  Run.guarded_congr (I := Session.Recorded) (fun _ _ _ h _ hstep => h.step hstep)
    (fun _ _ h => notices_iff_compared h) recorded_start

/-- A reply that grants port 51413 for a minute. -/
def granting (proto : Proto) (epoch : UInt32) : Attempt :=
  .answered ([0, proto.opcode ||| RESPONSE_BIT, 0, 0] ++ beBytes32 epoch ++ beBytes 0 ++
    beBytes 51413 ++ beBytes32 60)

/-- The gateway restarts between the two requests of a pass: its UDP mapping is gone, and the driver is
told of the port. -/
theorem restart_announced :
    ∃ gateway p, Session.start.stopped = false ∧
      (∃ s wait, leasePass gateway p .start = .ok (s, .mapped 51413, wait)) ∧
      grant gateway p.udp .udp = some ⟨51413, secs 60, 900⟩ ∧
      grant gateway p.tcp .tcp = some ⟨51413, secs 60, 12⟩ ∧ ¬ NoticesRestart gateway .start p := by
  refine ⟨⟨10, 2, 0, 1⟩, ⟨⟨granting .udp 900, .silent, .silent⟩, ⟨granting .tcp 12, .silent, .silent⟩,
    ⟨.silent, .silent, .silent⟩, true⟩, rfl, ⟨_, _, rfl⟩, by decide +kernel, by decide +kernel, ?_⟩
  rw [notices_iff_compared recorded_start]
  intro hc
  have hle := (hc ⟨51413, secs 60, 900⟩ (by decide +kernel) rfl).1 ⟨51413, secs 60, 12⟩
    (by decide +kernel)
  exact absurd hle (by decide)

end Tunnel.Portmap
