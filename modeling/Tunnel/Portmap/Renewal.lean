import Tunnel.Portmap.Lease

/-!
# Portmap — Renewing in time

The wait before a renewal is half of what the gateway granted, floored.  A pass is granted two
mappings, and waits for the one over UDP.

* `RenewsInTime`: neither mapping lapses in the wait after a pass.
* `Balanced`: the TCP mapping is granted for more than half as long as the UDP one.
* `renewsInTime_iff`: one pass.  `renewed_in_time_iff`: a run of passes.
-/

namespace Tunnel.Portmap
open Support Text

/-- Where a pass goes well and both mappings are granted for longer than the shortest wait, the wait
after it is shorter than both. -/
def RenewsInTime (gateway : Ipv4Addr) (s : Session) (p : Pass) : Prop :=
  ∀ s' port wait u t, leasePass gateway p s = .ok (s', .mapped port, wait) → p.taken = true →
    grant gateway p.udp .udp = some u → grant gateway p.tcp .tcp = some t →
      MIN_RENEW < u.lifetime → MIN_RENEW < t.lifetime → wait < u.lifetime ∧ wait < t.lifetime

/-- Where no restart shows and both mappings are granted for longer than the shortest wait, the TCP
mapping is granted for more than half as long as the UDP one. -/
def Balanced (gateway : Ipv4Addr) (s : Session) (p : Pass) : Prop :=
  ∀ u t, p.taken = true → grant gateway p.udp .udp = some u →
    gatewayRestarted s.lease.epoch u.epoch = false → grant gateway p.tcp .tcp = some t →
      MIN_RENEW < u.lifetime → MIN_RENEW < t.lifetime → u.lifetime < 2 * t.lifetime

/-- The wait is shorter than the lifetime it is for, and than another one that is longer than half of
it. -/
theorem renewAfter_lt {granted other : ℕ} (h : MIN_RENEW < granted) (h' : MIN_RENEW < other) :
    (renewAfter granted < granted ∧ renewAfter granted < other) ↔ granted < 2 * other := by
  rw [renewAfter, Nat.max_lt, Nat.max_lt]
  omega

/-- A pass renews in time when the two mappings are balanced. -/
theorem renewsInTime_iff {gateway : Ipv4Addr} {s : Session} {p : Pass} :
    RenewsInTime gateway s p ↔ Balanced gateway s p := by
  obtain ⟨r, lease', asked, hren, hend⟩ := renew_spec gateway p s.lease
  obtain ⟨s', event, wait, hp, -, -, hmapped, hwait⟩ := leasePass_spec hren
  generalize asked.filterMap Exchange.heard = new at hend
  -- without a mapping to return, nothing is promised and nothing is asked for
  have hvacuous : (∀ m, r ≠ .ok m) → RenewsInTime gateway s p := by
    intro hno s₁ port wait₁ u t hp₁
    rw [hp] at hp₁
    cases hp₁
    obtain ⟨m, hm, -⟩ := (hmapped port).mp rfl
    exact absurd hm (hno m)
  cases hend with
  | refused hudp =>
      refine iff_of_true (hvacuous nofun) fun u t _ hu => ?_
      cases hudp.symm.trans hu
  | restarted hudp hr =>
      refine iff_of_true (hvacuous nofun) fun u t _ hu hr' => ?_
      cases hudp.symm.trans hu
      cases hr.symm.trans hr'
  | half hudp hr htcp =>
      refine iff_of_true (hvacuous nofun) fun u t _ _ _ ht => ?_
      cases htcp.symm.trans ht
  | @renewed u t hudp hr htcp =>
      obtain rfl := (hmapped u.external).mpr ⟨u, rfl, rfl⟩
      obtain rfl := hwait u rfl
      constructor
      · intro h u' t' htaken hu' _ ht' hul htl
        cases hudp.symm.trans hu'
        cases htcp.symm.trans ht'
        exact (renewAfter_lt hul htl).mp (h _ _ _ _ _ hp htaken hudp htcp hul htl)
      · intro h s₁ port wait₁ u' t' hp₁ htaken hu' ht' hul htl
        rw [hp] at hp₁
        cases hp₁
        cases hudp.symm.trans hu'
        cases htcp.symm.trans ht'
        exact (renewAfter_lt hul htl).mpr (h _ _ htaken hudp hr htcp hul htl)

/-- **Renewals are in time where the mappings are balanced.**  The runs of the loop in which no mapping
lapses in a wait are those whose passes all meet the condition. -/
theorem renewed_in_time_iff (gateway : Ipv4Addr) (ps : List Pass) (s : Session) :
    Run (Guarded (RenewsInTime gateway) (LeaseStep gateway)) .start ps s ↔
      Run (Guarded (Balanced gateway) (LeaseStep gateway)) .start ps s :=
  Run.guarded_congr (I := fun _ => True) (fun _ _ _ _ _ _ => trivial) (fun _ _ _ => renewsInTime_iff)
    trivial

/-- A reply that grants port 51413 at epoch 900. -/
def lasting (proto : Proto) (seconds : UInt32) : Attempt :=
  .answered ([0, proto.opcode ||| RESPONSE_BIT, 0, 0] ++ beBytes32 900 ++ beBytes 0 ++
    beBytes 51413 ++ beBytes32 seconds)

/-- UDP is granted for a minute and TCP for twenty seconds: the next renewal is half a minute away. -/
theorem renewed_too_late :
    ∃ gateway p, Session.start.stopped = false ∧
      (∃ s wait, leasePass gateway p .start = .ok (s, .mapped 51413, wait) ∧ wait = secs 30) ∧
      grant gateway p.udp .udp = some ⟨51413, secs 60, 900⟩ ∧
      grant gateway p.tcp .tcp = some ⟨51413, secs 20, 900⟩ ∧ ¬ RenewsInTime gateway .start p := by
  refine ⟨⟨10, 2, 0, 1⟩, ⟨⟨lasting .udp 60, .silent, .silent⟩, ⟨lasting .tcp 20, .silent, .silent⟩,
    ⟨.silent, .silent, .silent⟩, true⟩, rfl, ⟨_, _, rfl, by decide +kernel⟩, by decide +kernel,
    by decide +kernel, ?_⟩
  rw [renewsInTime_iff]
  intro h
  have hlt := h ⟨51413, secs 60, 900⟩ ⟨51413, secs 20, 900⟩ rfl (by decide +kernel) rfl
    (by decide +kernel) (by decide) (by decide)
  exact absurd hlt (by decide)

end Tunnel.Portmap
