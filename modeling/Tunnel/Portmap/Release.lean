import Tunnel.Portmap.Restart

/-!
# Portmap — What a lease leaves behind

The end of `lease_loop`, at a shutdown or when the driver is gone: both mappings are released if a port
is held.

* `finish`: the end of the loop.  `LeftBehind`: a mapping that was granted, with no request to delete
  it sent since.
* `Held`: since the epoch last fell, both mappings were granted in one pass.
* `knows_of_run`: the loop holds a port exactly then.
* `none_left_iff`: the runs that leave no mapping behind.
-/

namespace Tunnel.Portmap
open Support Text

/-! ### The end of the loop -/

/-- The request that deletes a mapping: lifetime 0, and no port suggested. -/
def releaseRequest (proto : Proto) : Bytes := buildRequest proto.opcode 0 0 0

/-- Release a mapping.  What comes back is only logged. -/
def release (gateway : Ipv4Addr) (proto : Proto) (o : Outcome) : Exchange :=
  ⟨releaseRequest proto, o.sends, exchange gateway o⟩

/-- `lease_loop` after its passes, with what becomes of the two requests. -/
def finish (gateway : Ipv4Addr) (udp tcp : Outcome) (s : Session) : Session :=
  if s.lease.current.isSome then
    { s with wire := s.wire ++ [release gateway .udp udp, release gateway .tcp tcp] }
  else s

/-- The exchange ended with a mapping granted. -/
def Exchange.Grants (x : Exchange) (proto : Proto) : Prop :=
  x.request ≠ releaseRequest proto ∧ ∃ epoch, x.heard = some (proto, epoch)

/-- A request to delete the mapping was sent. -/
def Exchange.Releases (x : Exchange) (proto : Proto) : Prop :=
  x.request = releaseRequest proto ∧ x.sent = true

/-- After these exchanges a mapping is there that was granted, and no request to delete it was sent
since. -/
def LeftBehind (wire : List Exchange) (proto : Proto) : Prop :=
  ∃ before x after, wire = before ++ x :: after ∧ x.Grants proto ∧ ∀ y ∈ after, ¬ y.Releases proto

/-! ### Held ports -/

/-- The UDP epochs accepted in these passes. -/
def grantedEpochs (gateway : Ipv4Addr) (ps : List Pass) : List UInt32 :=
  ps.filterMap fun p => (grant gateway p.udp .udp).map Mapping.epoch

/-- The pass accepts a UDP epoch below the last one of the passes before. -/
def Fell (gateway : Ipv4Addr) (before : List Pass) (p : Pass) : Prop :=
  ∃ u, grant gateway p.udp .udp = some u ∧
    gatewayRestarted (grantedEpochs gateway before).getLast? u.epoch = true

/-- Since the last pass in which the epoch fell, a pass was granted both mappings. -/
inductive Held (gateway : Ipv4Addr) : List Pass → Prop where
  | granted {before : List Pass} {p : Pass} {u t : Mapping}
      (hudp : grant gateway p.udp .udp = some u) (htcp : grant gateway p.tcp .tcp = some t)
      (hf : ¬ Fell gateway before p) : Held gateway (before ++ [p])
  | kept {before : List Pass} {p : Pass} (h : Held gateway before) (hf : ¬ Fell gateway before p) :
      Held gateway (before ++ [p])

/-- A port is held and the two last requests can be sent, or nothing was granted. -/
def NothingOwed (gateway : Ipv4Addr) (ps : List Pass) (udp tcp : Outcome) : Prop :=
  (Held gateway ps ∧ udp.sends = true ∧ tcp.sends = true) ∨
    ∀ p ∈ ps, grant gateway p.udp .udp = none

variable {gateway : Ipv4Addr} {before ps : List Pass} {p : Pass} {s s' : Session}

theorem not_held_nil : ¬ Held gateway [] := by
  intro h
  generalize hps : ([] : List Pass) = ps at h
  cases h with
  | granted | kept => exact absurd hps (by simp)

theorem held_snoc : Held gateway (before ++ [p]) ↔ ¬ Fell gateway before p ∧
    ((∃ u t, grant gateway p.udp .udp = some u ∧ grant gateway p.tcp .tcp = some t) ∨
      Held gateway before) := by
  constructor
  · intro h
    generalize hps : before ++ [p] = ps at h
    cases h with
    | granted hudp htcp hf =>
        obtain ⟨rfl, hp⟩ := List.append_inj' hps rfl
        cases hp
        exact ⟨hf, .inl ⟨_, _, hudp, htcp⟩⟩
    | kept h hf =>
        obtain ⟨rfl, hp⟩ := List.append_inj' hps rfl
        cases hp
        exact ⟨hf, .inr h⟩
  · rintro ⟨hf, ⟨u, t, hudp, htcp⟩ | h⟩
    · exact .granted hudp htcp hf
    · exact .kept h hf

theorem grantedEpochs_snoc : grantedEpochs gateway (before ++ [p]) =
    grantedEpochs gateway before ++ ((grant gateway p.udp .udp).map Mapping.epoch).toList := by
  rw [grantedEpochs, List.filterMap_append]
  cases h : (grant gateway p.udp .udp).map Mapping.epoch with
  | none => simp [h, grantedEpochs]
  | some e => simp [h, grantedEpochs]

/-- With no UDP reply the epoch does not fall. -/
theorem not_fell_of_none (h : grant gateway p.udp .udp = none) : ¬ Fell gateway before p := by
  rintro ⟨u, hu, -⟩
  cases h.symm.trans hu

theorem fell_iff {u : Mapping} (h : grant gateway p.udp .udp = some u) :
    Fell gateway before p ↔
      gatewayRestarted (grantedEpochs gateway before).getLast? u.epoch = true := by
  constructor
  · rintro ⟨u', hu, hf⟩
    cases h.symm.trans hu
    exact hf
  · exact fun hf => ⟨u, h, hf⟩

/-! ### What the loop knows -/

/-- The lease, and what was heard, after the passes `ps`. -/
structure Knows (gateway : Ipv4Addr) (ps : List Pass) (s : Session) : Prop where
  epoch : s.lease.epoch = (grantedEpochs gateway ps).getLast?
  current : s.lease.current.isSome = true ↔ Held gateway ps
  heard : s.heard = [] ↔ ∀ p ∈ ps, grant gateway p.udp .udp = none
  both : Held gateway ps → ∀ proto, ∃ epoch, (proto, epoch) ∈ s.heard

theorem knows_start : Knows gateway [] .start where
  epoch := rfl
  current := iff_of_false Bool.false_ne_true not_held_nil
  heard := iff_of_true rfl (List.forall_mem_nil _)
  both h := absurd h not_held_nil

theorem Knows.pass (h : Knows gateway before s) (hstep : LeaseStep gateway s p s') :
    Knows gateway (before ++ [p]) s' := by
  obtain ⟨r, lease', new, hend, hlease, hheard⟩ := hstep.spec
  have hall : (∀ q ∈ before ++ [p], grant gateway q.udp .udp = none) ↔
      s.heard = [] ∧ grant gateway p.udp .udp = none := by
    rw [List.forall_mem_append, List.forall_mem_singleton, h.heard]
  constructor
  · rw [hlease, grantedEpochs_snoc]
    cases hend with
    | refused hudp => rw [hudp, Option.map_none, Option.toList_none, List.append_nil, ← h.epoch]
    | restarted hudp | half hudp | renewed hudp => simp [hudp]
  · rw [hlease, held_snoc]
    cases hend with
    | refused hudp =>
        rw [h.current, and_iff_right (not_fell_of_none hudp), or_iff_right]
        rintro ⟨u, t, hu, -⟩
        cases hudp.symm.trans hu
    | restarted hudp hr =>
        rw [h.epoch] at hr
        exact iff_of_false Bool.false_ne_true fun hheld => hheld.1 ((fell_iff hudp).mpr hr)
    | half hudp hr htcp =>
        rw [h.epoch] at hr
        rw [h.current, fell_iff hudp, hr, and_iff_right Bool.false_ne_true, or_iff_right]
        rintro ⟨u, t, -, ht⟩
        cases htcp.symm.trans ht
    | renewed hudp hr htcp =>
        rw [h.epoch] at hr
        rw [fell_iff hudp, hr]
        exact iff_of_true rfl ⟨Bool.false_ne_true, .inl ⟨_, _, hudp, htcp⟩⟩
  · rw [hheard, hall, List.append_eq_nil_iff]
    refine and_congr_right fun _ => ?_
    cases hend with
    | refused hudp => exact iff_of_true rfl hudp
    | restarted hudp | half hudp | renewed hudp => simp [hudp]
  · intro hheld proto
    obtain ⟨hf, hheld⟩ := held_snoc.mp hheld
    rw [hheard]
    rcases hheld with ⟨u, t, hu, ht⟩ | hheld
    · cases hend with
      | refused hudp => cases hu.symm.trans hudp
      | restarted hudp hr =>
          rw [h.epoch] at hr
          exact absurd ((fell_iff hudp).mpr hr) hf
      | half hudp hr htcp => cases ht.symm.trans htcp
      | @renewed u t =>
          cases proto with
          | udp => exact ⟨u.epoch, List.mem_append_right _ (by simp)⟩
          | tcp => exact ⟨t.epoch, List.mem_append_right _ (by simp)⟩
    · obtain ⟨epoch, he⟩ := h.both hheld proto
      exact ⟨epoch, List.mem_append_left _ he⟩

theorem knows_of_run (h : Run (LeaseStep gateway) .start ps s) : Knows gateway ps s := by
  induction ps using List.reverseRecOn generalizing s with
  | nil =>
      cases h
      exact knows_start
  | append_singleton before p ih =>
      obtain ⟨s₁, h₁, h₂⟩ := h.split
      cases h₂ with
      | more hstep hend =>
          cases hend
          exact (ih h₁).pass hstep

/-! ### Requests -/

/-- No request of a pass asks for a deletion. -/
def NoReleases (wire : List Exchange) : Prop :=
  ∀ x ∈ wire, ∀ proto, x.request ≠ releaseRequest proto

theorem NoReleases.append {xs ys : List Exchange} (hx : NoReleases xs) (hy : NoReleases ys) :
    NoReleases (xs ++ ys) := by
  intro x h
  rcases List.mem_append.mp h with h | h
  · exact hx x h
  · exact hy x h

/-- A request for a minute is not one for nothing. -/
theorem request_ne (proto proto' : Proto) (suggested : UInt16) :
    buildRequest proto.opcode 0 suggested (UInt32.ofNat (LIFETIME / secs 1)) ≠
      releaseRequest proto' := by
  intro h
  have hlast : (buildRequest proto.opcode 0 suggested (UInt32.ofNat (LIFETIME / secs 1))).getD 11 0 =
      60 := rfl
  have hzero : (releaseRequest proto').getD 11 0 = 0 := rfl
  rw [h, hzero] at hlast
  cases hlast

theorem yields_map (gateway : Ipv4Addr) (proto : Proto) (suggested : UInt16) (o : Outcome) :
    Yields (fun r => ∀ proto', r.2.request ≠ releaseRequest proto')
      (map gateway proto suggested LIFETIME o) := by
  rw [map]
  cases exchange gateway o with
  | error e => exact .ok fun proto' => request_ne proto proto' suggested
  | ok buf => exact .bind_any fun r => .ok fun proto' => request_ne proto proto' suggested

/-- A request for the address is of another kind. -/
theorem yields_externalAddress (gateway : Ipv4Addr) (o : Outcome) :
    Yields (fun r => ∀ proto, r.2.request ≠ releaseRequest proto) (externalAddress gateway o) := by
  have hne : ∀ proto, buildRequest OP_EXTERNAL 0 0 0 ≠ releaseRequest proto := by
    rintro (_ | _) <;> decide
  rw [externalAddress]
  cases exchange gateway o with
  | error e => exact .ok hne
  | ok buf => exact .bind_any fun r => .ok hne

theorem yields_renew (gateway : Ipv4Addr) (p : Pass) (lease : Lease) :
    Yields (fun r => NoReleases r.2.2) (renew gateway p lease) := by
  have hone : ∀ {x : Exchange}, (∀ proto, x.request ≠ releaseRequest proto) → NoReleases [x] := by
    intro x hx y hy
    rw [List.mem_singleton.mp hy]
    exact hx
  rw [renew]
  refine (yields_map gateway .udp _ p.udp).bind ?_
  rintro ⟨ru, x⟩ hx
  cases ru with
  | error e => exact .ok (hone hx)
  | ok u =>
      refine .ite (fun _ => .ok (hone hx)) fun _ => ?_
      refine (yields_map gateway .tcp _ p.tcp).bind ?_
      rintro ⟨rt, y⟩ hy
      cases rt with
      | error e => exact .ok ((hone hx).append (hone hy))
      | ok t => exact .ok ((hone hx).append (hone hy))

theorem yields_leasePass (gateway : Ipv4Addr) (p : Pass) (hs : NoReleases s.wire) :
    Yields (fun r => NoReleases r.1.wire) (leasePass gateway p s) := by
  rw [leasePass]
  refine (yields_renew gateway p s.lease).bind ?_
  rintro ⟨r, lease, asked⟩ hasked
  have hs' := hs.append hasked
  cases r with
  | error reason => exact .ok hs'
  | ok m =>
      have haddress : Yields NoReleases
          ((fun r => [r.2]) <$> externalAddress gateway p.address) := by
        refine (yields_externalAddress gateway p.address).bind fun r hr => .ok fun y hy => ?_
        rw [List.mem_singleton.mp hy]
        exact hr
      refine .ite (fun _ => .ok ?_) fun _ => haddress.bind fun asked' hasked' => ?_
      · exact hs'.append fun _ hx => absurd hx List.not_mem_nil
      · exact .ok (hs'.append hasked')

theorem noReleases_of_run (h : Run (LeaseStep gateway) .start ps s) : NoReleases s.wire := by
  refine h.invariant (I := fun s => NoReleases s.wire) (fun s p s' hs hstep => ?_)
    (by simp [NoReleases, Session.start])
  obtain ⟨-, event, wait, hp⟩ := hstep
  exact yields_leasePass gateway p hs _ hp

/-- What grants a mapping was not asked to delete one. -/
theorem Exchange.Grants.request_ne {x : Exchange} {proto : Proto} (h : x.Grants proto) (q : Proto) :
    x.request ≠ releaseRequest q := by
  obtain ⟨hne, epoch, hx⟩ := h
  intro hq
  rw [Exchange.heard, hq, releaseRequest, protoOf_buildRequest] at hx
  cases hr : x.reply with
  | error e =>
      rw [hr] at hx
      cases hx
  | ok buf =>
      rw [hr] at hx
      obtain ⟨m, -, hm⟩ := Option.map_eq_some_iff.mp hx
      cases hm
      exact hne hq

/-- What was granted is left behind by exchanges that do not delete it. -/
theorem leftBehind_of_heard {wire more : List Exchange} {proto : Proto} {epoch : UInt32}
    (hno : NoReleases wire) (hheard : (proto, epoch) ∈ wire.filterMap Exchange.heard)
    (hmore : ∀ y ∈ more, ¬ y.Releases proto) : LeftBehind (wire ++ more) proto := by
  obtain ⟨x, hx, hxe⟩ := List.mem_filterMap.mp hheard
  obtain ⟨before, after, rfl⟩ := List.append_of_mem hx
  refine ⟨before, x, after ++ more, by simp, ⟨hno x hx proto, epoch, hxe⟩, fun y hy => ?_⟩
  rcases List.mem_append.mp hy with hy | hy
  · exact fun hr => hno y (by simp [hy]) proto hr.1
  · exact hmore y hy

/-- Nothing is left behind by a deletion that no grant follows. -/
theorem not_leftBehind {wire more : List Exchange} {proto : Proto} {y : Exchange} (hy : y ∈ more)
    (hr : y.Releases proto) (hno : ∀ x ∈ more, ¬ x.Grants proto) :
    ¬ LeftBehind (wire ++ more) proto := by
  rintro ⟨before, x, after, hw, hx, hafter⟩
  have hout : x ∉ more := fun hmem => hno x hmem hx
  rcases List.append_eq_append_iff.mp hw with ⟨middle, -, hmiddle⟩ | ⟨middle, -, hmiddle⟩
  · exact hout (hmiddle ▸ by simp)
  · cases middle with
    | nil =>
        rw [List.nil_append] at hmiddle
        exact hout (hmiddle ▸ List.mem_cons_self)
    | cons z middle =>
        obtain ⟨-, rfl⟩ := List.cons.inj hmiddle
        exact hafter y (List.mem_append_right _ hy) hr

/-- Of what was granted nothing is left behind exactly where a deletion comes after it. -/
theorem not_leftBehind_iff {wire more : List Exchange} {proto : Proto} {epoch : UInt32}
    (hno : NoReleases wire) (hheard : (proto, epoch) ∈ wire.filterMap Exchange.heard)
    (hmore : ∀ x ∈ more, ¬ x.Grants proto) :
    ¬ LeftBehind (wire ++ more) proto ↔ ∃ y ∈ more, y.Releases proto := by
  constructor
  · intro h
    by_contra hn
    exact h (leftBehind_of_heard hno hheard fun y hy hr => hn ⟨y, hy, hr⟩)
  · rintro ⟨y, hy, hr⟩
    exact not_leftBehind hy hr hmore

/-! ### The law -/

variable {udp tcp : Outcome}

/-- A release deletes its mapping where it is sent. -/
theorem releases_release {proto proto' : Proto} {o : Outcome} :
    (release gateway proto o).Releases proto' ↔ proto = proto' ∧ o.sends = true := by
  refine and_congr_left fun _ => ?_
  change releaseRequest proto = releaseRequest proto' ↔ proto = proto'
  cases proto <;> cases proto' <;> decide

/-- The two last requests delete both mappings where both are sent. -/
theorem forall_releases : (∀ proto,
    ∃ y ∈ [release gateway .udp udp, release gateway .tcp tcp], y.Releases proto) ↔
      udp.sends = true ∧ tcp.sends = true := by
  constructor
  · intro h
    exact ⟨by simpa [releases_release] using h .udp, by simpa [releases_release] using h .tcp⟩
  · rintro ⟨hudp, htcp⟩ proto
    cases proto with
    | udp => exact ⟨_, List.mem_cons_self, releases_release.mpr ⟨rfl, hudp⟩⟩
    | tcp =>
        exact ⟨_, List.mem_cons_of_mem _ (List.mem_singleton_self _),
          releases_release.mpr ⟨rfl, htcp⟩⟩

/-- The two last requests ask for no mapping. -/
theorem not_grants_release {x : Exchange}
    (hx : x ∈ [release gateway .udp udp, release gateway .tcp tcp]) (proto : Proto) :
    ¬ x.Grants proto := by
  intro hg
  rcases List.mem_pair.mp hx with rfl | rfl
  · exact hg.request_ne .udp rfl
  · exact hg.request_ne .tcp rfl

/-- **A mapping is released where a port is held.**  Of a run of the loop that ends, no mapping is left
behind exactly when since the last fall of the epoch both were granted in one pass and both of the last
requests are sent, or none was granted at all. -/
theorem none_left_iff (h : Run (LeaseStep gateway) .start ps s) (udp tcp : Outcome) :
    (∀ proto, ¬ LeftBehind (finish gateway udp tcp s).wire proto) ↔
      NothingOwed gateway ps udp tcp := by
  have hk := knows_of_run h
  have hno := noReleases_of_run h
  rw [NothingOwed, ← hk.heard, finish]
  by_cases hc : s.lease.current.isSome = true
  · -- both mappings were granted, so each is left unless its release is sent
    have hheld := hk.current.mp hc
    have hheard : s.heard ≠ [] := by
      obtain ⟨epoch, he⟩ := hk.both hheld .udp
      exact List.ne_nil_of_mem he
    rw [if_pos hc, or_iff_left hheard, and_iff_right hheld, ← @forall_releases gateway]
    refine forall_congr' fun proto => ?_
    obtain ⟨epoch, he⟩ := hk.both hheld proto
    exact not_leftBehind_iff hno he fun x hx => not_grants_release hx proto
  · rw [if_neg hc, or_iff_right fun hheld => hc (hk.current.mpr hheld.1)]
    constructor
    · -- no release is sent, so what was granted stays
      intro hall
      by_contra hne
      obtain ⟨⟨proto, epoch⟩, hheard⟩ := List.exists_mem_of_ne_nil _ hne
      refine hall proto ?_
      rw [← List.append_nil s.wire]
      exact leftBehind_of_heard hno hheard nofun
    · rintro hnil proto ⟨before, x, after, hw, ⟨-, epoch, hx⟩, -⟩
      have hmem : (proto, epoch) ∈ s.heard :=
        List.mem_filterMap.mpr ⟨x, hw ▸ by simp, hx⟩
      rw [hnil] at hmem
      cases hmem

/-- A pass that is granted both mappings, at the first request each. -/
def fullPass : Pass :=
  ⟨⟨granting .udp 900, .silent, .silent⟩, ⟨granting .tcp 900, .silent, .silent⟩,
    ⟨.silent, .silent, .silent⟩, true⟩

/-- The loop ends after such a pass.  The releases are sent, at the second attempt and unanswered, and
nothing stays. -/
theorem none_left_full : ∃ s, Run (LeaseStep ⟨10, 2, 0, 1⟩) .start [fullPass] s ∧
    ∀ proto, ¬ LeftBehind (finish ⟨10, 2, 0, 1⟩ ⟨.noTimeout, .silent, .silent⟩
      ⟨.noTimeout, .silent, .silent⟩ s).wire proto := by
  obtain ⟨s, event, wait, hp⟩ : ∃ s event wait,
      leasePass ⟨10, 2, 0, 1⟩ fullPass .start = .ok (s, event, wait) := ⟨_, _, _, rfl⟩
  have hrun : Run (LeaseStep ⟨10, 2, 0, 1⟩) .start [fullPass] s := .one ⟨rfl, event, wait, hp⟩
  have hudp : grant ⟨10, 2, 0, 1⟩ fullPass.udp .udp = some ⟨51413, secs 60, 900⟩ := by
    decide +kernel
  have htcp : grant ⟨10, 2, 0, 1⟩ fullPass.tcp .tcp = some ⟨51413, secs 60, 900⟩ := by
    decide +kernel
  have hheld : Held ⟨10, 2, 0, 1⟩ ([] ++ [fullPass]) :=
    .granted hudp htcp ((fell_iff hudp).not.mpr Bool.false_ne_true)
  exact ⟨s, hrun, (none_left_iff hrun _ _).mpr (.inl ⟨hheld, rfl, rfl⟩)⟩

/-- UDP is granted in the first pass and TCP does not answer. -/
def halfPass : Pass :=
  ⟨⟨granting .udp 900, .silent, .silent⟩, ⟨.silent, .silent, .silent⟩, ⟨.silent, .silent, .silent⟩,
    true⟩

/-- The loop ends after such a pass, and the UDP mapping stays. -/
theorem mapping_left :
    ∃ s, Run (LeaseStep ⟨10, 2, 0, 1⟩) .start [halfPass] s ∧
      grant ⟨10, 2, 0, 1⟩ halfPass.udp .udp = some ⟨51413, secs 60, 900⟩ ∧
      ∀ udp tcp, LeftBehind (finish ⟨10, 2, 0, 1⟩ udp tcp s).wire .udp := by
  obtain ⟨s, event, wait, hp, hc, x, y, hw, hx⟩ : ∃ s event wait,
      leasePass ⟨10, 2, 0, 1⟩ halfPass .start = .ok (s, event, wait) ∧
        s.lease.current.isSome = false ∧
        ∃ x y, s.wire = [x, y] ∧ x.heard = some (.udp, 900) :=
    ⟨_, _, _, rfl, rfl, _, _, rfl, by decide +kernel⟩
  have hrun : Run (LeaseStep ⟨10, 2, 0, 1⟩) .start [halfPass] s := .one ⟨rfl, event, wait, hp⟩
  have hno := noReleases_of_run hrun
  refine ⟨s, hrun, by decide +kernel, fun udp tcp => ?_⟩
  rw [finish, hc, if_neg Bool.false_ne_true, ← List.append_nil s.wire]
  exact leftBehind_of_heard hno (List.mem_filterMap.mpr ⟨x, hw ▸ by simp, hx⟩) nofun

end Tunnel.Portmap
