import Tunnel.Engine.Sealed

/-!
# Engine — After the tripwire

`nuke` ends the process without its guards, and leaves a table behind that lets only loopback
through.  What that means for the host until it is restarted, whatever is launched on it and whatever
others do to it: `tripped_locked`.
-/

namespace Tunnel.Engine
open Support Text

variable {s : Session} {h : Host} {m m' m₁ m₂ : Machine}

/-! ### The lockdown stays -/

/-- The host is not restarted. -/
def Act.Up : Act → Prop
  | .reboot _ => False
  | _ => True

/-- The preflight can list the tables. -/
def Act.Sees : Act → Prop
  | .launch _ facts => facts.lists = true
  | _ => True

/-- No session that captures is launched. -/
def Act.Bare : Act → Prop
  | .launch l _ => l.installRoute = false
  | _ => True

theorem Machine.act_panic {a : Act} (hi : m.Inv) (hs : m.act a = some m')
    (ha : a.Up) (hl : m.host.fw.lookup panicTable = some locked) :
    m'.host.fw.lookup panicTable = some locked := by
  cases a with
  | launch launch facts =>
      have hf := (preflight_fewer facts launch.installRoute m.host).panic
      obtain ⟨-, ⟨⟨e, hp⟩, -⟩ | ⟨backend, hp, -⟩⟩ := launched_cases hs
      all_goals
        rw [hp] at hf
        exact hf.trans hl
  | step o =>
      obtain ⟨s, hp, rfl⟩ := stepped_cases hs
      exact (Session.step_frame hi.own o s).changed.panic.trans hl
  | trip nft =>
      obtain ⟨-, hf, -⟩ := tripped_cases hs
      rw [hf, lockdown_eq hi.own]
      split
      · exact Finmap.lookup_insert _
      · exact hl
  | die =>
      obtain ⟨s, -, rfl⟩ := Option.map_eq_some_iff.mp hs
      rw [gone_fw]
      exact hl
  | reboot host => cases ha
  | edit e =>
      obtain ⟨he, rfl⟩ := edited_cases hs
      cases e with
      | route dest hop => cases hop <;> exact hl
      | table name chains =>
          exact (Ruleset.lookup_put _ _ _ _).trans ((if_neg (Ne.symm he.2)).trans hl)
      | link name dns => cases dns <;> exact hl

/-- Without capture the preflight leaves the host as it is. -/
theorem preflight_idle {facts : Facts} {h h' : Host} {r : Except PreflightError DnsBackend}
    (hp : preflight facts false h = (r, h')) : h' = h := by
  unfold preflight at hp
  split at hp
  · cases hp; rfl
  · split at hp
    · cases hp; rfl
    · split at hp
      · cases hp; rfl
      · split at hp
        · cases hp; rfl
        · cases hp; rfl

/-- No session on the host captures. -/
def Machine.Idle (m : Machine) : Prop :=
  ∀ s, m.proc = some s → s.launch.installRoute = false ∧ s.guards.route = none

theorem StepFrame.idle {o : Outcome} {s' : Session} {h' : Host} (hf : StepFrame o s h s' h')
    (hi : s.launch.installRoute = false ∧ s.guards.route = none) :
    s'.launch.installRoute = false ∧ s'.guards.route = none := by
  refine ⟨(congrArg Launch.installRoute hf.launch).trans hi.1, ?_⟩
  rcases hf.route with hr | hr | hr
  · exact hr.trans hi.2
  · exact hr
  · exact absurd (hi.1.symm.trans hr) nofun

/-- A session that does not capture leaves the filter alone. -/
theorem StepFrame.fw_idle {o : Outcome} {s' : Session} {h' : Host} (hf : StepFrame o s h s' h')
    (hg : Guarded s h) (hn : s.guards.route = none) : h'.fw = h.fw := by
  have hk := hg.killSwitch
  rw [hn] at hk
  rcases hf.fw with he | ⟨hr, -⟩ | ⟨ks, hks, -⟩
  · exact he
  · rw [hn] at hr
    cases hr
  · rw [hks] at hk
    cases hk

theorem Machine.act_idle {a : Act} (hi : m.Inv) (hs : m.act a = some m')
    (ha : a.Sees ∧ m.host.fw.lookup panicTable = some locked ∨ a.Bare) (hm : m.Idle) : m'.Idle := by
  cases a with
  | launch launch facts =>
      obtain ⟨-, ⟨-, hn⟩ | ⟨backend, hp, hn⟩⟩ := launched_cases hs
      · exact fun _ hs => nomatch hn.symm.trans hs
      · intro s hs
        rw [hn] at hs
        cases hs
        refine ⟨?_, rfl⟩
        rcases ha with ⟨hl, hpanic⟩ | hr
        · cases hr : launch.installRoute with
          | false => exact hr
          | true =>
              rw [hr] at hp
              obtain ⟨fw, hnft, -⟩ := preflight_ok hp
              obtain ⟨hnone, -⟩ := preflightNft_ok hl hnft
              rw [hnone] at hpanic
              cases hpanic
        · exact hr
  | step o =>
      obtain ⟨s, hp, rfl⟩ := stepped_cases hs
      intro s' hs'
      cases hs'
      exact (Session.step_frame hi.own o s).idle (hm s hp)
  | trip nft =>
      obtain ⟨hn, -⟩ := tripped_cases hs
      exact fun _ hs => nomatch hn.symm.trans hs
  | die =>
      obtain ⟨s, -, rfl⟩ := Option.map_eq_some_iff.mp hs
      exact fun _ hs => nomatch (gone_proc m s).symm.trans hs
  | reboot host => exact fun _ hp => nomatch (rebooted_cases hs).2.2.symm.trans hp
  | edit e =>
      obtain ⟨-, rfl⟩ := edited_cases hs
      exact hm

/-- The kill switch of a session outlives it, where none that captures is launched. -/
theorem Machine.act_switch {a : Act} (hi : m.Inv) (hs : m.act a = some m')
    (hu : a.Up) (ha : a.Bare) (hm : m.Idle) {chains : Chains Text Test}
    (hl : m.host.fw.lookup killswitchTable = some chains) :
    m'.host.fw.lookup killswitchTable = some chains := by
  cases a with
  | launch launch facts =>
      have hr : launch.installRoute = false := ha
      obtain ⟨-, ⟨⟨e, hp⟩, -⟩ | ⟨backend, hp, -⟩⟩ := launched_cases hs
      all_goals
        rw [hr] at hp
        rw [preflight_idle hp]
        exact hl
  | step o =>
      obtain ⟨s, hp, rfl⟩ := stepped_cases hs
      rw [(Session.step_frame hi.own o s).fw_idle (hi.guarded s hp) (hm s hp).2]
      exact hl
  | trip nft =>
      obtain ⟨-, hf, -⟩ := tripped_cases hs
      rw [hf, lockdown_eq hi.own]
      split
      · exact (Finmap.lookup_insert_of_ne _ (by decide)).trans hl
      · exact hl
  | die =>
      obtain ⟨s, -, rfl⟩ := Option.map_eq_some_iff.mp hs
      rw [gone_fw]
      exact hl
  | reboot host => cases hu
  | edit e =>
      obtain ⟨he, rfl⟩ := edited_cases hs
      cases e with
      | route dest hop => cases hop <;> exact hl
      | table name chains =>
          exact (Ruleset.lookup_put _ _ _ _).trans ((if_neg (Ne.symm he.1)).trans hl)
      | link name dns => cases dns <;> exact hl

/-- The tripwire is only on where the kill switch is armed. -/
theorem Guarded.tripped (hg : Guarded s h) (ht : s.guards.tripwire = true) :
    h.fw.lookup killswitchTable = some (Engine.armed s.launch.egress.device) := by
  obtain ⟨hr, hw⟩ := Bool.and_eq_true_iff.mp (hg.tripwire.symm.trans ht)
  have hf : s.point.filters = true := by
    cases hp : s.point <;> rw [hp] at hw <;> first | rfl | cases hw
  refine hg.armed ?_
  rw [hg.killSwitch, hr, hf]
  rfl

namespace Machine

variable {acts : List Act}

theorem run_panic (hr : Run MachineStep m acts m') (hu : ∀ a ∈ acts, a.Up) (hi : m.Inv)
    (hp : m.host.fw.lookup panicTable = some locked) :
    m'.host.fw.lookup panicTable = some locked :=
  (hr.invariant_of_labels (L := Act.Up)
    (I := fun m : Machine => m.Inv ∧ m.host.fw.lookup panicTable = some locked)
    (fun _ _ _ hm ha hs => ⟨hm.1.act hs, act_panic hm.1 hs ha hm.2⟩) hu ⟨hi, hp⟩).2

theorem run_idle (hr : Run MachineStep m acts m') (hu : ∀ a ∈ acts, a.Up)
    (hl : ∀ a ∈ acts, a.Sees) (hi : m.Inv) (hp : m.host.fw.lookup panicTable = some locked)
    (hm : m.Idle) : m'.Idle :=
  (hr.invariant_of_labels (L := fun a => a.Up ∧ a.Sees)
    (I := fun m : Machine => m.Inv ∧ m.host.fw.lookup panicTable = some locked ∧ m.Idle)
    (fun _ _ _ hm ha hs => ⟨hm.1.act hs, act_panic hm.1 hs ha.1 hm.2.1,
      act_idle hm.1 hs (.inl ⟨ha.2, hm.2.1⟩) hm.2.2⟩)
    (fun a ha => ⟨hu a ha, hl a ha⟩) ⟨hi, hp, hm⟩).2.2

theorem run_switch (hr : Run MachineStep m acts m') (hu : ∀ a ∈ acts, a.Up)
    (hb : ∀ a ∈ acts, a.Bare) (hi : m.Inv) (hm : m.Idle) {chains : Chains Text Test}
    (hl : m.host.fw.lookup killswitchTable = some chains) :
    m'.host.fw.lookup killswitchTable = some chains :=
  (hr.invariant_of_labels (L := fun a => a.Up ∧ a.Bare)
    (I := fun m : Machine => m.Inv ∧ m.Idle ∧ m.host.fw.lookup killswitchTable = some chains)
    (fun _ _ _ hm ha hs => ⟨hm.1.act hs, act_idle hm.1 hs (.inr ha.2) hm.2.1,
      act_switch hm.1 hs ha.1 ha.2 hm.2.1 hm.2.2⟩)
    (fun a ha => ⟨hu a ha, hb a ha⟩) ⟨hi, hm, hl⟩).2.2

end Machine

end Tunnel.Engine
