import Tunnel.Engine.Sealed

/-!
# Engine — The host is restored

A session beside its host as that would be had it not been launched: only what others do is done to
the latter.  Where the operations that undo succeed, the two are the same once the session is over,
however far its bring-up got and whatever failed on the way, but for what an earlier run had left.

* `Cleared`: less of what an earlier run left.
* `RouteShadow`, `NetShadow`, `FwShadow`: how the two differ while the session holds its guards.
* `session_restored`: they do not in the end.
-/

namespace Tunnel.Engine
open Support Text Route

/-! ### Routes -/

section
variable {outcomes : Route.Outcomes} {os os' : Os} {iface : Text}

/-- A route is added, or refused. -/
theorem run_add_cases (outcomes : Route.Outcomes) (os : Os) (dest : Prefix) (hop : Hop) :
    run outcomes os (.add dest hop) = (false, { os with ran := os.ran + 1 }) ∨
      os.routes.lookup dest = none ∧
        run outcomes os (.add dest hop) = (true, ⟨os.routes.insert dest hop, os.ran + 1⟩) := by
  by_cases h : outcomes os.ran ∧ os.routes.lookup dest = none
  · exact .inr ⟨h.2, if_pos h⟩
  · exact .inl (if_neg h)

/-- All that has changed is that some of the destinations are routed to the interface. -/
def Taken (iface : Text) (dests : List Prefix) (t t' : Table Prefix Hop) : Prop :=
  ∀ d, t'.lookup d = t.lookup d ∨
    d ∈ dests ∧ t.lookup d = none ∧ ∃ hop, t'.lookup d = some hop ∧ hop.iface = iface

theorem Taken.refl {dests : List Prefix} {t : Table Prefix Hop} : Taken iface dests t t :=
  fun _ => .inl rfl

theorem Taken.trans {dests : List Prefix} {t t₁ t₂ : Table Prefix Hop}
    (h₁ : Taken iface dests t t₁) (h₂ : Taken iface dests t₁ t₂) : Taken iface dests t t₂ := by
  intro d
  rcases h₂ d with he | ⟨hd, hn, hop, hh, hi⟩
  · rcases h₁ d with he' | ⟨hd, hn, hop, hh, hi⟩
    · exact .inl (he.trans he')
    · exact .inr ⟨hd, hn, hop, he.trans hh, hi⟩
  · rcases h₁ d with he' | ⟨-, -, hop', hh', -⟩
    · exact .inr ⟨hd, he' ▸ hn, hop, hh, hi⟩
    · rw [hn] at hh'
      cases hh'

theorem Taken.insert {dests : List Prefix} {t : Table Prefix Hop} {dest : Prefix} {gateway : Text}
    (hd : dest ∈ dests) (hn : t.lookup dest = none) :
    Taken iface dests t (t.insert dest ⟨gateway, iface⟩) := by
  intro d
  rw [Finmap.lookup_insert_eq]
  split
  · next he => exact .inr ⟨he ▸ hd, he ▸ hn, _, rfl, rfl⟩
  · exact .inl rfl

def halves : List Prefix := [lowerHalf, upperHalf]

/-- Both halves are taken, or one of them, or none. -/
theorem addDefaultViaTun_taken (gw : Ipv4Addr) {b : Bool}
    (h : addDefaultViaTun outcomes os gw iface = (b, os')) :
    Taken iface halves os.routes os'.routes ∧
      (b = true → os.routes.lookup lowerHalf = none ∧ os.routes.lookup upperHalf = none) := by
  unfold addDefaultViaTun at h
  rcases run_add_cases outcomes os lowerHalf ⟨gw.display, iface⟩ with hl | ⟨hnl, hl⟩
  · rw [hl] at h
    cases h
    exact ⟨.refl, nofun⟩
  · have hlower : Taken iface halves os.routes (os.routes.insert lowerHalf ⟨gw.display, iface⟩) :=
      .insert (by simp [halves]) hnl
    rw [hl] at h
    simp only at h
    rcases run_add_cases outcomes ⟨os.routes.insert lowerHalf ⟨gw.display, iface⟩, os.ran + 1⟩
        upperHalf ⟨gw.display, iface⟩ with hu | ⟨hnu, hu⟩
    · rw [hu] at h
      cases h
      exact ⟨hlower, nofun⟩
    · rw [hu] at h
      cases h
      have hne : upperHalf ≠ lowerHalf := by decide
      refine ⟨hlower.trans (.insert (by simp [halves]) hnu), fun _ => ⟨hnl, ?_⟩⟩
      rw [Finmap.lookup_insert_eq, if_neg hne] at hnu
      exact hnu

theorem install_taken {tunIp gw : Ipv4Addr} {origGateway origIface : Text}
    {r : Except Text FullTunnel}
    (h : FullTunnel.install outcomes unixIfaceId (.v4 ⟨127, 0, 0, 1⟩) iface tunIp gw origGateway
      origIface os = (r, os')) :
    Taken iface halves os.routes os'.routes ∧
      ∀ ft, r = .ok ft → ft.serverIp = .v4 ⟨127, 0, 0, 1⟩ ∧
        os.routes.lookup lowerHalf = none ∧ os.routes.lookup upperHalf = none := by
  simp only [FullTunnel.install, unixIfaceId, FullTunnel.apply,
    show isLoopbackOrUnspecified (.v4 ⟨127, 0, 0, 1⟩) = true from rfl, if_true, Bool.not_true,
    Bool.false_eq_true, if_false] at h
  cases ha : addDefaultViaTun outcomes os gw iface with
  | mk b os₁ =>
      obtain ⟨ht, hn⟩ := addDefaultViaTun_taken gw ha
      rw [ha] at h
      cases b with
      | false =>
          cases h
          exact ⟨ht, nofun⟩
      | true =>
          cases h
          exact ⟨ht, fun ft hft => by cases hft; exact ⟨rfl, hn rfl⟩⟩

/-- A route is deleted, or stays. -/
theorem run_delete (outcomes : Route.Outcomes) (os : Os) (dest d : Prefix) :
    (run outcomes os (.delete dest)).2.routes.lookup d = os.routes.lookup d ∨
      d = dest ∧ (run outcomes os (.delete dest)).2.routes.lookup d = none := by
  simp only [run]
  split
  · rw [Finmap.lookup_erase_eq]
    split
    · next h => exact .inr ⟨h, rfl⟩
    · exact .inl rfl
  · exact .inl rfl

theorem drop_routes {ft : FullTunnel} (hs : ft.serverIp = .v4 ⟨127, 0, 0, 1⟩) (os : Os) (d : Prefix) :
    (ft.drop outcomes os).routes.lookup d = os.routes.lookup d ∨
      d ∈ halves ∧ (ft.drop outcomes os).routes.lookup d = none := by
  unfold FullTunnel.drop FullTunnel.teardown
  split
  · exact .inl rfl
  · rw [hs]
    change (removeDefaultViaTun outcomes os).routes.lookup d = _ ∨ _ ∧
      (removeDefaultViaTun outcomes os).routes.lookup d = none
    unfold removeDefaultViaTun
    rcases run_delete outcomes (run outcomes os (.delete lowerHalf)).2 upperHalf d with hu | ⟨rfl, hu⟩
    · rcases run_delete outcomes os lowerHalf d with hl | ⟨rfl, hl⟩
      · exact .inl (hu.trans hl)
      · exact .inr ⟨by simp [halves], hu.trans hl⟩
    · exact .inr ⟨by simp [halves], hu⟩

end

/-! ### What an earlier run left -/

/-- `h'` is `h` less some of what an earlier run left on it: routes over its TUN, the TUN, and the
tables that it takes away again. -/
structure Cleared (h h' : Host) : Prop where
  routes : ∀ d, h'.os.routes.lookup d = h.os.routes.lookup d ∨
    h'.os.routes.lookup d = none ∧ ∃ hop, h.os.routes.lookup d = some hop ∧ hop.iface = ifaceName
  conf : h'.net.conf = h.net.conf
  links : ∀ l, h'.net.links.lookup l = h.net.links.lookup l ∨
    h'.net.links.lookup l = none ∧ l = ifaceName
  fw : Fewer h.fw h'.fw

/-- Nothing of an earlier run is left on a host. -/
structure Clean (h : Host) : Prop where
  routes : ∀ d hop, h.os.routes.lookup d = some hop → hop.iface ≠ ifaceName
  links : h.net.links.lookup ifaceName = none
  fw : ∀ t ∈ passing, h.fw.lookup t = none

namespace Cleared

variable {h h' h₁ h₂ : Host}

theorem refl : Cleared h h := ⟨fun _ => .inl rfl, rfl, fun _ => .inl rfl, .refl⟩

theorem trans (hc₁ : Cleared h h₁) (hc₂ : Cleared h₁ h₂) : Cleared h h₂ where
  routes d := by
    rcases hc₂.routes d with he | ⟨hn, hop, hh, hi⟩
    · exact he ▸ hc₁.routes d
    · rcases hc₁.routes d with he | ⟨hn', -⟩
      · exact .inr ⟨hn, hop, he ▸ hh, hi⟩
      · rw [hn'] at hh
        cases hh
  conf := hc₂.conf.trans hc₁.conf
  links l := by
    rcases hc₂.links l with he | hn
    · exact he ▸ hc₁.links l
    · exact .inr hn
  fw := hc₁.fw.trans hc₂.fw

theorem deleteLink (h : Host) : Cleared h (h.deleteLink ifaceName) where
  routes d := by
    simp only [Host.deleteLink, Finmap.lookup_retain]
    cases hl : h.os.routes.lookup d with
    | none => exact .inl rfl
    | some hop =>
        by_cases hi : hop.iface = ifaceName
        · exact .inr ⟨Option.filter_some_neg (by simp [hi]), hop, rfl, hi⟩
        · exact .inl (Option.filter_some_pos (decide_eq_true hi))
  conf := rfl
  links l := by
    simp only [Host.deleteLink, Finmap.lookup_erase_eq]
    split
    · next hl => exact .inr ⟨rfl, hl⟩
    · exact .inl rfl
  fw := .refl

theorem of_fw {h : Host} {fw : Firewall} (hf : Fewer h.fw fw) : Cleared h { h with fw } :=
  ⟨fun _ => .inl rfl, rfl, fun _ => .inl rfl, hf⟩

/-- All that the preflight does to a host it does to the filter. -/
theorem preflight (facts : Facts) (capture : Bool) (h : Host) :
    Cleared h (preflight facts capture h).2 := by
  have hf := preflight_fewer facts capture h
  have hh : (Engine.preflight facts capture h).2 =
      { h with fw := (Engine.preflight facts capture h).2.fw } := by
    unfold Engine.preflight
    rcases facts.tunClosed with _ | e <;> rcases preflightNft facts h.fw with ⟨_ | _, fw⟩ <;>
      split_ifs <;> rfl
  rw [hh]
  exact of_fw hf

/-- What others do to both keeps them as far apart. -/
theorem edit (hc : Cleared h h') (e : Edit) : Cleared (e.apply h) (e.apply h') := by
  cases e with
  | route dest hop =>
      cases hop with
      | none =>
          refine ⟨fun d => ?_, hc.conf, hc.links, hc.fw⟩
          simp only [Edit.apply, Finmap.lookup_erase_eq]
          split
          · exact .inl rfl
          · exact hc.routes d
      | some hop =>
          refine ⟨fun d => ?_, hc.conf, hc.links, hc.fw⟩
          simp only [Edit.apply, Finmap.lookup_insert_eq]
          split
          · exact .inl rfl
          · exact hc.routes d
  | table name chains =>
      refine ⟨hc.routes, hc.conf, hc.links, fun t => ?_⟩
      simp only [Edit.apply, Ruleset.lookup_put]
      split
      · exact .inl rfl
      · exact hc.fw t
  | link name dns =>
      cases dns with
      | none =>
          refine ⟨hc.routes, hc.conf, fun l => ?_, hc.fw⟩
          simp only [Edit.apply, Finmap.lookup_erase_eq]
          split
          · exact .inl rfl
          · exact hc.links l
      | some dns =>
          refine ⟨hc.routes, hc.conf, fun l => ?_, hc.fw⟩
          simp only [Edit.apply, Finmap.lookup_insert_eq]
          split
          · exact .inl rfl
          · exact hc.links l

/-- Where there is nothing of an earlier run, nothing is less. -/
theorem eq_of_clean (hc : Cleared h h') (hn : Clean h) :
    h'.os.routes = h.os.routes ∧ h'.net.conf = h.net.conf ∧ h'.net.links = h.net.links ∧
      h'.fw = h.fw := by
  refine ⟨Finmap.ext_lookup fun d => ?_, hc.conf, Finmap.ext_lookup fun l => ?_,
    Finmap.ext_lookup fun t => ?_⟩
  · rcases hc.routes d with he | ⟨-, hop, hh, hi⟩
    · exact he
    · exact absurd hi (hn.routes d hop hh)
  · rcases hc.links l with he | ⟨he, rfl⟩
    · exact he
    · rw [he, hn.links]
  · rcases hc.fw t with he | ⟨he, ht⟩
    · exact he
    · rw [he, hn.fw t ht]

end Cleared

/-! ### How the two hosts differ -/

/-- While the TUN is up, the halves may be routed over it; nothing else is, in the host without the
session. -/
structure RouteShadow (up : Bool) (route : Option FullTunnel) (t t' : Table Prefix Hop) : Prop where
  taken : Taken ifaceName halves t t'
  down : up = false → t' = t
  clear : up = true → ∀ d hop, t.lookup d = some hop → hop.iface ≠ ifaceName
  ours : ∀ ft, route = some ft → ft.serverIp = .v4 ⟨127, 0, 0, 1⟩ ∧
    t.lookup lowerHalf = none ∧ t.lookup upperHalf = none

/-- What the guard puts back is what there would be. -/
def ConfShadow (conf conf' : Conf) : Option Dns → Prop
  | none => conf' = conf
  | some dns => dns.Keeps ifaceName conf conf'

structure NetShadow (up : Bool) (dns : Option Dns) (net net' : Net) : Prop where
  conf : ConfShadow net.conf net'.conf dns
  links : ∀ l, l ≠ ifaceName → net'.links.lookup l = net.links.lookup l
  down : up = false → net'.links.lookup ifaceName = net.links.lookup ifaceName
  clear : up = true → net.links.lookup ifaceName = none

structure FwShadow (killSwitch : Option KillSwitch) (fw fw' : Firewall) : Prop where
  others : ∀ t, t ≠ killswitchTable → fw'.lookup t = fw.lookup t
  off : killSwitch = none → fw'.lookup killswitchTable = fw.lookup killswitchTable
  ours : ∀ ks, killSwitch = some ks → ks.installed = true ∧ fw.lookup killswitchTable = none

/-- `h` is what the host of the session would be without it. -/
structure Shadow (s : Session) (h h' : Host) : Prop where
  routes : RouteShadow s.hasTun s.guards.route h.os.routes h'.os.routes
  net : NetShadow s.hasTun s.guards.dns h.net h'.net
  fw : FwShadow s.guards.killSwitch h.fw h'.fw

/-- The operations of the step that undo succeed. -/
structure Outcome.Undoes (o : Outcome) (point : Point) : Prop where
  files : ∀ i, o.undo i = .none
  nft : point = .dropKillSwitch → o.nft.fault = none

/-- The routes and the link that the session takes are left to it. -/
def Edit.Apart : Edit → Prop
  | .route dest hop => dest ∉ halves ∧ ∀ h, hop = some h → h.iface ≠ ifaceName
  | _ => True

namespace RouteShadow

variable {up : Bool} {route : Option FullTunnel} {t t' t'' : Table Prefix Hop}

theorem insert (h : RouteShadow up route t t') {dest : Prefix} {hop : Hop} (hd : dest ∉ halves)
    (hi : hop.iface ≠ ifaceName) : RouteShadow up route (t.insert dest hop) (t'.insert dest hop) where
  taken d := by
    simp only [Finmap.lookup_insert_eq]
    split
    · exact .inl rfl
    · exact h.taken d
  down hu := by rw [h.down hu]
  clear hu d hop' hl := by
    rw [Finmap.lookup_insert_eq] at hl
    split at hl
    · cases hl; exact hi
    · exact h.clear hu d hop' hl
  ours ft hf := by
    obtain ⟨hs, hl, hu⟩ := h.ours ft hf
    simp only [halves, List.mem_cons, List.not_mem_nil, or_false, not_or] at hd
    simp only [Finmap.lookup_insert_eq, if_neg (Ne.symm hd.1), if_neg (Ne.symm hd.2)]
    exact ⟨hs, hl, hu⟩

theorem erase (h : RouteShadow up route t t') (dest : Prefix) :
    RouteShadow up route (t.erase dest) (t'.erase dest) where
  taken d := by
    simp only [Finmap.lookup_erase_eq]
    split
    · exact .inl rfl
    · exact h.taken d
  down hu := by rw [h.down hu]
  clear hu d hop hl := by
    rw [Finmap.lookup_erase_eq] at hl
    split at hl
    · cases hl
    · exact h.clear hu d hop hl
  ours ft hf := by
    obtain ⟨hs, hl, hu⟩ := h.ours ft hf
    simp only [Finmap.lookup_erase_eq, hl, hu, ite_self, and_self, and_true]
    exact hs

theorem create (up : Bool) (h : RouteShadow false none t t') :
    RouteShadow up none (t.retain fun _ hop => hop.iface ≠ ifaceName)
      (t'.retain fun _ hop => hop.iface ≠ ifaceName) where
  taken := h.down rfl ▸ .refl
  down _ := by rw [h.down rfl]
  clear _ d hop hl := by
    rw [Finmap.lookup_retain, Option.filter_eq_some_iff] at hl
    exact of_decide_eq_true hl.2
  ours _ hf := nomatch hf

theorem install (h : RouteShadow true none t t') (ht : Taken ifaceName halves t' t'')
    {route : Option FullTunnel}
    (hr : ∀ ft, route = some ft → ft.serverIp = .v4 ⟨127, 0, 0, 1⟩ ∧
      t'.lookup lowerHalf = none ∧ t'.lookup upperHalf = none) : RouteShadow true route t t'' := by
  have hnone : ∀ d, t'.lookup d = none → t.lookup d = none := by
    intro d hd
    rcases h.taken d with he | ⟨-, hn, -⟩
    · exact he ▸ hd
    · exact hn
  exact ⟨h.taken.trans ht, nofun, h.clear, fun ft hf =>
    let ⟨hs, hl, hu⟩ := hr ft hf
    ⟨hs, hnone _ hl, hnone _ hu⟩⟩

theorem drop {ft : FullTunnel} (h : RouteShadow true (some ft) t t')
    (hd : ∀ d, t''.lookup d = t'.lookup d ∨ d ∈ halves ∧ t''.lookup d = none) :
    RouteShadow true none t t'' where
  taken d := by
    rcases hd d with he | ⟨hm, hn⟩
    · rw [he]
      exact h.taken d
    · obtain ⟨-, hl, hu⟩ := h.ours ft rfl
      simp only [halves, List.mem_cons, List.not_mem_nil, or_false] at hm
      rcases hm with rfl | rfl
      · exact .inl (hn.trans hl.symm)
      · exact .inl (hn.trans hu.symm)
  down := nofun
  clear := h.clear
  ours _ hf := nomatch hf

theorem remove (h : RouteShadow true none t t') :
    RouteShadow false none t (t'.retain fun _ hop => hop.iface ≠ ifaceName) := by
  have heq : (t'.retain fun _ hop => hop.iface ≠ ifaceName) = t := by
    refine Finmap.ext_lookup fun d => ?_
    rw [Finmap.lookup_retain]
    rcases h.taken d with he | ⟨-, hn, hop, hh, hi⟩
    · rw [he]
      cases hl : t.lookup d with
      | none => rfl
      | some hop => exact Option.filter_some_pos (decide_eq_true (h.clear rfl d hop hl))
    · rw [hh, hn]
      exact Option.filter_some_neg (by simp [hi])
  exact heq ▸ ⟨.refl, fun _ => rfl, nofun, nofun⟩

end RouteShadow

namespace NetShadow

variable {up : Bool} {dns : Option Dns} {net net' : Net}

theorem insert (h : NetShadow up dns net net') {name : Text} (hn : name ≠ ifaceName)
    (set : LinkDns) :
    NetShadow up dns { net with links := net.links.insert name set }
      { net' with links := net'.links.insert name set } where
  conf := h.conf
  links l hl := by
    simp only [Finmap.lookup_insert_eq]
    split
    · rfl
    · exact h.links l hl
  down hu := by
    simp only [Finmap.lookup_insert_eq, if_neg (Ne.symm hn)]
    exact h.down hu
  clear hu := by
    simp only [Finmap.lookup_insert_eq, if_neg (Ne.symm hn)]
    exact h.clear hu

theorem erase (h : NetShadow up dns net net') {name : Text} (hn : name ≠ ifaceName) :
    NetShadow up dns { net with links := net.links.erase name }
      { net' with links := net'.links.erase name } where
  conf := h.conf
  links l hl := by
    simp only [Finmap.lookup_erase_eq]
    split
    · rfl
    · exact h.links l hl
  down hu := by
    simp only [Finmap.lookup_erase_eq, if_neg (Ne.symm hn)]
    exact h.down hu
  clear hu := by
    simp only [Finmap.lookup_erase_eq, if_neg (Ne.symm hn)]
    exact h.clear hu

/-- The link is there on both sides or on neither, and goes on both. -/
theorem delete (h : NetShadow false none net net') :
    NetShadow false none { net with links := net.links.erase ifaceName }
      { net' with links := net'.links.erase ifaceName } where
  conf := h.conf
  links l hl := by
    simp only [Finmap.lookup_erase_eq, if_neg hl]
    exact h.links l hl
  down _ := by simp only [Finmap.lookup_erase_eq, if_true]
  clear := nofun

theorem create (h : NetShadow false none net net') (set : LinkDns) :
    NetShadow true none { net with links := net.links.erase ifaceName }
      { net' with links := (net'.links.erase ifaceName).insert ifaceName set } where
  conf := h.conf
  links l hl := by
    simp only [Finmap.lookup_insert_eq, Finmap.lookup_erase_eq, if_neg hl]
    exact h.links l hl
  down := nofun
  clear _ := by simp only [Finmap.lookup_erase_eq, if_true]

/-- What is set on the link of the session is not there without it. -/
theorem of_links (h : NetShadow true dns net net') {net'' : Net} {dns' : Option Dns}
    (hl : ∀ l, l ≠ ifaceName → net''.links.lookup l = net'.links.lookup l)
    (hc : ConfShadow net.conf net''.conf dns') : NetShadow true dns' net net'' :=
  ⟨hc, fun l hne => (hl l hne).trans (h.links l hne), nofun, h.clear⟩

theorem remove (h : NetShadow true none net net') :
    NetShadow false none net { net' with links := net'.links.erase ifaceName } where
  conf := h.conf
  links l hl := by
    simp only [Finmap.lookup_erase_eq, if_neg hl]
    exact h.links l hl
  down _ := by
    simp only [Finmap.lookup_erase_eq, if_true]
    exact (h.clear rfl).symm
  clear := nofun

end NetShadow

namespace FwShadow

variable {ks : Option KillSwitch} {fw fw' : Firewall}

theorem put (h : FwShadow ks fw fw') {t : Text} (ht : t ≠ killswitchTable)
    (o : Option (Chains Text Test)) : FwShadow ks (fw.put t o) (fw'.put t o) where
  others t' ht' := by
    simp only [Ruleset.lookup_put]
    split
    · rfl
    · exact h.others t' ht'
  off hk := by
    simp only [Ruleset.lookup_put, if_neg (Ne.symm ht)]
    exact h.off hk
  ours k hk := by
    simp only [Ruleset.lookup_put, if_neg (Ne.symm ht)]
    exact h.ours k hk

/-- The kill switch takes the place of one that an earlier run left. -/
theorem arm (h : FwShadow none fw fw') (chains : Chains Text Test) :
    FwShadow (some ⟨true⟩) (fw.erase killswitchTable) (fw'.insert killswitchTable chains) where
  others t ht := by
    rw [Finmap.lookup_insert_eq, if_neg ht, Finmap.lookup_erase_eq, if_neg ht]
    exact h.others t ht
  off := nofun
  ours k hk := by
    cases hk
    exact ⟨rfl, Finmap.lookup_erase _ _⟩

theorem drop {k : KillSwitch} (h : FwShadow (some k) fw fw') {chains : Chains Text Test}
    (ha : fw'.lookup killswitchTable = some chains) {nft : Nft} (hn : nft.fault = none) :
    FwShadow none fw (k.drop nft fw') := by
  obtain ⟨hi, hf⟩ := h.ours k rfl
  have heq : k.drop nft fw' = fw'.erase killswitchTable := by
    simp only [KillSwitch.drop, hi, Bool.not_true, Bool.false_eq_true, if_false, nftApply, hn,
      applyAll_delete, ha, Option.map_some]
  refine ⟨fun t ht => ?_, fun _ => ?_, nofun⟩
  · rw [heq, Finmap.lookup_erase_eq, if_neg ht]
    exact h.others t ht
  · rw [heq, hf]
    exact Finmap.lookup_erase _ _

end FwShadow

/-! ### Steps -/

namespace Shadow

variable {launch : Launch} {backend : DnsBackend} {guards : Guards} {result : Except EngineError Unit}
  {status : Published} {h h' : Host} (o : Outcome)

theorem createTun (hg : Guarded ⟨launch, backend, guards, .createTun, result, status⟩ h')
    (hs : Shadow ⟨launch, backend, guards, .createTun, result, status⟩ h h') :
    Shadow (Session.createTun o ⟨launch, backend, guards, .createTun, result, status⟩ h').1
      (h.deleteLink ifaceName)
      (Session.createTun o ⟨launch, backend, guards, .createTun, result, status⟩ h').2 := by
  have hr : guards.route = none := hg.route rfl
  have hd : guards.dns = none := hg.no_dns rfl
  have hroutes : RouteShadow false none h.os.routes h'.os.routes := hr ▸ hs.routes
  have hnet : NetShadow false none h.net h'.net := hd ▸ hs.net
  unfold Session.createTun
  split
  · exact ⟨hr.symm ▸ hroutes.create false, hd.symm ▸ hnet.delete, hs.fw⟩
  · exact ⟨hr.symm ▸ hroutes.create true, hd.symm ▸ hnet.create _, hs.fw⟩

theorem installRoute (hg : Guarded ⟨launch, backend, guards, .installRoute, result, status⟩ h')
    (hs : Shadow ⟨launch, backend, guards, .installRoute, result, status⟩ h h') :
    Shadow (Session.installRoute o ⟨launch, backend, guards, .installRoute, result, status⟩ h').1 h
      (Session.installRoute o ⟨launch, backend, guards, .installRoute, result, status⟩ h').2 := by
  have hr : guards.route = none := hg.route rfl
  have hroutes : RouteShadow true none h.os.routes h'.os.routes := hr ▸ hs.routes
  unfold Session.installRoute
  split
  · split
    · next ft os hi =>
        obtain ⟨ht, hft⟩ := install_taken hi
        exact ⟨hroutes.install ht fun ft' hf => hft ft' (congrArg Except.ok (Option.some.inj hf)),
          hs.net, hs.fw⟩
    · next e os hi =>
        obtain ⟨ht, -⟩ := install_taken hi
        exact ⟨hr.symm ▸ hroutes.install ht nofun, hs.net, hs.fw⟩
  · exact ⟨hs.routes, hs.net, hs.fw⟩

theorem pinResolver (hu : ∀ i, o.undo i = .none)
    (hg : Guarded ⟨launch, backend, guards, .pinResolver, result, status⟩ h')
    (hs : Shadow ⟨launch, backend, guards, .pinResolver, result, status⟩ h h') :
    Shadow (Session.pinResolver o ⟨launch, backend, guards, .pinResolver, result, status⟩ h').1 h
      (Session.pinResolver o ⟨launch, backend, guards, .pinResolver, result, status⟩ h').2 := by
  have hd : guards.dns = none := hg.no_dns rfl
  have hnet : NetShadow true none h.net h'.net := hd ▸ hs.net
  have hconf : h'.net.conf = h.net.conf := hnet.conf
  unfold Session.pinResolver
  split
  · have hlinks : ∀ {r net},
        installDns o.faults o.undo ifaceName launch.dns backend h'.net = (r, net) →
        ∀ l, l ≠ ifaceName → net.links.lookup l = h'.net.links.lookup l := fun hi l hl => by
      have ho : (installDns o.faults o.undo ifaceName launch.dns backend h'.net).2.links.lookup l
          = h'.net.links.lookup l := installDns_other backend hl
      rw [hi] at ho
      exact ho
    split
    · next guard net hi =>
        have hconf' : ConfShadow h.net.conf net.conf (some guard) := by
          rw [← hconf]
          exact (installDns_ok hi).2
        exact ⟨hs.routes, hnet.of_links (hlinks hi) hconf', hs.fw⟩
    · next e net hi =>
        have hc : ConfShadow h.net.conf net.conf none := (installDns_error hu hi).trans hconf
        exact ⟨hs.routes, hd.symm ▸ hnet.of_links (hlinks hi) hc, hs.fw⟩
  · exact ⟨hs.routes, hs.net, hs.fw⟩

theorem armKillSwitch (ho : Own h'.fw)
    (hg : Guarded ⟨launch, backend, guards, .armKillSwitch, result, status⟩ h')
    (hs : Shadow ⟨launch, backend, guards, .armKillSwitch, result, status⟩ h h') :
    ∃ g, Cleared h g ∧
      Shadow (Session.armKillSwitch o ⟨launch, backend, guards, .armKillSwitch, result, status⟩
        h').1 g
      (Session.armKillSwitch o ⟨launch, backend, guards, .armKillSwitch, result, status⟩ h').2 := by
  have hk : guards.killSwitch = none := hg.no_killSwitch rfl
  have hfw : FwShadow none h.fw h'.fw := hk ▸ hs.fw
  unfold Session.armKillSwitch
  split
  · rcases KillSwitch.install_cases ho o.nft launch.egress with ⟨e, hi⟩ | hi
    · simp only [hi]
      exact ⟨h, .refl, hs.routes, hs.net, hs.fw⟩
    · simp only [hi]
      exact ⟨_, .of_fw (.erase h.fw (by decide)), hs.routes, hs.net, hfw.arm _⟩
  · exact ⟨h, .refl, hs.routes, hs.net, hs.fw⟩

theorem dropKillSwitch (hn : o.nft.fault = none)
    (hg : Guarded ⟨launch, backend, guards, .dropKillSwitch, result, status⟩ h')
    (hs : Shadow ⟨launch, backend, guards, .dropKillSwitch, result, status⟩ h h') :
    Shadow (Session.dropKillSwitch o ⟨launch, backend, guards, .dropKillSwitch, result, status⟩
        h').1 h
      (Session.dropKillSwitch o ⟨launch, backend, guards, .dropKillSwitch, result, status⟩ h').2 := by
  obtain ⟨route, dns, killSwitch, tripwire⟩ := guards
  cases killSwitch with
  | none => exact ⟨hs.routes, hs.net, hs.fw⟩
  | some ks => exact ⟨hs.routes, hs.net, hs.fw.drop (hg.armed rfl) hn⟩

theorem dropResolver (hu : ∀ i, o.undo i = .none)
    (hs : Shadow ⟨launch, backend, guards, .dropResolver, result, status⟩ h h') :
    Shadow (Session.dropResolver o ⟨launch, backend, guards, .dropResolver, result, status⟩ h').1 h
      (Session.dropResolver o ⟨launch, backend, guards, .dropResolver, result, status⟩ h').2 := by
  obtain ⟨route, dns, killSwitch, tripwire⟩ := guards
  have hnet : NetShadow true dns h.net h'.net := hs.net
  rcases dns with _ | (link | restore)
  · exact ⟨hs.routes, hs.net, hs.fw⟩
  · obtain ⟨rfl, hc⟩ := hnet.conf
    have hrev := Beside.revert o.undo ifaceName h'.net
    exact ⟨hs.routes, hnet.of_links hrev.other (hrev.conf.trans hc), hs.fw⟩
  · obtain ⟨hr, hp⟩ := hnet.conf
    have hl := revertDns_links o.undo restore h'.net
    exact ⟨hs.routes, hnet.of_links (fun l _ => congrArg (Finmap.lookup l) hl)
      ((revertDns_conf hu restore hp).trans hr), hs.fw⟩

theorem dropRoute (hs : Shadow ⟨launch, backend, guards, .dropRoute, result, status⟩ h h') :
    Shadow (Session.dropRoute o ⟨launch, backend, guards, .dropRoute, result, status⟩ h').1 h
      (Session.dropRoute o ⟨launch, backend, guards, .dropRoute, result, status⟩ h').2 := by
  obtain ⟨route, dns, killSwitch, tripwire⟩ := guards
  cases route with
  | none => exact ⟨hs.routes, hs.net, hs.fw⟩
  | some ft =>
      have hroutes : RouteShadow true (some ft) h.os.routes h'.os.routes := hs.routes
      exact ⟨hroutes.drop (drop_routes (hroutes.ours ft rfl).1 h'.os), hs.net, hs.fw⟩

theorem removeTun (hg : Guarded ⟨launch, backend, guards, .removeTun, result, status⟩ h')
    (hs : Shadow ⟨launch, backend, guards, .removeTun, result, status⟩ h h') :
    Shadow (Session.removeTun ⟨launch, backend, guards, .removeTun, result, status⟩ h').1 h
      (Session.removeTun ⟨launch, backend, guards, .removeTun, result, status⟩ h').2 := by
  have hr : guards.route = none := hg.route rfl
  have hd : guards.dns = none := hg.no_dns rfl
  have hroutes : RouteShadow true none h.os.routes h'.os.routes := hr ▸ hs.routes
  have hnet : NetShadow true none h.net h'.net := hd ▸ hs.net
  exact ⟨hr.symm ▸ hroutes.remove, hd.symm ▸ hnet.remove, hs.fw⟩

/-- A step may take away what an earlier run left: its TUN when the session makes its own, and its kill
switch when the session arms its own. -/
theorem step {s : Session} (ho : Own h'.fw) (hg : Guarded s h') (hs : Shadow s h h')
    (hu : o.Undoes s.point) :
    ∃ g, Cleared h g ∧ Shadow (s.step o h').1 g (s.step o h').2 := by
  obtain ⟨launch, backend, guards, point, result, status⟩ := s
  cases point with
  | resolveExit =>
      simp only [Session.step, Session.resolveExit]
      split <;> exact ⟨h, .refl, hs.routes, hs.net, hs.fw⟩
  | createTun => exact ⟨_, .deleteLink h, hs.createTun o hg⟩
  | installRoute => exact ⟨h, .refl, hs.installRoute o hg⟩
  | pinResolver => exact ⟨h, .refl, hs.pinResolver o hu.files hg⟩
  | armKillSwitch => exact hs.armKillSwitch o ho hg
  | dropKillSwitch => exact ⟨h, .refl, hs.dropKillSwitch o (hu.nft rfl) hg⟩
  | dropResolver => exact ⟨h, .refl, hs.dropResolver o hu.files⟩
  | dropRoute => exact ⟨h, .refl, hs.dropRoute o⟩
  | removeTun => exact ⟨h, .refl, hs.removeTun hg⟩
  | spawnTripwire | publish | serving | dropTripwire | report | finished =>
      exact ⟨h, .refl, hs.routes, hs.net, hs.fw⟩

theorem edit {s : Session} (hs : Shadow s h h') {e : Edit} (hf : e.Foreign) (ha : e.Apart) :
    Shadow s (e.apply h) (e.apply h') := by
  cases e with
  | route dest hop =>
      cases hop with
      | none => exact ⟨hs.routes.erase dest, hs.net, hs.fw⟩
      | some hop => exact ⟨hs.routes.insert ha.1 (ha.2 hop rfl), hs.net, hs.fw⟩
  | table name chains =>
      exact ⟨hs.routes, hs.net, hs.fw.put hf.1 chains⟩
  | link name dns =>
      cases dns with
      | none => exact ⟨hs.routes, hs.net.erase hf, hs.fw⟩
      | some dns => exact ⟨hs.routes, hs.net.insert hf dns, hs.fw⟩

end Shadow

/-! ### The end of a session -/

/-- A machine with a session, and its host as it would be had the session not been launched: all that
is done to it is what others do. -/
inductive Shadowed : Machine → Host → Prop where
  | launch {m m' : Machine} {launch : Launch} {facts : Facts} (h : MachineReachable m)
      (hs : MachineStep m (.launch launch facts) m') : Shadowed m' m.host
  | step {m m' : Machine} {h : Host} {s : Session} {o : Outcome} (hm : Shadowed m h)
      (hp : m.proc = some s) (ho : o.Undoes s.point) (hs : MachineStep m (.step o) m') :
      Shadowed m' h
  | edit {m m' : Machine} {h : Host} {e : Edit} (hm : Shadowed m h) (he : e.Apart)
      (hs : MachineStep m (.edit e) m') : Shadowed m' (e.apply h)

namespace Shadowed

variable {m : Machine} {h : Host}

theorem reachable (hm : Shadowed m h) : MachineReachable m := by
  induction hm with
  | launch h hs => exact h.run (.one hs)
  | step hm hp ho hs ih => exact ih.run (.one hs)
  | edit hm he hs ih => exact ih.run (.one hs)

theorem shadow (hm : Shadowed m h) :
    ∀ s, m.proc = some s → ∃ g, Cleared h g ∧ Shadow s g m.host := by
  induction hm with
  | @launch m m' launch facts hreach hs =>
      intro s hp
      have hf := Cleared.preflight facts launch.installRoute m.host
      obtain ⟨-, ⟨-, hn⟩ | ⟨backend, hpre, hn⟩⟩ := Machine.launched_cases hs
      · exact nomatch hn.symm.trans hp
      · -- what the preflight took from the filter an earlier run had left
        rw [hn] at hp
        cases hp
        rw [hpre] at hf
        exact ⟨_, hf, ⟨.refl, fun _ => rfl, nofun, nofun⟩,
          ⟨rfl, fun _ _ => rfl, fun _ => rfl, nofun⟩, fun _ _ => rfl, fun _ => rfl, nofun⟩
  | @step m m' h s o hm hp ho hs ih =>
      obtain ⟨s', hp', rfl⟩ := Machine.stepped_cases hs
      rw [hp] at hp'
      cases hp'
      have hi := Machine.Inv.of_reachable hm.reachable
      intro s' hs'
      cases hs'
      obtain ⟨g, hc, hsh⟩ := ih s hp
      obtain ⟨g', hc', hsh'⟩ := hsh.step o hi.own (hi.guarded s hp) ho
      exact ⟨g', hc.trans hc', hsh'⟩
  | @edit m m' h e hm he hs ih =>
      obtain ⟨hf, rfl⟩ := Machine.edited_cases hs
      intro s hp
      obtain ⟨g, hc, hsh⟩ := ih s hp
      exact ⟨e.apply g, hc.edit e, hsh.edit hf he⟩

end Shadowed

/-- Of a session that is over, its host differs from itself without the session in nothing. -/
theorem Shadow.finished {s : Session} {h h' : Host} (hs : Shadow s h h') (hg : Guarded s h')
    (hp : s.point = .finished) :
    h'.os.routes = h.os.routes ∧ h'.net.conf = h.net.conf ∧ h'.net.links = h.net.links ∧
      h'.fw = h.fw := by
  have hup : s.hasTun = false := by rw [Session.hasTun, hp]
  have hd : s.guards.dns = none := hg.no_dns (by rw [hp]; rfl)
  have hk : s.guards.killSwitch = none := hg.no_killSwitch (by rw [hp]; rfl)
  have hconf := hs.net.conf
  rw [hd] at hconf
  refine ⟨hs.routes.down hup, hconf, Finmap.ext_lookup fun l => ?_, Finmap.ext_lookup fun t => ?_⟩
  · by_cases hl : l = ifaceName
    · rw [hl]
      exact hs.net.down hup
    · exact hs.net.links l hl
  · by_cases ht : t = killswitchTable
    · rw [ht]
      exact hs.fw.off hk
    · exact hs.fw.others t ht

/-- Once a session is over, and before anything else is launched, its host is what it would be had the
session not been launched, with all that others did to it since, less what an earlier run had left;
where that is nothing, the routes, resolver, links and filters are the same. -/
theorem session_restored {m : Machine} {h : Host} (hm : Shadowed m h) {s : Session}
    (hs : m.proc = some s) (hp : s.point = .finished) :
    Cleared h m.host ∧
      (Clean h → m.host.os.routes = h.os.routes ∧ m.host.net.conf = h.net.conf ∧
        m.host.net.links = h.net.links ∧ m.host.fw = h.fw) := by
  obtain ⟨g, hc, hsh⟩ := hm.shadow s hs
  have hg := (Machine.Inv.of_reachable hm.reachable).guarded s hs
  obtain ⟨hr, hconf, hl, hf⟩ := hsh.finished hg hp
  have hc' : Cleared h m.host :=
    ⟨hr ▸ hc.routes, hconf.trans hc.conf, hl ▸ hc.links, hf ▸ hc.fw⟩
  exact ⟨hc', hc'.eq_of_clean⟩

/-- What is left of some acts where there is no session: what others do. -/
def Host.others (h : Host) : List Act → Host
  | [] => h
  | .edit e :: acts => (e.apply h).others acts
  | _ :: acts => h.others acts

/-- A step that undoes what it undoes, or an edit that leaves the session its own. -/
def Act.Apart : Act → Prop
  | .step o => (∀ i, o.undo i = .none) ∧ o.nft.fault = none
  | .edit e => e.Apart
  | _ => False

theorem Shadowed.after {m m' : Machine} {h : Host} {acts : List Act} (hm : Shadowed m h)
    (ha : ∀ a ∈ acts, a.Apart) (hf : m.after acts = some m') : Shadowed m' (h.others acts) := by
  induction acts generalizing m h with
  | nil => cases hf; exact hm
  | cons a acts ih =>
      obtain ⟨ha, hacts⟩ := List.forall_mem_cons.mp ha
      obtain ⟨m₁, hs, ht⟩ := Option.bind_eq_some_iff.mp hf
      cases a with
      | step o =>
          obtain ⟨s, hp, -⟩ := Machine.stepped_cases hs
          exact ih (.step hm hp ⟨ha.1, fun _ => ha.2⟩ hs) hacts ht
      | edit e => exact ih (.edit hm ha hs) hacts ht
      | launch launch facts => exact ha.elim
      | trip nft => exact ha.elim
      | die => exact ha.elim
      | reboot host => exact ha.elim

/-- The rest of a session that captures, with a route injected into it. -/
def endured : List Act :=
  List.replicate 7 (.step .fine) ++
    [.edit (.route (hostRoute (.v4 ⟨1, 1, 1, 1⟩)) (some ⟨lit "192.168.1.66", lit "eth0"⟩))] ++
    List.replicate 7 (.step .fine)

theorem endured_clean : Clean ((plainHost []).others endured) where
  routes d hop hl := by
    change ((∅ : Table Prefix Hop).insert (hostRoute (.v4 ⟨1, 1, 1, 1⟩))
      ⟨lit "192.168.1.66", lit "eth0"⟩).lookup d = some hop at hl
    rw [Finmap.lookup_insert_eq] at hl
    split at hl
    · cases hl; decide
    · cases hl
  links := rfl
  fw _ _ := rfl

/-- The route that was injected is all that the host is left with. -/
theorem session_restored_injected : ∃ m h s, Shadowed m h ∧ m.proc = some s ∧ s.point = .finished ∧
    h.os.routes.lookup (hostRoute (.v4 ⟨1, 1, 1, 1⟩)) = some ⟨lit "192.168.1.66", lit "eth0"⟩ ∧
    m.host.os.routes = h.os.routes ∧ m.host.net.conf = h.net.conf ∧
      m.host.net.links = h.net.links ∧ m.host.fw = h.fw := by
  have hrun : ((Machine.act ⟨plainHost [], none⟩ (.launch directLaunch .fine)).any fun m =>
      (m.after endured).any fun m => m.proc.any fun s => s.point = .finished) = true := by
    decide +kernel
  obtain ⟨m₀, hl, hf⟩ := (Option.any_eq_true _ _).mp hrun
  obtain ⟨m, hf, hs⟩ := (Option.any_eq_true _ _).mp hf
  obtain ⟨s, hs, hp⟩ := (Option.any_eq_true _ _).mp hs
  have hp := of_decide_eq_true hp
  have hfresh : MachineReachable ⟨plainHost [], none⟩ := .of_start ⟨rfl, rfl, rfl⟩
  have hapart : ∀ a ∈ endured, a.Apart := by
    simp only [endured, List.mem_append, List.mem_replicate, List.mem_singleton]
    rintro a ((⟨-, rfl⟩ | rfl) | ⟨-, rfl⟩)
    · exact ⟨fun _ => rfl, rfl⟩
    · exact ⟨by decide, fun hop he => by cases he; decide⟩
    · exact ⟨fun _ => rfl, rfl⟩
  have hm : Shadowed m ((plainHost []).others endured) :=
    (Shadowed.launch hfresh hl).after hapart hf
  exact ⟨m, _, s, hm, hs, hp, by decide, (session_restored hm hs hp).2 endured_clean⟩

end Tunnel.Engine
