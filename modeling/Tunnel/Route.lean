import Tunnel.Support.Table
import Tunnel.Text

/-!
# Route — The full tunnel

`FullTunnel`: the routes that send all traffic into the TUN, their installation and their teardown.
The two platforms run different programs to the same effect on the routing table, so `run` is given
the effect: a route is named by its destination, an `add` of a destination that is routed fails, and
`Outcomes` says of each command, in the order they are run, whether it fails for another reason.

* `addAll_spec`: a sequence of adds stops at the first that is refused, with those before it in the
  table.
* `install_atomic_iff`: an installation that fails leaves no route behind exactly when its first
  command is refused; one that succeeds is undone by its teardown.
-/

namespace Tunnel.Route
open Support

/-! ### The routing table -/

/-- A destination, which names a route. -/
structure Prefix where
  base : IpAddr
  bits : ℕ
deriving DecidableEq

structure Hop where
  gateway : Text
  iface : Text
deriving DecidableEq

inductive RouteCmd where
  | add (dest : Prefix) (hop : Hop)
  | delete (dest : Prefix)

/-- The routes of the operating system, and how many commands it has run. -/
structure Os where
  routes : Table Prefix Hop
  ran : ℕ

/-- Which commands succeed. -/
abbrev Outcomes := ℕ → Bool

section
variable (outcomes : Outcomes)

def run (os : Os) : RouteCmd → Bool × Os
  | .add dest hop =>
    if outcomes os.ran ∧ os.routes.lookup dest = none then
      (true, ⟨os.routes.insert dest hop, os.ran + 1⟩)
    else (false, { os with ran := os.ran + 1 })
  | .delete dest =>
    if outcomes os.ran then (true, ⟨os.routes.erase dest, os.ran + 1⟩)
    else (false, { os with ran := os.ran + 1 })

/-! ### The platform -/

def hostRoute (server : IpAddr) : Prefix := ⟨server, 32⟩

/-- `0.0.0.0/1`. -/
def lowerHalf : Prefix := ⟨.v4 ⟨0, 0, 0, 0⟩, 1⟩

/-- `128.0.0.0/1`. -/
def upperHalf : Prefix := ⟨.v4 ⟨128, 0, 0, 0⟩, 1⟩

def addHostRoute (os : Os) (server : IpAddr) (gateway iface : Text) : Bool × Os :=
  run outcomes os (.add (hostRoute server) ⟨gateway, iface⟩)

def removeHostRoute (os : Os) (server : IpAddr) : Os :=
  (run outcomes os (.delete (hostRoute server))).2

def addDefaultViaTun (os : Os) (gw : Ipv4Addr) (iface : Text) : Bool × Os :=
  match run outcomes os (.add lowerHalf ⟨gw.display, iface⟩) with
  | (false, os) => (false, os)
  | (true, os) => run outcomes os (.add upperHalf ⟨gw.display, iface⟩)

def removeDefaultViaTun (os : Os) : Os :=
  (run outcomes (run outcomes os (.delete lowerHalf)).2 (.delete upperHalf)).2

end

/-- `platform::iface_id`. -/
abbrev IfaceId := Text → Ipv4Addr → Option Text

/-- The name of the interface, on Unix. -/
def unixIfaceId : IfaceId := fun name _ => some name

/-! ### The tunnel -/

structure FullTunnel where
  serverIp : IpAddr
  tunIp : Ipv4Addr
  tunGateway : Ipv4Addr
  origGateway : Text
  tunIface : Text
  origIface : Text
  installed : Bool
deriving DecidableEq

def isLoopbackOrUnspecified (ip : IpAddr) : Bool := ip.isLoopback || ip.isUnspecified

namespace FullTunnel

section
variable (outcomes : Outcomes)

/-- The error is the context that is attached to the one of the command. -/
def apply (ft : FullTunnel) (os : Os) : Except Text Unit × Os :=
  let (pinned, os) :=
    if isLoopbackOrUnspecified ft.serverIp then (true, os)
    else addHostRoute outcomes os ft.serverIp ft.origGateway ft.origIface
  if !pinned then
    (.error (.lit "failed to pin host route for server " ++ ft.serverIp.display), os)
  else
    let (redirected, os) := addDefaultViaTun outcomes os ft.tunGateway ft.tunIface
    (if redirected then .ok () else .error (.lit "failed to redirect default route into the tunnel"),
      os)

def teardown (ft : FullTunnel) (os : Os) : Os :=
  if !ft.installed then os
  else
    let os := removeDefaultViaTun outcomes os
    if isLoopbackOrUnspecified ft.serverIp then os else removeHostRoute outcomes os ft.serverIp

def drop (ft : FullTunnel) (os : Os) : Os := ft.teardown outcomes os

/-- On a failure of `apply` the tunnel goes out of scope, and is dropped. -/
def install (ifaceId : IfaceId) (serverIp : IpAddr) (tunName : Text) (tunIp tunGateway : Ipv4Addr)
    (origGateway origIface : Text) (os : Os) : Except Text FullTunnel × Os :=
  match ifaceId tunName tunIp with
  | none => (.error (.lit "could not resolve TUN interface id"), os)
  | some tunIface =>
    let ft : FullTunnel := {
      serverIp
      tunIp
      tunGateway
      origGateway
      tunIface
      origIface
      installed := false }
    match ft.apply outcomes os with
    | (.error e, os) => (.error e, ft.drop outcomes os)
    | (.ok (), os) => (.ok { ft with installed := true }, os)

end

end FullTunnel

/-! ### Adding several routes -/

/-- Run the adds in order, up to the first that fails. -/
def addAll (outcomes : Outcomes) (os : Os) : List (Prefix × Hop) → Bool × Os
  | [] => (true, os)
  | (dest, hop) :: rest =>
    match run outcomes os (.add dest hop) with
    | (false, os) => (false, os)
    | (true, os) => addAll outcomes os rest

def insertAll (t : Table Prefix Hop) (xs : List (Prefix × Hop)) : Table Prefix Hop :=
  xs.foldl (fun t x => t.insert x.1 x.2) t

variable {outcomes : Outcomes} {t : Table Prefix Hop}

theorem addAll_one (os : Os) (x : Prefix × Hop) :
    addAll outcomes os [x] = run outcomes os (.add x.1 x.2) := by
  unfold addAll
  cases run outcomes os (.add x.1 x.2) with
  | mk b os₁ => cases b <;> rfl

/-- How many adds the system accepts before it refuses one, of those that start as its `n`th
command: one is refused when it fails, or when its destination is routed. -/
def accepted (outcomes : Outcomes) (t : Table Prefix Hop) : ℕ → List Prefix → ℕ
  | _, [] => 0
  | n, dest :: rest =>
    if outcomes n ∧ t.lookup dest = none then accepted outcomes t (n + 1) rest + 1 else 0

theorem lookup_insertAll_of_notMem {xs : List (Prefix × Hop)} {dest : Prefix}
    (h : dest ∉ xs.map Prod.fst) : (insertAll t xs).lookup dest = t.lookup dest := by
  induction xs generalizing t with
  | nil => rfl
  | cons x xs ih =>
      simp only [List.map_cons, List.mem_cons, not_or] at h
      rw [insertAll, List.foldl_cons, ← insertAll, ih h.2, Finmap.lookup_insert_eq, if_neg h.1]

theorem lookup_insertAll_ne_none {xs : List (Prefix × Hop)} {dest : Prefix}
    (h : dest ∈ xs.map Prod.fst) : (insertAll t xs).lookup dest ≠ none := by
  induction xs generalizing t with
  | nil => simp at h
  | cons x xs ih =>
      rw [insertAll, List.foldl_cons, ← insertAll]
      by_cases hx : dest ∈ xs.map Prod.fst
      · exact ih hx
      · simp only [List.map_cons, List.mem_cons, hx, or_false] at h
        rw [lookup_insertAll_of_notMem hx, h, Finmap.lookup_insert]
        exact Option.some_ne_none _

/-- Another route in the table is not in the way. -/
theorem accepted_insert {dest : Prefix} (hop : Hop) {n : ℕ} {dests : List Prefix}
    (h : dest ∉ dests) : accepted outcomes (t.insert dest hop) n dests =
      accepted outcomes t n dests := by
  induction dests generalizing n with
  | nil => rfl
  | cons d rest ih =>
      simp only [List.mem_cons, not_or] at h
      simp only [accepted, ih h.2, Finmap.lookup_insert_eq, if_neg (Ne.symm h.1)]

/-- Where all are accepted, none of the destinations was routed. -/
theorem lookup_of_accepted {n : ℕ} {dests : List Prefix}
    (h : accepted outcomes t n dests = dests.length) : ∀ d ∈ dests, t.lookup d = none := by
  induction dests generalizing n with
  | nil => simp
  | cons dest rest ih =>
      rw [accepted] at h
      split at h
      · next hd =>
          simp only [List.length_cons, Nat.add_right_cancel_iff] at h
          simp only [List.mem_cons, forall_eq_or_imp]
          exact ⟨hd.2, ih h⟩
      · cases h

theorem addAll_spec (outcomes : Outcomes) (os : Os) {xs : List (Prefix × Hop)}
    (h : (xs.map Prod.fst).Nodup) :
    ((addAll outcomes os xs).1 = true ↔
      accepted outcomes os.routes os.ran (xs.map Prod.fst) = xs.length) ∧
    (addAll outcomes os xs).2.routes =
      insertAll os.routes (xs.take (accepted outcomes os.routes os.ran (xs.map Prod.fst))) := by
  induction xs generalizing os with
  | nil => simp [addAll, accepted, insertAll]
  | cons x rest ih =>
      obtain ⟨dest, hop⟩ := x
      simp only [List.map_cons, List.nodup_cons] at h
      by_cases hd : outcomes os.ran = true ∧ os.routes.lookup dest = none
      · have hrun : run outcomes os (.add dest hop) =
            (true, ⟨os.routes.insert dest hop, os.ran + 1⟩) := if_pos hd
        obtain ⟨h₁, h₂⟩ := ih ⟨os.routes.insert dest hop, os.ran + 1⟩ h.2
        simp only [accepted_insert hop h.1] at h₁ h₂
        simp only [addAll, hrun, List.map_cons, accepted, if_pos hd, List.length_cons, h₁, h₂,
          Nat.add_right_cancel_iff, List.take_succ_cons, true_and]
        rfl
      · have hrun : run outcomes os (.add dest hop) = (false, { os with ran := os.ran + 1 }) :=
          if_neg hd
        simp [addAll, hrun, accepted, if_neg hd, insertAll]

/-! ### The installation -/

/-- The destinations that an installation routes, in its order. -/
def dests (serverIp : IpAddr) : List Prefix :=
  (if isLoopbackOrUnspecified serverIp then [] else [hostRoute serverIp]) ++ [lowerHalf, upperHalf]

namespace FullTunnel

/-- The routes of a tunnel, in the order of `apply`. -/
def plan (ft : FullTunnel) : List (Prefix × Hop) :=
  (if isLoopbackOrUnspecified ft.serverIp then []
    else [(hostRoute ft.serverIp, ⟨ft.origGateway, ft.origIface⟩)]) ++
  [(lowerHalf, ⟨ft.tunGateway.display, ft.tunIface⟩),
    (upperHalf, ⟨ft.tunGateway.display, ft.tunIface⟩)]

theorem plan_dests (ft : FullTunnel) : ft.plan.map Prod.fst = dests ft.serverIp := by
  unfold plan dests
  split <;> rfl

theorem nodup_dests (serverIp : IpAddr) : (dests serverIp).Nodup := by
  have hl : hostRoute serverIp ≠ lowerHalf := by
    intro h
    cases congrArg Prefix.bits h
  have hu : hostRoute serverIp ≠ upperHalf := by
    intro h
    cases congrArg Prefix.bits h
  have hd : lowerHalf ≠ upperHalf := by decide
  unfold dests
  split <;> simp [hl, hu, hd]

theorem addDefaultViaTun_eq (os : Os) (gw : Ipv4Addr) (iface : Text) :
    addDefaultViaTun outcomes os gw iface =
      addAll outcomes os [(lowerHalf, ⟨gw.display, iface⟩), (upperHalf, ⟨gw.display, iface⟩)] := by
  rw [addDefaultViaTun, addAll]
  cases run outcomes os (.add lowerHalf ⟨gw.display, iface⟩) with
  | mk b os₁ =>
      cases b with
      | false => rfl
      | true => exact (addAll_one os₁ (upperHalf, ⟨gw.display, iface⟩)).symm

theorem apply_eq (ft : FullTunnel) (outcomes : Outcomes) (os : Os) :
    ((ft.apply outcomes os).1 = .ok () ↔ (addAll outcomes os ft.plan).1 = true) ∧
      (ft.apply outcomes os).2 = (addAll outcomes os ft.plan).2 := by
  unfold apply plan
  simp only [addDefaultViaTun_eq]
  generalize [(lowerHalf, _), (upperHalf, _)] = halves
  by_cases hs : isLoopbackOrUnspecified ft.serverIp = true
  · simp [hs]
  · simp only [hs, List.singleton_append, Bool.false_eq_true, if_false]
    rw [addAll, addHostRoute]
    cases run outcomes os (.add (hostRoute ft.serverIp) ⟨ft.origGateway, ft.origIface⟩) with
    | mk b os₁ => cases b <;> simp

/-- A teardown whose commands succeed leaves no route of the tunnel, and every other one. -/
theorem lookup_teardown {later : Outcomes} (hl : ∀ i, later i = true) {ft : FullTunnel}
    (hi : ft.installed = true) (os : Os) (dest : Prefix) :
    (ft.teardown later os).routes.lookup dest =
      if dest ∈ dests ft.serverIp then none else os.routes.lookup dest := by
  have hdel : ∀ (os : Os) (d : Prefix),
      run later os (.delete d) = (true, ⟨os.routes.erase d, os.ran + 1⟩) :=
    fun os d => if_pos (hl os.ran)
  unfold teardown dests removeDefaultViaTun removeHostRoute
  simp only [hi, hdel, Bool.not_true, Bool.false_eq_true, if_false]
  by_cases hs : isLoopbackOrUnspecified ft.serverIp = true
  · simp only [hs, if_true, Finmap.lookup_erase_eq, List.nil_append, List.mem_cons,
      List.not_mem_nil, or_false]
    by_cases hd : dest = lowerHalf <;> simp [hd]
  · simp only [hs, Bool.false_eq_true, if_false, Finmap.lookup_erase_eq, List.cons_append,
      List.nil_append, List.mem_cons, List.not_mem_nil, or_false]
    by_cases hd : dest = hostRoute ft.serverIp
    · simp [hd]
    · by_cases hd' : dest = lowerHalf <;> simp [hd, hd']

end FullTunnel

section
variable (outcomes : Outcomes) (ifaceId : IfaceId) (serverIp : IpAddr) (tunName : Text)
  (tunIp tunGateway : Ipv4Addr) (origGateway origIface : Text) (os : Os)

/-- A failed installation leaves the table as it found it, once all it made is dropped; a
successful one leaves it so when the tunnel is dropped. -/
def Atomic : Prop :=
  match FullTunnel.install outcomes ifaceId serverIp tunName tunIp tunGateway origGateway
    origIface os with
  | (.error _, os') => os'.routes = os.routes
  | (.ok ft, os') =>
    ∀ later : Outcomes, (∀ i, later i = true) → (ft.drop later os').routes = os.routes

end

/-- The routes of the adds that are accepted, if any, were not in the table. -/
theorem insertAll_eq_iff (outcomes : Outcomes) (t : Table Prefix Hop) (n : ℕ)
    (xs : List (Prefix × Hop)) :
    insertAll t (xs.take (accepted outcomes t n (xs.map Prod.fst))) = t ↔
      accepted outcomes t n (xs.map Prod.fst) = 0 := by
  constructor
  · intro h
    cases xs with
    | nil => rfl
    | cons x rest =>
        rw [List.map_cons, accepted] at h ⊢
        split
        · next hc =>
            rw [if_pos hc] at h
            have hx : x.1 ∈ ((x :: rest).take
                (accepted outcomes t (n + 1) (rest.map Prod.fst) + 1)).map Prod.fst := by simp
            have hin := lookup_insertAll_ne_none (t := t) hx
            rw [h] at hin
            exact absurd hc.2 hin
        · rfl
  · intro h
    rw [h]
    rfl

section
variable (outcomes : Outcomes) (ifaceId : IfaceId) (serverIp : IpAddr) (tunName : Text)
  (tunIp tunGateway : Ipv4Addr) (origGateway origIface : Text) (os : Os)

/-- An installation is atomic exactly when it ends before its first command, or its first command
is refused, or none of them is. -/
theorem install_atomic_iff :
    Atomic outcomes ifaceId serverIp tunName tunIp tunGateway origGateway origIface os ↔
      ifaceId tunName tunIp = none ∨
        accepted outcomes os.routes os.ran (dests serverIp) = 0 ∨
        accepted outcomes os.routes os.ran (dests serverIp) = (dests serverIp).length := by
  unfold Atomic FullTunnel.install
  cases hid : ifaceId tunName tunIp with
  | none => simp
  | some tunIface =>
      let ft : FullTunnel :=
        ⟨serverIp, tunIp, tunGateway, origGateway, tunIface, origIface, false⟩
      have hd : ft.plan.map Prod.fst = dests serverIp := ft.plan_dests
      have hlen : ft.plan.length = (dests serverIp).length := by
        rw [← hd, List.length_map]
      obtain ⟨hok, hos⟩ := ft.apply_eq outcomes os
      have hnodup : (ft.plan.map Prod.fst).Nodup := hd ▸ FullTunnel.nodup_dests serverIp
      obtain ⟨hall, hroutes⟩ := addAll_spec outcomes os hnodup
      have hsame := insertAll_eq_iff outcomes os.routes os.ran ft.plan
      rw [← hos] at hroutes
      rw [← hroutes, hd] at hsame
      rw [hd, hlen] at hall
      simp only [reduceCtorEq, false_or]
      cases ha : ft.apply outcomes os with
      | mk r os' =>
      rw [ha] at hok hsame hroutes
      cases r with
      | error e =>
          have hne : accepted outcomes os.routes os.ran (dests serverIp) ≠
              (dests serverIp).length := fun h => nomatch hok.mpr (hall.mpr h)
          simp only [hne, or_false]
          -- nothing is torn down, for the tunnel is not marked installed
          exact hsame
      | ok u =>
          have hk := hall.mp (hok.mp rfl)
          have hnone := lookup_of_accepted hk
          refine iff_of_true (fun later hl => Finmap.ext_lookup fun dest => ?_) (Or.inr hk)
          rw [FullTunnel.drop, FullTunnel.lookup_teardown hl rfl]
          split
          · next hm => exact (hnone dest hm).symm
          · next hm =>
              rw [hroutes, lookup_insertAll_of_notMem]
              intro h
              rw [hd, hk, List.take_of_length_le hlen.le, hd] at h
              exact hm h

end

/-- The second half of the address space cannot be redirected: the first half stays redirected. -/
theorem install_leaves_half :
    ¬ ∀ outcomes ifaceId serverIp tunName tunIp tunGateway origGateway origIface os,
      Atomic outcomes ifaceId serverIp tunName tunIp tunGateway origGateway origIface os := by
  intro h
  have ha := h (fun i => i == 0) unixIfaceId (.v4 ⟨127, 0, 0, 1⟩) (.lit "tunnel0") ⟨10, 13, 0, 2⟩
    ⟨10, 13, 0, 1⟩ (.lit "192.168.1.1") (.lit "eth0") ⟨∅, 0⟩
  rw [install_atomic_iff] at ha
  revert ha
  decide

end Tunnel.Route
