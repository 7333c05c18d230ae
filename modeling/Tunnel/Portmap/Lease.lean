import Tunnel.Portmap.Wire
import Tunnel.Support.Runs

/-!
# Portmap — The lease loop

A pass of `lease_loop`: `renew` asks for the port over UDP, then over TCP, and the driver is told what
came of it.  Every exchange is kept, in the order made.

* `accepted`: the mapping a response grants.  `grant`: the mapping an exchange ends with.
* `Renewal`, `renew_spec`: the four ends a renewal has.
* `leasePass_spec`: a pass renews, and says that a port is mapped only if the renewal succeeded.
* `LeaseStep`: the loop as steps, one for each pass.  `LeaseStep.spec`: what a step does.
-/

namespace Tunnel.Portmap
open Support Text

def LIFETIME : ℕ := secs 60
def MIN_RENEW : ℕ := secs 10
def RETRY : ℕ := secs 10
def QUIET_FAILURES : UInt32 := 2

inductive Event where
  | mapped (port : UInt16)
  | pending (reason : Text)
  | lost (reason : Text)
deriving DecidableEq

/-- What was asked of the gateway, and what came back. -/
structure Exchange where
  request : Bytes
  sent : Bool
  reply : Except Text Bytes
deriving DecidableEq

/-- What the loop knows of the gateway. -/
structure Lease where
  current : Option UInt16
  epoch : Option UInt32
deriving DecidableEq

/-- What becomes of the requests of a pass, and whether the driver still takes what it is told. -/
structure Pass where
  udp : Outcome
  tcp : Outcome
  address : Outcome
  taken : Bool
deriving DecidableEq

/-! ### One pass -/

def gatewayRestarted (previous : Option UInt32) (current : UInt32) : Bool :=
  previous.any fun p => current < p

def map (gateway : Ipv4Addr) (proto : Proto) (suggested : UInt16) (lifetime : ℕ) (o : Outcome) :
    Checked (Except Text Mapping × Exchange) := do
  let req := buildRequest proto.opcode 0 suggested (UInt32.ofNat (lifetime / secs 1))
  let resp := exchange gateway o
  match resp with
  | .error e => return (.error e, ⟨req, o.sends, resp⟩)
  | .ok buf => return (← parseMapping buf proto, ⟨req, o.sends, resp⟩)

def externalAddress (gateway : Ipv4Addr) (o : Outcome) :
    Checked (Except Text Ipv4Addr × Exchange) := do
  let req := buildRequest OP_EXTERNAL 0 0 0
  let resp := exchange gateway o
  match resp with
  | .error e => return (.error e, ⟨req, o.sends, resp⟩)
  | .ok buf => return (← parseExternalAddress buf, ⟨req, o.sends, resp⟩)

/-- Also returns the exchanges made. -/
def renew (gateway : Ipv4Addr) (p : Pass) (lease : Lease) :
    Checked (Except Text Mapping × Lease × List Exchange) := do
  let suggested := lease.current.getD 1
  match ← map gateway .udp suggested LIFETIME p.udp with
  | (.error e, x) => return (.error e, lease, [x])
  | (.ok udp, x) =>
    if gatewayRestarted lease.epoch udp.epoch then
      return (.error (lit "gateway restarted — every mapping was dropped"),
        ⟨none, some udp.epoch⟩, [x])
    let lease := { lease with epoch := some udp.epoch }
    match ← map gateway .tcp udp.external LIFETIME p.tcp with
    | (.error e, y) => return (.error e, lease, [x, y])
    -- another port for TCP is only logged
    | (.ok _, y) => return (.ok udp, { lease with current := some udp.external }, [x, y])

def renewAfter (granted : ℕ) : ℕ := max (granted / 2) MIN_RENEW

/-- The state of the loop between two passes. -/
structure Session where
  lease : Lease
  announced : Option UInt16
  failures : UInt32
  /-- The exchanges made. -/
  wire : List Exchange
  /-- The driver is gone, and the loop was left. -/
  stopped : Bool
deriving DecidableEq

def Session.start : Session := ⟨⟨none, none⟩, none, 0, [], false⟩

/-- The session after a pass, what the driver was told, and how long is waited before the next. -/
def leasePass (gateway : Ipv4Addr) (p : Pass) (s : Session) : Checked (Session × Event × ℕ) := do
  let (result, lease, asked) ← renew gateway p s.lease
  let s := { s with lease, wire := s.wire ++ asked, stopped := !p.taken }
  match result with
  | .ok m =>
    -- the address is for the log alone, and is asked for when the port changes
    let asked ← if s.announced = some m.external then pure []
      else (fun r => [r.2]) <$> externalAddress gateway p.address
    let s := { s with failures := 0, announced := some m.external, wire := s.wire ++ asked }
    return (s, .mapped m.external, renewAfter m.lifetime)
  | .error reason =>
    let failures := s.failures + 1
    let event := if failures ≤ QUIET_FAILURES then .pending reason else .lost reason
    return ({ s with failures, announced := none }, event, RETRY)

/-- The loop goes on until the driver is gone. -/
def LeaseStep (gateway : Ipv4Addr) (s : Session) (p : Pass) (s' : Session) : Prop :=
  s.stopped = false ∧ ∃ event wait, leasePass gateway p s = .ok (s', event, wait)

/-! ### Accepted replies -/

/-- The mapping a response grants. -/
def accepted (buf : Bytes) (proto : Proto) : Option Mapping :=
  match parseMapping buf proto with
  | .ok r => r.toOption
  | .error _ => none

/-- The mapping an exchange ends with. -/
def grant (gateway : Ipv4Addr) (o : Outcome) (proto : Proto) : Option Mapping :=
  match exchange gateway o with
  | .ok buf => accepted buf proto
  | .error _ => none

/-- The protocol a request asks a mapping for. -/
def protoOf (request : Bytes) : Option Proto :=
  if request[1]? = some OP_MAP_UDP then some .udp
  else if request[1]? = some OP_MAP_TCP then some .tcp
  else none

/-- An accepted mapping reply: the protocol asked for, and the epoch it carries. -/
def Exchange.heard (x : Exchange) : Option (Proto × UInt32) :=
  match protoOf x.request, x.reply with
  | some proto, .ok buf => (accepted buf proto).map fun m => (proto, m.epoch)
  | _, _ => none

/-- The accepted mapping replies of the session, in order. -/
def Session.heard (s : Session) : List (Proto × UInt32) := s.wire.filterMap Exchange.heard

@[simp] theorem protoOf_buildRequest (proto : Proto) (internal suggested : UInt16)
    (lifetime : UInt32) : protoOf (buildRequest proto.opcode internal suggested lifetime) =
      some proto := by
  cases proto <;> rfl

/-- The mapping asked for is the one accepted. -/
theorem map_spec (gateway : Ipv4Addr) (proto : Proto) (suggested : UInt16) (lifetime : ℕ)
    (o : Outcome) : ∃ r x, map gateway proto suggested lifetime o = .ok (r, x) ∧
      r.toOption = grant gateway o proto ∧
      x.heard = (grant gateway o proto).map fun m => (proto, m.epoch) := by
  rw [map, grant]
  cases exchange gateway o with
  | error e => exact ⟨.error e, _, rfl, rfl, by rw [Exchange.heard, protoOf_buildRequest]; rfl⟩
  | ok buf =>
      obtain ⟨r, hr⟩ := returns_parseMapping buf proto
      have ha : accepted buf proto = r.toOption := by rw [accepted, hr]
      refine ⟨r, ⟨_, _, .ok buf⟩, by dsimp only; rw [hr]; rfl, ha.symm, ?_⟩
      rw [Exchange.heard, protoOf_buildRequest]

/-- An exchange for the address is no mapping reply. -/
theorem externalAddress_spec (gateway : Ipv4Addr) (o : Outcome) :
    ∃ r x, externalAddress gateway o = .ok (r, x) ∧ x.heard = none := by
  have hproto : protoOf (buildRequest OP_EXTERNAL 0 0 0) = none := rfl
  rw [externalAddress]
  cases exchange gateway o with
  | error e => exact ⟨_, _, rfl, by rw [Exchange.heard, hproto]⟩
  | ok buf =>
      obtain ⟨r, hr⟩ := returns_parseExternalAddress buf
      exact ⟨r, ⟨_, _, .ok buf⟩, by dsimp only; rw [hr]; rfl, by rw [Exchange.heard, hproto]⟩

/-! ### Renewals -/

/-- The ends of a renewal: its result, the lease it leaves, and the mapping replies accepted. -/
inductive Renewal (gateway : Ipv4Addr) (p : Pass) (lease : Lease) :
    Except Text Mapping → Lease → List (Proto × UInt32) → Prop where
  /-- UDP is refused. -/
  | refused {e : Text} (hudp : grant gateway p.udp .udp = none) :
      Renewal gateway p lease (.error e) lease []
  /-- The epoch fell. -/
  | restarted {e : Text} {u : Mapping} (hudp : grant gateway p.udp .udp = some u)
      (hr : gatewayRestarted lease.epoch u.epoch = true) :
      Renewal gateway p lease (.error e) ⟨none, some u.epoch⟩ [(.udp, u.epoch)]
  /-- TCP is refused. -/
  | half {e : Text} {u : Mapping} (hudp : grant gateway p.udp .udp = some u)
      (hr : gatewayRestarted lease.epoch u.epoch = false) (htcp : grant gateway p.tcp .tcp = none) :
      Renewal gateway p lease (.error e) ⟨lease.current, some u.epoch⟩ [(.udp, u.epoch)]
  | renewed {u t : Mapping} (hudp : grant gateway p.udp .udp = some u)
      (hr : gatewayRestarted lease.epoch u.epoch = false)
      (htcp : grant gateway p.tcp .tcp = some t) :
      Renewal gateway p lease (.ok u) ⟨some u.external, some u.epoch⟩
        [(.udp, u.epoch), (.tcp, t.epoch)]

/-- A renewal has an end. -/
theorem renew_spec (gateway : Ipv4Addr) (p : Pass) (lease : Lease) :
    ∃ r lease' asked, renew gateway p lease = .ok (r, lease', asked) ∧
      Renewal gateway p lease r lease' (asked.filterMap Exchange.heard) := by
  obtain ⟨ru, x, hu, hgu, hxu⟩ := map_spec gateway .udp (lease.current.getD 1) LIFETIME p.udp
  rw [renew]
  dsimp only
  rw [hu, ok_bind]
  rw [← hgu] at hxu
  cases ru with
  | error e =>
      refine ⟨_, _, _, rfl, ?_⟩
      rw [List.filterMap_cons_none hxu]
      exact .refused hgu.symm
  | ok u =>
      have hheard : ∀ ys, (x :: ys).filterMap Exchange.heard =
          (.udp, u.epoch) :: ys.filterMap Exchange.heard := fun _ => List.filterMap_cons_some hxu
      dsimp only
      split
      · next hr =>
          refine ⟨_, _, _, rfl, ?_⟩
          rw [hheard]
          exact .restarted hgu.symm hr
      · next hr =>
          have hr' := Bool.eq_false_iff.mpr hr
          obtain ⟨rt, y, ht, hgt, hxt⟩ := map_spec gateway .tcp u.external LIFETIME p.tcp
          rw [ht, ok_bind]
          rw [← hgt] at hxt
          cases rt with
          | error e =>
              refine ⟨_, _, _, rfl, ?_⟩
              rw [hheard, List.filterMap_cons_none hxt]
              exact .half hgu.symm hr' hgt.symm
          | ok t =>
              refine ⟨_, _, _, rfl, ?_⟩
              rw [hheard, List.filterMap_cons_some hxt]
              exact .renewed hgu.symm hr' hgt.symm

/-! ### Passes -/

/-- A pass is a renewal; when it succeeds the driver is told of a port, and the wait is for the mapping
it returns. -/
theorem leasePass_spec {gateway : Ipv4Addr} {p : Pass} {s : Session} {r : Except Text Mapping}
    {lease' : Lease} {asked : List Exchange}
    (h : renew gateway p s.lease = .ok (r, lease', asked)) :
    ∃ s' event wait, leasePass gateway p s = .ok (s', event, wait) ∧ s'.lease = lease' ∧
      s'.heard = s.heard ++ asked.filterMap Exchange.heard ∧
      (∀ port, event = .mapped port ↔ ∃ m, r = .ok m ∧ m.external = port) ∧
      ∀ m, r = .ok m → wait = renewAfter m.lifetime := by
  rw [leasePass, h, ok_bind]
  cases r with
  | error reason =>
      refine ⟨_, _, _, rfl, rfl, List.filterMap_append, fun port => ?_, nofun⟩
      constructor
      · intro e
        split at e
        · cases e
        · cases e
      · rintro ⟨m, hm, -⟩
        cases hm
  | ok m =>
      have hmapped : ∀ port, Event.mapped m.external = .mapped port ↔
          ∃ m', (Except.ok m : Except Text Mapping) = .ok m' ∧ m'.external = port := by
        intro port
        constructor
        · intro e
          cases e
          exact ⟨m, rfl, rfl⟩
        · rintro ⟨m', hm, rfl⟩
          cases hm
          rfl
      have hwait : ∀ m', (Except.ok m : Except Text Mapping) = .ok m' →
          renewAfter m.lifetime = renewAfter m'.lifetime := by
        rintro m' e
        cases e
        rfl
      dsimp only
      split
      · refine ⟨_, _, _, rfl, rfl, ?_, hmapped, hwait⟩
        rw [Session.heard, List.append_nil, List.filterMap_append]
        rfl
      · obtain ⟨_, x, hx, hnone⟩ := externalAddress_spec gateway p.address
        rw [hx]
        refine ⟨_, _, _, rfl, rfl, ?_, hmapped, hwait⟩
        rw [Session.heard, List.filterMap_append, List.filterMap_append,
          List.filterMap_cons_none hnone, List.filterMap_nil, List.append_nil]
        rfl

/-- What a step leaves of the lease and adds to what was heard is what its renewal does. -/
theorem LeaseStep.spec {gateway : Ipv4Addr} {s s' : Session} {p : Pass}
    (h : LeaseStep gateway s p s') :
    ∃ r lease' new, Renewal gateway p s.lease r lease' new ∧ s'.lease = lease' ∧
      s'.heard = s.heard ++ new := by
  obtain ⟨-, event, wait, hp⟩ := h
  obtain ⟨r, lease', asked, hren, hend⟩ := renew_spec gateway p s.lease
  obtain ⟨s₁, event₁, wait₁, hp₁, hlease, hheard, -⟩ := leasePass_spec hren
  rw [hp] at hp₁
  cases hp₁
  exact ⟨r, lease', _, hend, hlease, hheard⟩

end Tunnel.Portmap
