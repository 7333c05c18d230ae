import Tunnel.Engine.KillSwitch
import Tunnel.Engine.Resolver
import Tunnel.Route
import Tunnel.Support.Runs

/-!
# Engine — A session on its host

`engine::run` with the launch before it and the wrapper of `main` around it, one guard at a time: the
preflight, the bring-up, the data path, and the teardown, which drops the guards from where the
bring-up got.  Between any two steps others may change the routes, the filters and the links of the
host, the process may be killed, the tripwire may fire, and the host may be restarted.

What the outside makes of a step is in its `Outcome`.
-/

namespace Tunnel.Engine
open Support Text Route

/-! ### The host -/

structure Host where
  os : Os
  net : Net
  fw : Firewall

/-- `IFACE_NAME`. -/
def ifaceName : Text := lit "tun0"

namespace Host

/-- `delete_link(name)`: what is set on a link, and the routes over it, go with the link. -/
def deleteLink (h : Host) (name : Text) : Host where
  os := { h.os with routes := h.os.routes.retain fun _ hop => hop.iface ≠ name }
  net := { h.net with links := h.net.links.erase name }
  fw := h.fw

def createLink (h : Host) (name : Text) : Host :=
  { h with net := { h.net with links := h.net.links.insert name .default } }

end Host

/-! ### Preflight -/

/-- What the checks find. -/
structure Facts where
  euid : ℕ
  /-- `/dev/net/tun` exists. -/
  tun : Bool
  /-- The error of opening it. -/
  tunClosed : Option Text
  ip : Bool
  nft : Bool
  probe : Nft
  /-- `nft list` works. -/
  lists : Bool
  clear : Nft
  resolvedLive : Bool

inductive PreflightError where
  | notRoot (euid : ℕ)
  | tunMissing
  | tunClosed (e : Text)
  | noTool (name package : Text)
  | noInet (e : Text)
  | locked
  | nft (e : Text)
  /-- systemd-resolved is not running and `/etc/resolv.conf` is unreadable. -/
  | noResolver
  /-- `/etc/resolv.conf` is a symlink to systemd-resolved, which is not running. -/
  | resolvedDead (target : Text)

/-- A table that is added, given a chain and deleted. -/
def probeScript : List NftCmd :=
  let probe := lit "tunnel_preflight"
  [.addTable probe, .addChain probe (lit "out") .output 0 .accept, .deleteTable probe]

def tableExists (facts : Facts) (fw : Firewall) (table : Text) : Bool :=
  facts.lists && (fw.lookup table).isSome

def clearStaleKillswitch (facts : Facts) (fw : Firewall) : Except PreflightError Unit × Firewall :=
  if tableExists facts fw killswitchTable then
    match nftApply facts.clear [.deleteTable killswitchTable] fw with
    | (.error e, fw) => (.error (.nft e), fw)
    | (.ok (), fw) => (.ok (), fw)
  else (.ok (), fw)

/-- The checks of the filter. -/
def preflightNft (facts : Facts) (fw : Firewall) : Except PreflightError Unit × Firewall :=
  if !facts.nft then (.error (.noTool (lit "nft") (lit "nftables")), fw)
  else
    match nftApply facts.probe probeScript fw with
    | (.error e, fw) => (.error (.noInet e), fw)
    | (.ok (), fw) =>
      if tableExists facts fw panicTable then (.error .locked, fw)
      else clearStaleKillswitch facts fw

def detectDnsBackend (facts : Facts) (conf : Conf) : Except PreflightError DnsBackend :=
  if facts.resolvedLive then .ok .systemdResolved
  else
    match conf with
    | .absent => .error .noResolver
    | .symlink target =>
      if lit "systemd" <:+: target then .error (.resolvedDead target) else .ok .resolvConf
    | .file _ => .ok .resolvConf

/-- `preflight::run`. -/
def preflight (facts : Facts) (capture : Bool) (h : Host) :
    Except PreflightError DnsBackend × Host :=
  if facts.euid ≠ 0 then (.error (.notRoot facts.euid), h)
  else if !facts.tun then (.error .tunMissing, h)
  else
    match facts.tunClosed with
    | some e => (.error (.tunClosed e), h)
    | none =>
      if !facts.ip then (.error (.noTool (lit "ip") (lit "iproute2")), h)
      else if !capture then (.ok .resolvConf, h)
      else
        match preflightNft facts h.fw with
        | (.error e, fw) => (.error e, { h with fw })
        | (.ok (), fw) => (detectDnsBackend facts h.net.conf, { h with fw })

/-! ### A session -/

/-- `FullTunnel::default_gateway_for(tun_ip)`. -/
def defaultGatewayFor (tunIp : Ipv4Addr) : Ipv4Addr :=
  let gw := { tunIp with d := 1 }
  if gw = tunIp then { tunIp with d := 254 } else gw

/-- What the session is launched with. -/
structure Launch where
  installRoute : Bool
  /-- The endpoint of the WireGuard exit. -/
  wireguard : Option Text
  tunIp : Ipv4Addr
  dns : Ipv4Addr
  egress : EgressPin
  origGateway : Text

inductive EngineError where
  | wireguard (e : Text)
  | tun (e : Text)
  /-- "failed to pin the resolver to the tunnel ({e:#}); refusing to run with capture, …" -/
  | resolver (e : Text)
  /-- "failed to arm kill switch ({e}); refusing to run with an unprotected uplink …" -/
  | killSwitch (e : KillSwitchError)
  | dataPath (e : Text)
deriving DecidableEq

/-- The fields of `Status` that the engine and its wrapper write. -/
structure Published where
  running : Bool
  exit : Text
  fullTunnel : Bool
  dns : Option Ipv4Addr
  startedAt : Option Instant
  lastError : Option EngineError

def Published.default : Published := ⟨false, [], false, none, none, none⟩

/-- The guards that `run` holds. -/
structure Guards where
  route : Option FullTunnel
  dns : Option Dns
  killSwitch : Option KillSwitch
  tripwire : Bool

/-- The next step of `run`, or of the wrapper. -/
inductive Point where
  | resolveExit
  | createTun
  | installRoute
  | pinResolver
  | armKillSwitch
  | spawnTripwire
  | publish
  | serving
  | dropTripwire
  | dropKillSwitch
  | dropResolver
  | dropRoute
  | removeTun
  | report
  | finished
deriving DecidableEq

structure Session where
  launch : Launch
  backend : DnsBackend
  guards : Guards
  point : Point
  result : Except EngineError Unit
  status : Published

/-- What the outside makes of a step. -/
structure Outcome where
  /-- The error in the WireGuard settings. -/
  settings : Option Text
  /-- The error of `TunIo::new`. -/
  tun : Option Text
  routes : Route.Outcomes
  faults : Faults
  undo : Faults
  nft : Nft
  now : Instant
  /-- The error that the data path ends with. -/
  dataPath : Option Text

namespace Session

def new (launch : Launch) (backend : DnsBackend) : Session where
  launch
  backend
  guards := ⟨none, none, none, false⟩
  point := .resolveExit
  result := .ok ()
  status := .default

/-- The TUN is there. -/
def hasTun (s : Session) : Bool :=
  match s.point with
  | .resolveExit | .createTun | .report | .finished => false
  | _ => true

def exitLabel (s : Session) : Text :=
  match s.launch.wireguard with
  | some endpoint => lit "WireGuard → " ++ endpoint
  | none => lit "Direct (uplink)"

/-- `bail!`, or `?`: the guards that there are go, from this point on. -/
def bail (s : Session) (e : EngineError) (point : Point) : Session :=
  { s with result := .error e, point }

section
variable (o : Outcome) (s : Session) (h : Host)

def resolveExit : Session × Host :=
  match s.launch.wireguard, o.settings with
  | some _, some e => (s.bail (.wireguard e) .report, h)
  | _, _ => ({ s with point := .createTun }, h)

/-- What is left of an earlier run is removed first. -/
def createTun : Session × Host :=
  let h := h.deleteLink ifaceName
  match o.tun with
  | some e => (s.bail (.tun e) .report, h)
  | none => ({ s with point := .installRoute }, h.createLink ifaceName)

/-- The server is loopback, so no host route is installed.  Without the routes the engine runs all
the same, and captures nothing. -/
def installRoute : Session × Host :=
  if s.launch.installRoute then
    match FullTunnel.install o.routes unixIfaceId (.v4 ⟨127, 0, 0, 1⟩) ifaceName s.launch.tunIp
      (defaultGatewayFor s.launch.tunIp) s.launch.origGateway s.launch.egress.device h.os with
    | (.ok guard, os) =>
      ({ s with guards.route := some guard, point := .pinResolver }, { h with os })
    | (.error _, os) => ({ s with point := .pinResolver }, { h with os })
  else ({ s with point := .pinResolver }, h)

def pinResolver : Session × Host :=
  if s.guards.route.isSome then
    match installDns o.faults o.undo ifaceName s.launch.dns s.backend h.net with
    | (.ok guard, net) =>
      ({ s with guards.dns := some guard, point := .armKillSwitch }, { h with net })
    | (.error e, net) => (s.bail (.resolver e) .dropRoute, { h with net })
  else ({ s with point := .armKillSwitch }, h)

def armKillSwitch : Session × Host :=
  if s.guards.route.isSome then
    match KillSwitch.install o.nft s.launch.egress h.fw with
    | (.ok guard, fw) =>
      ({ s with guards.killSwitch := some guard, point := .spawnTripwire }, { h with fw })
    | (.error e, fw) => (s.bail (.killSwitch e) .dropResolver, { h with fw })
  else ({ s with point := .spawnTripwire }, h)

def spawnTripwire : Session :=
  { s with guards.tripwire := s.guards.killSwitch.isSome, point := .publish }

def publish : Session :=
  { s with
    status := { s.status with
      running := true
      exit := s.exitLabel
      fullTunnel := s.launch.installRoute
      dns := some s.launch.dns
      startedAt := some o.now }
    point := .serving }

/-- The data path returns. -/
def serve : Session :=
  { s with
    result := match o.dataPath with
      | some e => .error (.dataPath e)
      | none => .ok ()
    point := .dropTripwire }

def dropTripwire : Session := { s with guards.tripwire := false, point := .dropKillSwitch }

def dropKillSwitch : Session × Host :=
  ({ s with guards.killSwitch := none, point := .dropResolver },
    match s.guards.killSwitch with
    | some guard => { h with fw := guard.drop o.nft h.fw }
    | none => h)

def dropResolver : Session × Host :=
  ({ s with guards.dns := none, point := .dropRoute },
    match s.guards.dns with
    | some guard => { h with net := revertDns o.undo guard h.net }
    | none => h)

def dropRoute : Session × Host :=
  ({ s with guards.route := none, point := .removeTun },
    match s.guards.route with
    | some guard => { h with os := guard.drop o.routes h.os }
    | none => h)

/-- `KeepAlive::shutdown`, or its drop. -/
def removeTun : Session × Host := ({ s with point := .report }, h.deleteLink ifaceName)

/-- The wrapper around the engine. -/
def report : Session :=
  { s with
    status := { s.status with
      running := false
      lastError := match s.result with
        | .error e => some e
        | .ok () => s.status.lastError }
    point := .finished }

def step : Session × Host :=
  match s.point with
  | .resolveExit => s.resolveExit o h
  | .createTun => s.createTun o h
  | .installRoute => s.installRoute o h
  | .pinResolver => s.pinResolver o h
  | .armKillSwitch => s.armKillSwitch o h
  | .spawnTripwire => (s.spawnTripwire, h)
  | .publish => (s.publish o, h)
  | .serving => (s.serve o, h)
  | .dropTripwire => (s.dropTripwire, h)
  | .dropKillSwitch => s.dropKillSwitch o h
  | .dropResolver => s.dropResolver o h
  | .dropRoute => s.dropRoute o h
  | .removeTun => s.removeTun h
  | .report => (s.report, h)
  | .finished => (s, h)

end

end Session

/-! ### What others do -/

/-- Somebody else sets or removes a route, a table of the filter, or what is set on a link. -/
inductive Edit where
  | route (dest : Prefix) (hop : Option Hop)
  | table (name : Text) (chains : Option (Chains Text Test))
  | link (name : Text) (dns : Option LinkDns)

namespace Edit

def apply (h : Host) : Edit → Host
  | .route dest none => { h with os := { h.os with routes := h.os.routes.erase dest } }
  | .route dest (some hop) => { h with os := { h.os with routes := h.os.routes.insert dest hop } }
  | .table name chains => { h with fw := h.fw.put name chains }
  | .link name none => { h with net := { h.net with links := h.net.links.erase name } }
  | .link name (some dns) => { h with net := { h.net with links := h.net.links.insert name dns } }

/-- The tables of the program and its link are left alone; any route may be injected. -/
def Foreign : Edit → Prop
  | .route _ _ => True
  | .table name _ => name ≠ killswitchTable ∧ name ≠ panicTable
  | .link name _ => name ≠ ifaceName

instance : (e : Edit) → Decidable e.Foreign
  | .route _ _ => inferInstanceAs (Decidable True)
  | .table name _ => inferInstanceAs (Decidable (name ≠ killswitchTable ∧ name ≠ panicTable))
  | .link name _ => inferInstanceAs (Decidable (name ≠ ifaceName))

end Edit

/-! ### The machine -/

/-- A host, and the process on it. -/
structure Machine where
  host : Host
  proc : Option Session

inductive Act where
  | launch (launch : Launch) (facts : Facts)
  | step (o : Outcome)
  /-- The tripwire has found a snooper. -/
  | trip (nft : Nft)
  /-- The process ends, killed or not; its guards are not dropped. -/
  | die
  /-- The host comes up again.  No filter of the program is kept over that. -/
  | reboot (host : Host)
  | edit (e : Edit)

namespace Machine

/-- Once the process is gone, so is its TUN. -/
def gone (m : Machine) (s : Session) : Machine where
  host := if s.hasTun then m.host.deleteLink ifaceName else m.host
  proc := none

def launched (m : Machine) (launch : Launch) (facts : Facts) : Option Machine :=
  match m.proc with
  | some _ => none
  | none =>
    match preflight facts launch.installRoute m.host with
    | (.error _, host) => some ⟨host, none⟩
    | (.ok backend, host) => some ⟨host, some (.new launch backend)⟩

def stepped (m : Machine) (o : Outcome) : Option Machine :=
  m.proc.map fun s =>
    let (s, host) := s.step o m.host
    ⟨host, some s⟩

/-- `nuke`. -/
def tripped (m : Machine) (nft : Nft) : Option Machine :=
  match m.proc with
  | none => none
  | some s =>
    if s.guards.tripwire then
      some (gone ⟨{ m.host with fw := (lockdown nft m.host.fw).2 }, m.proc⟩ s)
    else none

def rebooted (host : Host) : Option Machine :=
  if host.fw.lookup killswitchTable = none ∧ host.fw.lookup panicTable = none then
    some ⟨host, none⟩
  else none

def edited (m : Machine) (e : Edit) : Option Machine :=
  if e.Foreign then some { m with host := e.apply m.host } else none

def act (m : Machine) : Act → Option Machine
  | .launch launch facts => m.launched launch facts
  | .step o => m.stepped o
  | .trip nft => m.tripped nft
  | .die => m.proc.map m.gone
  | .reboot host => rebooted host
  | .edit e => m.edited e

/-- A host that the program has not run on. -/
def Fresh (m : Machine) : Prop :=
  m.host.fw.lookup killswitchTable = none ∧ m.host.fw.lookup panicTable = none ∧ m.proc = none

end Machine

def MachineStep (m : Machine) (a : Act) (m' : Machine) : Prop := m.act a = some m'

/-- What a host and its sessions come to, whatever order things happen in. -/
def MachineReachable : Machine → Prop := Reachable Machine.Fresh MachineStep

/-- What some acts lead to. -/
def Machine.after (m : Machine) : List Act → Option Machine
  | [] => some m
  | a :: acts => (m.act a).bind fun m => m.after acts

theorem Machine.run_after {m m' : Machine} {acts : List Act} (h : m.after acts = some m') :
    Run MachineStep m acts m' := by
  induction acts generalizing m with
  | nil => cases h; exact .refl _
  | cons a acts ih =>
      obtain ⟨m₁, hs, ht⟩ := Option.bind_eq_some_iff.mp h
      exact .more hs (ih ht)

/-! ### Nothing goes wrong -/

def Facts.fine : Facts :=
  ⟨0, true, none, true, true, ⟨none, []⟩, true, ⟨none, []⟩, false⟩

def Outcome.fine : Outcome :=
  ⟨none, none, fun _ => true, fun _ => .none, fun _ => .none, ⟨none, []⟩, 0, none⟩

/-- A host with a resolver, which nothing has been installed on. -/
def plainHost (resolv : Bytes) : Host := ⟨⟨∅, 0⟩, ⟨.file resolv, ∅, 0⟩, ∅⟩

/-- A launch on the built-in settings. -/
def directLaunch : Launch :=
  ⟨true, none, ⟨198, 18, 0, 1⟩, ⟨9, 9, 9, 9⟩, ⟨lit "eth0"⟩, lit "192.168.1.1"⟩

end Tunnel.Engine
