import Tunnel.Inspect.Monitor
import Tunnel.Probe.Scan
import Tunnel.Support.Rollup

/-!
# Inspect — The view that is published

`build_snapshot`: one pass over the live table makes a row for each flow and rolls the flows up by
host, by remote port and by label; the rows are then sorted by bytes and truncated.

The maps are walked in the orders of `Walks`.  A rate that is a sum is the list of what it is the sum
of, in order.
-/

namespace Tunnel.Inspect
open Support Text
open Probe (serviceName)

def MAX_FLOWS : ℕ := 256
def MAX_HOSTS : ℕ := 128
def MAX_PORTS : ℕ := 64

/-- `u64::MAX`. -/
def U64_MAX : ℕ := 2 ^ 64 - 1

/-! ### Rows -/

/-- "a.b.c.0/24" or "xxxx:xxxx:xxxx:xxxx::/64". -/
def prefixLabel (ip : IpAddr) : Text :=
  match prefixBase ip with
  | .v4 b => b.display ++ lit "/24"
  | .v6 b => b.display ++ lit "/64"

/-- `ip:port`, bracketing a v6 literal. -/
def fmtEndpoint (ip : IpAddr) (port : UInt16) : Text :=
  if port = 0 then ip.display
  else match ip with
    | .v4 ip => ip.display ++ [':'] ++ decimal port.toNat
    | .v6 ip => ['['] ++ ip.display ++ lit "]:" ++ decimal port.toNat

/-- `now.duration_since(f.last_seen).as_millis() as u64`. -/
def Flow.idleMs (f : Flow) (now : Instant) : ℕ :=
  durationSince now f.lastSeen / 1000000 % (U64_MAX + 1)

structure FlowRow where
  remote : Text
  proto : String
  app : String
  up : ℕ
  down : ℕ
  rate : Rate
  idleMs : ℕ
  status : String
  peer : UInt32
  localPort : UInt16
  prefixText : Text
  asn : Option UInt32
  org : String
  origin : String
deriving DecidableEq

structure HostRow where
  ip : Text
  app : String
  flows : ℕ
  up : ℕ
  down : ℕ
  rate : List Rate
  idleMs : ℕ
  peer : UInt32
  asn : Option UInt32
deriving DecidableEq

structure PortRow where
  port : UInt16
  l4 : String
  service : Text
  flows : ℕ
  up : ℕ
  down : ℕ
  rate : List Rate
deriving DecidableEq

structure AppRow where
  name : String
  bytes : ℕ
  flows : ℕ
deriving DecidableEq

def FlowRow.bytes (r : FlowRow) : ℕ := r.up + r.down
def HostRow.bytes (r : HostRow) : ℕ := r.up + r.down
def PortRow.bytes (r : PortRow) : ℕ := r.up + r.down

structure TrafficSnapshot where
  totalUp : ℕ
  totalDown : ℕ
  pktsUp : ℕ
  pktsDown : ℕ
  rateUp : Rate
  rateDown : Rate
  upSeries : List Rate
  downSeries : List Rate
  activeFlows : ℕ
  tcpFlows : ℕ
  udpFlows : ℕ
  archivedFlows : ℕ
  flows : List FlowRow
  hosts : List HostRow
  ports : List PortRow
  apps : List AppRow
deriving DecidableEq

/-! ### The pass over the live table -/

/-- Accumulator for the per-host rollup. -/
structure HostAcc where
  app : String
  flows : ℕ
  up : ℕ
  down : ℕ
  rate : List Rate
  idleMs : ℕ
  topBytes : ℕ
  peer : UInt32
  asn : Option UInt32
deriving DecidableEq

/-- Accumulator for the per-service rollup. -/
structure PortAcc where
  flows : ℕ
  up : ℕ
  down : ℕ
  rate : List Rate
deriving DecidableEq

/-- A flow that the pass visits, with what is remembered of its host. -/
structure Visited where
  key : FlowKey
  flow : Flow
  peer : Option PeerEntry
deriving DecidableEq

namespace Visited

def peerId (v : Visited) : UInt32 := (v.peer.map (·.id)).getD 0

def asn (v : Visited) : Option AsnInfo := v.peer.bind (·.asn)

def bytes (v : Visited) : ℕ := v.flow.up + v.flow.down

def row (v : Visited) (now : Instant) : FlowRow where
  remote := fmtEndpoint v.key.remoteIp v.key.remotePort
  proto := v.key.l4
  app := v.flow.app.label
  up := v.flow.up
  down := v.flow.down
  rate := v.flow.rate
  idleMs := v.flow.idleMs now
  status := v.flow.status.label
  peer := v.peerId
  localPort := v.key.localPort
  prefixText := prefixLabel v.key.remoteIp
  asn := v.asn.map (·.asn)
  org := (v.asn.map (·.org)).getD ""
  origin := v.flow.origin.label

/-- The accumulator of a host that has none. -/
def newHost (v : Visited) : HostAcc where
  app := ""
  flows := 0
  up := 0
  down := 0
  rate := []
  idleMs := U64_MAX
  topBytes := 0
  peer := v.peerId
  asn := v.asn.map (·.asn)

/-- One more flow to a host; the label is that of the heaviest. -/
def addHost (now : Instant) (v : Visited) (h : HostAcc) : HostAcc :=
  let h := { h with
    flows := h.flows + 1
    up := h.up + v.flow.up
    down := h.down + v.flow.down
    rate := h.rate ++ [v.flow.rate]
    idleMs := min h.idleMs (v.flow.idleMs now) }
  if h.topBytes ≤ v.bytes then { h with topBytes := v.bytes, app := v.flow.app.label } else h

def newPort (_ : Visited) : PortAcc := ⟨0, 0, 0, []⟩

def addPort (v : Visited) (p : PortAcc) : PortAcc where
  flows := p.flows + 1
  up := p.up + v.flow.up
  down := p.down + v.flow.down
  rate := p.rate ++ [v.flow.rate]

/-- The service a flow is rolled up under. -/
def service (v : Visited) : String × UInt16 := (v.key.l4, v.key.remotePort)

end Visited

structure Rollups where
  flows : List FlowRow
  hosts : Table IpAddr HostAcc
  ports : Table (String × UInt16) PortAcc
  appFlows : Counters String
  tcpFlows : ℕ
  udpFlows : ℕ

namespace Rollups

def empty : Rollups := ⟨[], ∅, ∅, ∅, 0, 0⟩

/-- One turn of the pass. -/
def visit (now : Instant) (r : Rollups) (v : Visited) : Rollups where
  flows := r.flows ++ [v.row now]
  hosts := upsert r.hosts v.key.remoteIp v.newHost (v.addHost now)
  ports := if v.key.remotePort ≠ 0 then upsert r.ports v.service v.newPort v.addPort else r.ports
  appFlows := r.appFlows.add v.flow.app.label 1
  tcpFlows := if v.key.l4 = "TCP" then r.tcpFlows + 1 else r.tcpFlows
  udpFlows := if v.key.l4 = "UDP" then r.udpFlows + 1 else r.udpFlows

end Rollups

/-- The pass, in the order of `ks`. -/
def Inner.pass (s : Inner) (now : Instant) : List FlowKey → Rollups → Checked Rollups
  | [], r => return r
  | k :: ks, r => do
    match s.flows.lookup k with
    | none => s.pass now ks r
    | some flow => s.pass now ks (r.visit now ⟨k, flow, ← s.peers.get k.remoteIp⟩)

/-! ### The view -/

def HostAcc.row (ip : IpAddr) (a : HostAcc) : HostRow where
  ip := ip.display
  app := a.app
  flows := a.flows
  up := a.up
  down := a.down
  rate := a.rate
  idleMs := if a.idleMs = U64_MAX then 0 else a.idleMs
  peer := a.peer
  asn := a.asn

def PortAcc.row (service : String × UInt16) (a : PortAcc) : PortRow where
  port := service.2
  l4 := service.1
  service := serviceName service.2
  flows := a.flows
  up := a.up
  down := a.down
  rate := a.rate

/-- The orders in which the maps are walked. -/
structure Walks where
  flows : List FlowKey
  hosts : List IpAddr
  ports : List (String × UInt16)
  apps : List String

/-- A row for each entry of a map, in the order of `ks`. -/
def rowsOf {K A R : Type} [DecidableEq K] (row : K → A → R) (t : Table K A) (ks : List K) : List R :=
  ks.filterMap fun k => (t.lookup k).map (row k)

def buildSnapshot (s : Inner) (now : Instant) (walks : Walks) : Checked TrafficSnapshot := do
  let r ← s.pass now walks.flows .empty
  let apps := rowsOf (fun name bytes => ⟨name, bytes, r.appFlows.get name⟩) s.protoBytes walks.apps
  return {
    totalUp := s.totalUp
    totalDown := s.totalDown
    pktsUp := s.pktsUp
    pktsDown := s.pktsDown
    rateUp := s.upSeries.getLast?.getD ⟨0, 1⟩
    rateDown := s.downSeries.getLast?.getD ⟨0, 1⟩
    upSeries := s.upSeries
    downSeries := s.downSeries
    activeFlows := s.flows.size
    tcpFlows := r.tcpFlows
    udpFlows := r.udpFlows
    archivedFlows := s.archive.length
    flows := heaviest FlowRow.bytes MAX_FLOWS r.flows
    hosts := heaviest HostRow.bytes MAX_HOSTS (rowsOf HostAcc.row r.hosts walks.hosts)
    ports := heaviest PortRow.bytes MAX_PORTS (rowsOf PortAcc.row r.ports walks.ports)
    apps := apps.mergeSort fun a b => b.bytes ≤ a.bytes }

end Tunnel.Inspect
