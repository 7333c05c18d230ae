import Tunnel.Inspect.Arena
import Tunnel.Inspect.Parse
import Tunnel.Support.Counters
import Tunnel.Support.Runs

/-!
# Inspect — The traffic monitor

`TrafficMonitor` without its lock and its rendered view: the counters, the live table, the archive
ring and the host arena, with the operations on them.  Each call reads the clock once, and is given
the instant it reads.

Counters are natural numbers.  A rate is the bytes and the nanoseconds it is the quotient of, which
the source keeps as a float.  The subtraction of `relabel` is a parameter of the operations
(`Subtraction`): `saturating` is the source's.

`tick` walks the live table in the order of its hash map.  `Enumerates` says of a list that it is
such an order.
-/

namespace Tunnel.Inspect
open Support

def SERIES_LEN : ℕ := 120
def FLOW_IDLE_EVICT : ℕ := secs 90
def MAX_LIVE_FLOWS : ℕ := 8192
def MAX_ARCHIVE : ℕ := 65536
def PEER_ARENA : ℕ := MAX_LIVE_FLOWS
def OWN_MARK_TTL : ℕ := secs 30
def ASN_CACHE_MAX : ℕ := 4096

/-! ### State -/

/-- Bytes over nanoseconds. -/
structure Rate where
  bytes : ℕ
  nanos : ℕ
deriving DecidableEq, Repr

structure FlowKey where
  remoteIp : IpAddr
  remotePort : UInt16
  localPort : UInt16
  l4 : String
deriving DecidableEq

structure Flow where
  app : AppProto
  up : ℕ
  down : ℕ
  pkts : ℕ
  firstSeen : Instant
  lastSeen : Instant
  lastTotal : ℕ
  rate : Rate
  status : FlowStatus
  origin : Origin
deriving DecidableEq

/-- A flow's lifetime totals.  `remote` is the endpoint, before it is formatted. -/
structure FlowRecord where
  remote : IpAddr × UInt16
  l4 : String
  app : String
  localPort : UInt16
  up : ℕ
  down : ℕ
  pkts : ℕ
  first : Instant
  last : Instant
  status : String
  peer : UInt32
  asn : Option UInt32
  origin : String
deriving DecidableEq

structure Inner where
  totalUp : ℕ
  totalDown : ℕ
  pktsUp : ℕ
  pktsDown : ℕ
  accUp : ℕ
  accDown : ℕ
  upSeries : List Rate
  downSeries : List Rate
  flows : Table FlowKey Flow
  archive : List FlowRecord
  archiveDropped : ℕ
  protoBytes : Counters String
  peers : PeerArena
  own : Table FlowKey Instant
  asnCache : Table IpAddr (Option AsnInfo)
  lastTick : Instant
  wallBase : Instant
  monoBase : Instant

/-- A monitor built at `now`, with a host arena of `arena` slots. -/
def Inner.new (now wallBase : Instant) (arena : ℕ) : Inner where
  totalUp := 0
  totalDown := 0
  pktsUp := 0
  pktsDown := 0
  accUp := 0
  accDown := 0
  upSeries := List.replicate SERIES_LEN ⟨0, 1⟩
  downSeries := List.replicate SERIES_LEN ⟨0, 1⟩
  flows := ∅
  archive := []
  archiveDropped := 0
  protoBytes := ∅
  peers := .new arena
  own := ∅
  asnCache := ∅
  lastTick := now
  wallBase
  monoBase := now

/-- Convert a live flow to its archival record. -/
def recordOf (k : FlowKey) (f : Flow) (wallBase monoBase : Instant) (peers : PeerArena) :
    Checked FlowRecord := do
  let wall (t : Instant) : Instant := wallBase + durationSince t monoBase
  let peer ← peers.get k.remoteIp
  return {
    remote := (k.remoteIp, k.remotePort)
    l4 := k.l4
    app := f.app.label
    localPort := k.localPort
    up := f.up
    down := f.down
    pkts := f.pkts
    first := wall f.firstSeen
    last := wall f.lastSeen
    status := f.status.label
    peer := (peer.map (·.id)).getD 0
    asn := (peer.bind (·.asn)).map (·.asn)
    origin := f.origin.label }

/-! ### Labels that change -/

/-- A subtraction that may panic. -/
abbrev Subtraction := ℕ → ℕ → Checked ℕ

/-- `a.saturating_sub(b)`. -/
def saturating : Subtraction := fun a b => .ok (a - b)

/-- `a - b`, which panics where `saturating` would saturate. -/
def exact : Subtraction := fun a b => if b ≤ a then .ok (a - b) else .error .underflow

/-- Change a flow's label and move its previously counted bytes with it. -/
def relabel (sub : Subtraction) (flow : Flow) (protoBytes : Counters String) (app : AppProto) :
    Checked (Flow × Counters String) := do
  let hist := flow.up + flow.down
  if 0 < hist then
    let old ← sub (protoBytes.get flow.app.label) hist
    let protoBytes : Counters String := protoBytes.insert flow.app.label old
    return ({ flow with app }, protoBytes.add app.label hist)
  else return ({ flow with app }, protoBytes)

/-- Adopt a label that is strictly more confident than the flow's. -/
def upgrade (sub : Subtraction) (flow : Flow) (protoBytes : Counters String) (peers : PeerArena)
    (remoteIp : IpAddr) (app : AppProto) (now : Instant) :
    Checked (Flow × Counters String × PeerArena) := do
  if flow.app.rank < app.rank then
    let (flow, protoBytes) ← relabel sub flow protoBytes app
    let (_, peers) ← peers.touch remoteIp app.family now
    return (flow, protoBytes, peers)
  else return (flow, protoBytes, peers)

/-- Relabel an obfuscated flow to a host known to torrent. -/
def correlate (sub : Subtraction) (flow : Flow) (protoBytes : Counters String) (peers : PeerArena)
    (remoteIp : IpAddr) : Checked (Flow × Counters String) := do
  if flow.app = .obfuscated then
    if ← peers.isTorrenting remoteIp then relabel sub flow protoBytes .obfuscatedBt
    else return (flow, protoBytes)
  else return (flow, protoBytes)

namespace Inner

/-! ### Packets -/

/-- The packet in the global counters. -/
def count (s : Inner) (dir : Direction) (len : ℕ) : Inner :=
  match dir with
  | .up =>
    { s with
      totalUp := s.totalUp + len
      accUp := s.accUp + len
      pktsUp := s.pktsUp + 1 }
  | .down =>
    { s with
      totalDown := s.totalDown + len
      accDown := s.accDown + len
      pktsDown := s.pktsDown + 1 }

/-- The flow a packet belongs to, with its endpoints chosen by direction. -/
def keyOf (dir : Direction) (p : ParsedPacket) : FlowKey :=
  match dir with
  | .up => ⟨p.dstIp, p.dstPort, p.srcPort, p.l4.label⟩
  | .down => ⟨p.srcIp, p.srcPort, p.dstPort, p.l4.label⟩

/-- The row of `key`, opened if the table does not hold it. -/
def entry (s : Inner) (key : FlowKey) (app : AppProto) (now : Instant) :
    Checked (Flow × PeerArena × Table FlowKey Instant) := do
  match s.flows.lookup key with
  | some flow => return (flow, s.peers, s.own)
  | none =>
    let (_, peers) ← s.peers.touch key.remoteIp app.family now
    let origin := if (s.own.lookup key).isSome then .intel else .host
    return ({
      app
      up := 0
      down := 0
      pkts := 0
      firstSeen := now
      lastSeen := now
      lastTotal := 0
      rate := ⟨0, 1⟩
      status := .active
      origin }, peers, s.own.erase key)

/-- The row with the packet's bytes. -/
def counted (flow : Flow) (dir : Direction) (len : ℕ) (now : Instant) : Flow :=
  match dir with
  | .up => { flow with up := flow.up + len, pkts := flow.pkts + 1, lastSeen := now }
  | .down => { flow with down := flow.down + len, pkts := flow.pkts + 1, lastSeen := now }

/-- The live table is full, and does not hold the packet's flow. -/
def declines (s : Inner) (dir : Direction) (p : ParsedPacket) : Prop :=
  MAX_LIVE_FLOWS ≤ s.flows.size ∧ s.flows.lookup (keyOf dir p) = none

instance (s : Inner) (dir : Direction) (p : ParsedPacket) : Decidable (s.declines dir p) :=
  inferInstanceAs (Decidable (_ ∧ _))

/-- The packet in its flow's row, and under the label the flow then has. -/
def recordRow (sub : Subtraction) (s : Inner) (dir : Direction) (p : ParsedPacket) (now : Instant) :
    Checked Inner := do
  let key := keyOf dir p
  let (flow, peers, own) ← s.entry key p.app now
  let (flow, protoBytes, peers) ← upgrade sub flow s.protoBytes peers key.remoteIp p.app now
  let (flow, protoBytes) ← correlate sub flow protoBytes peers key.remoteIp
  return { s with
    flows := s.flows.insert key (counted flow dir p.len now)
    protoBytes := protoBytes.add flow.app.label p.len
    peers
    own }

/-- `record`, from the parsed packet on. -/
def recordParsed (sub : Subtraction) (s : Inner) (dir : Direction) (p : ParsedPacket)
    (now : Instant) : Checked Inner :=
  let s := s.count dir p.len
  if s.declines dir p then return { s with protoBytes := s.protoBytes.add p.app.label p.len }
  else s.recordRow sub dir p now

def record [Entropy] (sub : Subtraction) (s : Inner) (dir : Direction) (pkt : Bytes)
    (now : Instant) : Checked Inner := do
  let some p ← parse pkt | return s
  s.recordParsed sub dir p now

/-! ### The tick -/

/-- `push_back`, and `pop_front` while there are more than `SERIES_LEN`. -/
def pushSeries (series : List Rate) (r : Rate) : List Rate :=
  (series ++ [r]).drop (series.length + 1 - SERIES_LEN)

def isIdle (now : Instant) (f : Flow) : Bool := FLOW_IDLE_EVICT ≤ durationSince now f.lastSeen

/-- Move one flow to the archive.  Also returns its record. -/
def archiveFlow (s : Inner) (k : FlowKey) : Checked (Inner × List FlowRecord) := do
  match s.flows.lookup k with
  | none => return (s, [])
  | some f =>
    let r ← recordOf k f s.wallBase s.monoBase s.peers
    let full := MAX_ARCHIVE ≤ s.archive.length
    return ({ s with
      flows := s.flows.erase k
      archive := (if full then s.archive.tail else s.archive) ++ [r]
      archiveDropped := if full then s.archiveDropped + 1 else s.archiveDropped }, [r])

/-- Move these flows to the archive.  Also returns their records, in order. -/
def sweep : List FlowKey → Inner → Checked (Inner × List FlowRecord)
  | [], s => return (s, [])
  | k :: ks, s => do
    let (s, r) ← s.archiveFlow k
    let (s, rs) ← sweep ks s
    return (s, r ++ rs)

/-- One row of the second walk of `tick`. -/
def refreshFlow (sub : Subtraction) (s : Inner) (now : Instant) (dt : ℕ) (k : FlowKey) :
    Checked Inner := do
  match s.flows.lookup k with
  | none => return s
  | some f =>
    let total := f.up + f.down
    let f := { f with rate := ⟨total - f.lastTotal, dt⟩, lastTotal := total }
    let peers ← s.peers.refresh k.remoteIp f.app.family now
    let (f, protoBytes) ← correlate sub f s.protoBytes peers k.remoteIp
    return { s with flows := s.flows.insert k f, protoBytes, peers }

def refreshAll (sub : Subtraction) (now : Instant) (dt : ℕ) : List FlowKey → Inner → Checked Inner
  | [], s => return s
  | k :: ks, s => do refreshAll sub now dt ks (← s.refreshFlow sub now dt k)

/-- The series and the clock advance; at least a millisecond counts as passed. -/
def advance (s : Inner) (now : Instant) : Inner :=
  let dt := max (durationSince now s.lastTick) 1000000
  { s with
    lastTick := now
    accUp := 0
    accDown := 0
    upSeries := pushSeries s.upSeries ⟨s.accUp, dt⟩
    downSeries := pushSeries s.downSeries ⟨s.accDown, dt⟩ }

/-- The idle flows, in the order of the table. -/
def idleKeys (s : Inner) (now : Instant) (order : List FlowKey) : List FlowKey :=
  order.filter fun k => (s.flows.lookup k).any (isIdle now)

/-- `tick`, with the orders of its two walks.  Also returns the records it archives, in order. -/
def tick (sub : Subtraction) (s : Inner) (now : Instant) (order visit : List FlowKey) :
    Checked (Inner × List FlowRecord) := do
  let dt := max (durationSince now s.lastTick) 1000000
  let s := s.advance now
  let (s, records) ← sweep (s.idleKeys now order) s
  let s := { s with own := s.own.retain fun _ t => durationSince now t < OWN_MARK_TTL }
  let s ← refreshAll sub now dt visit s
  return (s, records)

/-! ### The other calls -/

/-- The label of `FlowKey.l4` for TCP or UDP. -/
def l4Of (tcp : Bool) : String := if tcp then "TCP" else "UDP"

def noteFlow (s : Inner) (tcp : Bool) (remoteIp : Ipv4Addr) (remotePort localPort : UInt16)
    (status : FlowStatus) : Inner :=
  let key : FlowKey := ⟨.v4 remoteIp, remotePort, localPort, l4Of tcp⟩
  match s.flows.lookup key with
  | some f => { s with flows := s.flows.insert key { f with status } }
  | none => s

def markOwn (s : Inner) (remoteIp : IpAddr) (remotePort localPort : UInt16) (tcp : Bool)
    (now : Instant) : Inner :=
  let key : FlowKey := ⟨remoteIp, remotePort, localPort, l4Of tcp⟩
  match s.flows.lookup key with
  | some f => { s with flows := s.flows.insert key { f with origin := .intel } }
  | none => { s with own := s.own.insert key now }

/-- The walk of `enrich_candidate`: the first host of an unknown block, and before it the hosts of
known ones. -/
def findCandidate (asnCache : Table IpAddr (Option AsnInfo)) :
    List PeerEntry → Option IpAddr × List (IpAddr × Option AsnInfo)
  | [] => (none, [])
  | e :: es =>
    if e.asn.isSome || !isLookupWorthy e.ip then findCandidate asnCache es
    else match asnCache.lookup (prefixBase e.ip) with
      | some info =>
        let (found, cached) := findCandidate asnCache es
        (found, (e.ip, info) :: cached)
      | none => (some e.ip, [])

/-- Fill in what the cache knows. -/
def fillCached : List (IpAddr × Option AsnInfo) → PeerArena → Checked PeerArena
  | [], peers => return peers
  | (ip, some info) :: rest, peers => do fillCached rest (← peers.setAsn ip info)
  | (_, none) :: rest, peers => fillCached rest peers

def enrichCandidate (s : Inner) : Checked (Option IpAddr × Inner) := do
  let (found, cached) := findCandidate s.asnCache (← s.peers.iterMru)
  return (found, { s with peers := ← fillCached cached s.peers })

def enrich (s : Inner) (ip : IpAddr) (info : Option AsnInfo) : Checked Inner := do
  let asnCache := if ASN_CACHE_MAX ≤ s.asnCache.size then ∅ else s.asnCache
  let s := { s with asnCache := asnCache.insert (prefixBase ip) info }
  match info with
  | some info => return { s with peers := ← s.peers.setAsn ip info }
  | none => return s

end Inner

/-! ### Runs -/

inductive MonitorEvent where
  | record (dir : Direction) (pkt : Bytes) (now : Instant)
  | tick (now : Instant) (order visit : List FlowKey)
  | noteFlow (tcp : Bool) (remoteIp : Ipv4Addr) (remotePort localPort : UInt16)
      (status : FlowStatus)
  | markOwn (remoteIp : IpAddr) (remotePort localPort : UInt16) (tcp : Bool) (now : Instant)
  | enrichCandidate
  | enrich (ip : IpAddr) (info : Option AsnInfo)

/-- `ks` is an order in which a table's keys may be visited. -/
def Enumerates (ks : List FlowKey) (t : Table FlowKey Flow) : Prop :=
  ks.Nodup ∧ ∀ k, k ∈ ks ↔ t.lookup k ≠ none

/-- The state an event leads to. -/
def Inner.apply [Entropy] (sub : Subtraction) (s : Inner) : MonitorEvent → Checked Inner
  | .record dir pkt now => s.record sub dir pkt now
  | .tick now order visit => do return (← s.tick sub now order visit).1
  | .noteFlow tcp remoteIp remotePort localPort status =>
    return s.noteFlow tcp remoteIp remotePort localPort status
  | .markOwn remoteIp remotePort localPort tcp now =>
    return s.markOwn remoteIp remotePort localPort tcp now
  | .enrichCandidate => do return (← s.enrichCandidate).2
  | .enrich ip info => s.enrich ip info

/-- The orders of a tick's walks are orders of the live table, before and after the sweep. -/
def Ordered (s : Inner) : MonitorEvent → Prop
  | .tick now order visit => Enumerates order s.flows ∧
      Enumerates visit (s.flows.retain fun _ f => !Inner.isIdle now f)
  | _ => True

end Tunnel.Inspect
