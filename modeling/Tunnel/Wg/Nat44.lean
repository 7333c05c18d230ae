import Tunnel.Support.Table
import Tunnel.Wg.Packet

/-!
# Wg — NAT44

The stateful NAT between the host's addresses and the WireGuard client address: the two hash maps
that hold its bindings, the fragment map, the rotating port cursor and the provider-forwarded port,
with the operations of `impl Nat` in the source's order.

An operation that mutates `self` or a packet returns the new value beside its result; one that
indexes a packet is `Checked`.  A match arm of the source that only reads is a function of its own
where it returns early (`outPorts`, `inPort`, `quotePort`); the `match` on `fwd.get` in
`translate_out` is `Nat44.bind`, and the resolution of a quote is `Nat44.resolveQuote`.

`NatOp` and `Nat44.step` are the calls the driver makes on one NAT, in any order.
-/

namespace Tunnel.Wg
open Support

def MAX_BINDINGS : ℕ := 16384

def TCP_IDLE : ℕ := secs 600
def UDP_IDLE : ℕ := secs 120
def ICMP_IDLE : ℕ := secs 60
def FRAG_IDLE : ℕ := secs 30

def PORT_LO : UInt16 := 1024
def PORT_HI : UInt16 := 65535

structure FwdKey where
  proto : UInt8
  src : Ipv4Addr
  sport : UInt16
  dst : Ipv4Addr
  dport : UInt16
deriving DecidableEq, Repr

structure RevKey where
  proto : UInt8
  port : UInt16
deriving DecidableEq, Repr

structure FragKey where
  src : Ipv4Addr
  ipId : UInt16
  proto : UInt8
deriving DecidableEq, Repr

structure Binding where
  src : Ipv4Addr
  sport : UInt16
  dst : Ipv4Addr
  dport : UInt16
  last : Instant
deriving DecidableEq, Repr

/-- The key of a binding of protocol `proto` in the outbound map. -/
def Binding.key (b : Binding) (proto : UInt8) : FwdKey := ⟨proto, b.src, b.sport, b.dst, b.dport⟩

structure Forward where
  host : Ipv4Addr
  port : UInt16
deriving DecidableEq, Repr

inductive Verdict where
  | translate
  | drop
  | exhausted
deriving DecidableEq, Repr

structure Nat44 where
  wgAddr : Ipv4Addr
  fwd : Table FwdKey UInt16
  rev : Table RevKey Binding
  frag : Table FragKey (Ipv4Addr × Instant)
  /-- The rotating allocation cursor. -/
  nextPort : UInt16
  forward : Option Forward
  forwardedIn : ℕ
deriving DecidableEq

/-- Addresses a remote exit can route a reply back from. -/
def routable (ip : Ipv4Addr) : Bool :=
  !(ip.isMulticast || ip.isBroadcast || ip.isLoopback || ip.isUnspecified || ip.isLinkLocal)

namespace Nat44

def new (wgAddr : Ipv4Addr) : Nat44 where
  wgAddr := wgAddr
  fwd := ∅
  rev := ∅
  frag := ∅
  nextPort := PORT_LO
  forward := none
  forwardedIn := 0

def setForward (nat : Nat44) (host : Ipv4Addr) (port : UInt16) : Nat44 :=
  { nat with forward := some { host, port } }

def clearForward (nat : Nat44) : Nat44 := { nat with forward := none }

def bindings (nat : Nat44) : ℕ := nat.rev.size

def forwardPort (nat : Nat44) : Option UInt16 := nat.forward.map (·.port)

/-! ### Allocation -/

/-- The forwarded port is reserved for TCP and UDP. -/
def reserved (nat : Nat44) (proto : UInt8) (port : UInt16) : Bool :=
  isTcpUdp proto && nat.forward.any fun f => f.port == port

/-- The cursor after `port`. -/
def cursorAfter (port : UInt16) : UInt16 := if port ≥ PORT_HI then PORT_LO else port + 1

/-- `(PORT_HI - PORT_LO) as u32 + 1`. -/
def span : ℕ := (PORT_HI - PORT_LO).toNat + 1

/-- The scanning loop of `alloc_port`, `n` rounds from the cursor. -/
def scanPorts (nat : Nat44) (proto : UInt8) : ℕ → UInt16 → Option UInt16 × UInt16
  | 0, cursor => (none, cursor)
  | n + 1, port =>
    if !nat.reserved proto port && (nat.rev.lookup ⟨proto, port⟩).isNone then
      (some port, cursorAfter port)
    else nat.scanPorts proto n (cursorAfter port)

def allocPort (nat : Nat44) (proto : UInt8) : Option UInt16 × Nat44 :=
  if nat.rev.size ≥ MAX_BINDINGS then (none, nat)
  else
    let (port, cursor) := nat.scanPorts proto span nat.nextPort
    (port, { nat with nextPort := cursor })

/-! ### Bindings -/

/-- The port of a key's binding, opening one if there is none. -/
def bind (nat : Nat44) (key : FwdKey) (now : Instant) : Option UInt16 × Nat44 :=
  match nat.fwd.lookup key with
  | some p => (some p, nat)
  | none =>
    match nat.allocPort key.proto with
    | (none, nat) => (none, nat)
    | (some p, nat) =>
      (some p, { nat with
        fwd := nat.fwd.insert key p
        rev := nat.rev.insert ⟨key.proto, p⟩ ⟨key.src, key.sport, key.dst, key.dport, now⟩ })

/-- `if let Some(b) = self.rev.get_mut(&k) { b.last = now; }` -/
def refresh (nat : Nat44) (k : RevKey) (now : Instant) : Nat44 :=
  match nat.rev.lookup k with
  | some b => { nat with rev := nat.rev.insert k { b with last := now } }
  | none => nat

def close (nat : Nat44) (proto : UInt8) (port : UInt16) : Nat44 :=
  match nat.rev.lookup ⟨proto, port⟩ with
  | some b => { nat with
      rev := nat.rev.erase ⟨proto, port⟩
      fwd := nat.fwd.erase (b.key proto) }
  | none => nat

def idleOf (proto : UInt8) : ℕ :=
  if proto = PROTO_TCP then TCP_IDLE else if proto = PROTO_UDP then UDP_IDLE else ICMP_IDLE

/-- The test of the sweep's `retain`. -/
def fresh (now : Instant) (k : RevKey) (b : Binding) : Bool :=
  durationSince now b.last < idleOf k.proto

def expire (nat : Nat44) (now : Instant) : ℕ × Nat44 :=
  let dropped := (nat.rev.retain fun k b => !fresh now k b).entries.map fun e => e.2.key e.1.proto
  let rev := nat.rev.retain (fresh now)
  (nat.rev.size - rev.size, { nat with
    rev
    fwd := nat.fwd.eraseAll dropped
    frag := nat.frag.retain fun _ seen => durationSince now seen.2 < FRAG_IDLE })

end Nat44

/-! ### Host to peer -/

/-- What `translate_out` reads from the L4 header. -/
inductive OutL4 where
  | drop
  | stateless
  | ports (sport dport : UInt16)

def outPorts (proto : UInt8) (l4 : Bytes) : Checked OutL4 := do
  if isTcpUdp proto then
    if l4.length < 8 then return .drop
    return .ports (← wordAt l4 0) (← wordAt l4 2)
  else if proto = PROTO_ICMP then
    if l4.length < 8 then return .drop
    -- Echo request: the identifier is the demultiplexing key.
    if (← nth l4 0) = 8 then return .ports (← wordAt l4 4) 0
    return .stateless
  else return .stateless

/-- A RST flag in the TCP header at `ihl`. -/
def hasRst (proto : UInt8) (pkt : Bytes) (ihl : ℕ) : Bool :=
  proto == PROTO_TCP && (tcpFlags pkt ihl).any fun f => f &&& 0x04 != 0

namespace Nat44

def translateOut (nat : Nat44) (pkt : Bytes) (now : Instant) :
    Checked (Verdict × Nat44 × Bytes) := do
  let some h ← Ipv4Hdr.parse pkt | return (.drop, nat, pkt)
  if !routable h.dst || h.dst == nat.wgAddr then return (.drop, nat, pkt)
  let newSrc := nat.wgAddr
  if h.fragOffset ≠ 0 then
    return (.translate, nat, ← rewriteAddr pkt h.ihl .src h.src newSrc none)
  match ← outPorts h.proto (← sliceFrom pkt h.ihl) with
  | .drop => return (.drop, nat, pkt)
  | .stateless => return (.translate, nat, ← rewriteAddr pkt h.ihl .src h.src newSrc none)
  | .ports sport dport =>
    if nat.forward.any fun f => isTcpUdp h.proto && h.src == f.host && sport == f.port then
      return (.translate, nat, ← rewriteAddr pkt h.ihl .src h.src newSrc (some h.proto))
    let key : FwdKey := { proto := h.proto, src := h.src, sport, dst := h.dst, dport }
    match nat.bind key now with
    | (none, nat) => return (.exhausted, nat, pkt)
    | (some port, nat) =>
      let nat := nat.refresh ⟨h.proto, port⟩ now
      let pkt ← rewriteAddr pkt h.ihl .src h.src newSrc (some h.proto)
      let pkt ← rewritePort pkt h.ihl .src h.proto sport port
      let nat := if hasRst h.proto pkt h.ihl then nat.close h.proto port else nat
      return (.translate, nat, pkt)

end Nat44

/-! ### Peer to host -/

/-- What `translate_in` reads from the L4 header. -/
inductive InL4 where
  | drop
  | icmpError
  | port (p : UInt16)

def inPort (proto : UInt8) (l4 : Bytes) : Checked InL4 := do
  if isTcpUdp proto then
    if l4.length < 8 then return .drop
    return .port (← wordAt l4 2)
  else if proto = PROTO_ICMP then
    if l4.length < 8 then return .drop
    let kind ← nth l4 0
    -- Echo reply: identifier is the key.
    if kind = 0 then return .port (← wordAt l4 4)
    if kind = 3 ∨ kind = 4 ∨ kind = 5 ∨ kind = 11 ∨ kind = 12 then return .icmpError
    return .drop
  else return .drop

/-- The source port, or echo identifier, of a quoted packet. -/
def quotePort (proto : UInt8) (pkt : Bytes) (innerL4 : ℕ) : Checked (Option UInt16) := do
  if isTcpUdp proto then
    match getRange pkt innerL4 (innerL4 + 2) with
    | some b => return some (← wordAt b 0)
    | none => return none
  else if proto = PROTO_ICMP then
    match getRange pkt innerL4 (innerL4 + 8) with
    | some b => if (← nth b 0) = 8 then return some (← wordAt b 4) else return none
    | none => return none
  else return none

namespace Nat44

/-- The host endpoint a quote names: the forward's, or a binding's, which is refreshed. -/
def resolveQuote (nat : Nat44) (proto : UInt8) (port : UInt16) (now : Instant) :
    Option (Ipv4Addr × UInt16) × Nat44 :=
  match nat.forward.filter fun f => isTcpUdp proto && port == f.port with
  | some f => (some (f.host, f.port), nat)
  | none =>
    match nat.rev.lookup ⟨proto, port⟩ with
    | some b => (some (b.src, b.sport), nat.refresh ⟨proto, port⟩ now)
    | none => (none, nat)

def translateIcmpError (nat : Nat44) (pkt : Bytes) (ihl : ℕ) (now : Instant) :
    Checked (Verdict × Nat44 × Bytes) := do
  let q := ihl + 8
  let some quoted := getFrom pkt q | return (.drop, nat, pkt)
  let some inner ← Ipv4Hdr.parse quoted | return (.drop, nat, pkt)
  if inner.src ≠ nat.wgAddr then return (.drop, nat, pkt)
  let innerL4 := q + inner.ihl
  let some port ← quotePort inner.proto pkt innerL4 | return (.drop, nat, pkt)
  match nat.resolveQuote inner.proto port now with
  | (none, nat) => return (.drop, nat, pkt)
  | (some (host, hport), nat) =>
    let quote ← sliceFrom pkt q
    let quote ← rewriteAddr quote inner.ihl .src nat.wgAddr host (some inner.proto)
    let quote ← rewritePort quote inner.ihl .src inner.proto port hport
    let pkt ← rewriteAddr (pkt.take q ++ quote) ihl .dst nat.wgAddr host none
    let icmp ← sliceFrom pkt ihl
    let icmp ← copyFromSlice icmp 2 [0]
    let icmp ← copyFromSlice icmp 3 [0]
    let c := checksum icmp
    let icmp ← copyFromSlice icmp 2 (beBytes c)
    return (.translate, nat, pkt.take ihl ++ icmp)

def translateIn (nat : Nat44) (pkt : Bytes) (now : Instant) :
    Checked (Verdict × Nat44 × Bytes) := do
  let some h ← Ipv4Hdr.parse pkt | return (.drop, nat, pkt)
  if h.dst ≠ nat.wgAddr then return (.drop, nat, pkt)
  let fk : FragKey := { src := h.src, ipId := h.ipId, proto := h.proto }
  if h.fragOffset ≠ 0 then
    match nat.frag.lookup fk with
    | none => return (.drop, nat, pkt)
    | some (orig, _) => return (.translate, nat, ← rewriteAddr pkt h.ihl .dst h.dst orig none)
  match ← inPort h.proto (← sliceFrom pkt h.ihl) with
  | .drop => return (.drop, nat, pkt)
  | .icmpError => nat.translateIcmpError pkt h.ihl now
  | .port port =>
    match nat.forward.filter fun f => isTcpUdp h.proto && port == f.port with
    | some f =>
      let frag := if h.moreFragments then nat.frag.insert fk (f.host, now) else nat.frag
      let pkt ← rewriteAddr pkt h.ihl .dst nat.wgAddr f.host (some h.proto)
      let forwardedIn := min (nat.forwardedIn + 1) 18446744073709551615
      return (.translate, { nat with frag, forwardedIn }, pkt)
    | none =>
      let some b := nat.rev.lookup ⟨h.proto, port⟩ | return (.drop, nat, pkt)
      let nat := nat.refresh ⟨h.proto, port⟩ now
      let nat := if h.moreFragments then
        { nat with frag := nat.frag.insert fk (b.src, now) } else nat
      let pkt ← rewriteAddr pkt h.ihl .dst nat.wgAddr b.src (some h.proto)
      let pkt ← rewritePort pkt h.ihl .dst h.proto port b.sport
      let nat := if hasRst h.proto pkt h.ihl then nat.close h.proto port else nat
      return (.translate, nat, pkt)

end Nat44

/-! ### The driver's calls -/

inductive NatOp where
  | setForward (host : Ipv4Addr) (port : UInt16)
  | clearForward
  | translateOut (pkt : Bytes) (now : Instant)
  | translateIn (pkt : Bytes) (now : Instant)
  | expire (now : Instant)
deriving DecidableEq

/-- One call, with the verdict and the packet where it translates one. -/
def Nat44.call (nat : Nat44) : NatOp → Checked (Option (Verdict × Bytes) × Nat44)
  | .setForward host port => return (none, nat.setForward host port)
  | .clearForward => return (none, nat.clearForward)
  | .translateOut pkt now => do
    let (v, nat, pkt) ← nat.translateOut pkt now
    return (some (v, pkt), nat)
  | .translateIn pkt now => do
    let (v, nat, pkt) ← nat.translateIn pkt now
    return (some (v, pkt), nat)
  | .expire now => return (none, (nat.expire now).2)

end Tunnel.Wg
