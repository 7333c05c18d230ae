import Tunnel.Inspect.Protocol
import Tunnel.Support.Table

/-!
# Inspect — The host arena

`PeerArena`: a slab of entries threaded on an intrusive doubly-linked list, most recent first, with
an index by address.  Slots are indexed as the source indexes them, so an operation may panic.
-/

namespace Tunnel.Inspect
open Support

def NIL : UInt32 := 0xffffffff

/-- What the monitor remembers about one remote host. -/
structure PeerEntry where
  ip : IpAddr
  id : UInt32
  families : UInt16
  lastSeen : Instant
  asn : Option AsnInfo
  prev : UInt32
  next : UInt32
deriving DecidableEq

structure PeerArena where
  entries : List PeerEntry
  index : Table IpAddr UInt32
  head : UInt32
  tail : UInt32
  nextId : UInt32
  cap : ℕ
deriving DecidableEq

namespace PeerArena

def new (cap : ℕ) : PeerArena := ⟨[], ∅, NIL, NIL, 1, max cap 1⟩

/-- `&entries[i as usize]`. -/
def entry (a : PeerArena) (i : UInt32) : Checked PeerEntry := nth a.entries i.toNat

/-- A change to `entries[i as usize]`. -/
def modify (a : PeerArena) (i : UInt32) (f : PeerEntry → PeerEntry) : Checked PeerArena := do
  return { a with entries := a.entries.set i.toNat (f (← a.entry i)) }

/-! ### The list -/

def unlink (a : PeerArena) (i : UInt32) : Checked PeerArena := do
  let e ← a.entry i
  let a ← if e.prev = NIL then pure { a with head := e.next }
    else a.modify e.prev fun p => { p with next := e.next }
  let a ← if e.next = NIL then pure { a with tail := e.prev }
    else a.modify e.next fun n => { n with prev := e.prev }
  a.modify i fun e => { e with prev := NIL, next := NIL }

def pushFront (a : PeerArena) (i : UInt32) : Checked PeerArena := do
  let old := a.head
  let a ← a.modify i fun e => { e with prev := NIL, next := old }
  let a ← if old = NIL then pure { a with tail := i }
    else a.modify old fun h => { h with prev := i }
  return { a with head := i }

/-- Drop the least recently seen host; its slot is free. -/
def evictTail (a : PeerArena) : Checked (UInt32 × PeerArena) := do
  let i := a.tail
  let a ← a.unlink i
  let ip := (← a.entry i).ip
  return (i, { a with index := a.index.erase ip })

/-- The entries from slot `cur` on. -/
def mruFrom (a : PeerArena) : ℕ → UInt32 → Checked (List PeerEntry)
  | 0, _ => .error .outOfFuel
  | fuel + 1, cur => do
    if cur = NIL then return []
    let e ← a.entry cur
    return e :: (← mruFrom a fuel e.next)

/-- Entries from most to least recently seen. -/
def iterMru (a : PeerArena) : Checked (List PeerEntry) := a.mruFrom (a.entries.length + 1) a.head

/-! ### Hosts -/

/-- Note a host as just seen.  Returns its id. -/
def touch (a : PeerArena) (ip : IpAddr) (fam : UInt16) (now : Instant) :
    Checked (UInt32 × PeerArena) := do
  match a.index.lookup ip with
  | some i =>
    let id := (← a.entry i).id
    let a ← a.modify i fun e => { e with families := e.families ||| fam, lastSeen := now }
    if a.head = i then return (id, a)
    let a ← a.unlink i
    return (id, ← a.pushFront i)
  | none =>
    let id := a.nextId
    let a := { a with nextId := max (a.nextId + 1) 1 }
    let fresh : PeerEntry :=
      { ip, id, families := fam, lastSeen := now, asn := none, prev := NIL, next := NIL }
    let (i, a) ←
      if a.cap ≤ a.index.size then do
        let (i, a) ← a.evictTail
        pure (i, ← a.modify i fun _ => fresh)
      else pure (UInt32.ofNat a.entries.length, { a with entries := a.entries ++ [fresh] })
    let a := { a with index := a.index.insert ip i }
    return (id, ← a.pushFront i)

/-- `touch`, for a host already present. -/
def refresh (a : PeerArena) (ip : IpAddr) (fam : UInt16) (now : Instant) : Checked PeerArena := do
  match a.index.lookup ip with
  | some _ => return (← a.touch ip fam now).2
  | none => return a

def get (a : PeerArena) (ip : IpAddr) : Checked (Option PeerEntry) := do
  match a.index.lookup ip with
  | some i => return some (← a.entry i)
  | none => return none

/-- `if let Some(e) = peers.get_mut(ip) { e.asn = Some(info) }`. -/
def setAsn (a : PeerArena) (ip : IpAddr) (info : AsnInfo) : Checked PeerArena := do
  match a.index.lookup ip with
  | some i => a.modify i fun e => { e with asn := some info }
  | none => return a

def isTorrenting (a : PeerArena) (ip : IpAddr) : Checked Bool := do
  match ← a.get ip with
  | some e => return e.families &&& Family.TORRENTING != 0
  | none => return false

end PeerArena

/-! ### Address blocks -/

/-- The host bits cleared: /24 for IPv4, /64 for IPv6. -/
def prefixBase : IpAddr → IpAddr
  | .v4 ip => .v4 { ip with d := 0 }
  | .v6 ip => .v6 ⟨ip.octets.take 8 ++ List.replicate 8 0, by
      rw [List.length_append, List.length_take, ip.len, List.length_replicate]; rfl⟩

/-- Addresses an origin-ASN lookup can say something about. -/
def isLookupWorthy : IpAddr → Bool
  | .v4 ip =>
    !(ip.isPrivate || ip.isLoopback || ip.isLinkLocal || ip.isMulticast ||
      ip.isBroadcast || ip.isUnspecified || ip.a == 0 ||
      (ip.a == 100 && 64 ≤ ip.b && ip.b < 128) || (ip.a == 198 && 18 ≤ ip.b && ip.b < 20))
  | .v6 ip =>
    !(ip.octets == List.replicate 15 0 ++ [1] || ip.octets == List.replicate 16 0 ||
      ip.octets.getD 0 0 == 0xff || (ip.firstSegment &&& 0xfe00) == 0xfc00 ||
      (ip.firstSegment &&& 0xffc0) == 0xfe80)

end Tunnel.Inspect
