import Tunnel.Inspect.Protocol

/-!
# Inspect — Parsing and classification

`parse`: the addresses, ports, protocol and length of an IPv4 or IPv6 packet, and the label that
`classify` gives it by its payload and ports.

Slices are indexed as the source indexes them, so a function may panic.  The walk over the IPv6
extension headers runs on the length of the packet, since each header has at least eight bytes
(`returns_parse`: no packet panics).  The entropy of a payload is a floating-point number in the
source, and here a parameter: whether it lies above a bar (`Entropy`).
-/

namespace Tunnel.Inspect
open Support

/-- The bytes of an ASCII literal. -/
def ascii (s : String) : Bytes := s.toList.map fun c => UInt8.ofNat c.toNat

/-- `u32::from_be_bytes` of the four bytes at `i`. -/
def dwordAt (b : Bytes) (i : ℕ) : Checked ℕ := do
  return (← wordAt b i).toNat * 65536 + (← wordAt b (i + 2)).toNat

/-! ### Signatures -/

def isWireguard (p : Bytes) : Checked Bool := do
  if p.length < 4 then return false
  if (← nth p 1) ≠ 0 then return false
  if (← nth p 2) ≠ 0 then return false
  if (← nth p 3) ≠ 0 then return false
  let kind ← nth p 0
  if kind = 1 then return p.length == 148
  if kind = 2 then return p.length == 92
  if kind = 3 then return p.length == 64
  if kind = 4 then return 32 ≤ p.length && (p.length - 16) % 16 == 0
  return false

def isQuic (p : Bytes) : Checked Bool := do
  if p.length < 5 then return false
  if (← nth p 0) &&& 0xc0 ≠ 0xc0 then return false
  let v ← dwordAt p 1
  return v == 0x00000000 || v == 0x00000001 || v == 0x6b3343cf

def isTls (p : Bytes) : Checked Bool := do
  if p.length < 3 then return false
  return (← nth p 0) == 0x16 && (← nth p 1) == 0x03 && (← nth p 2) ≤ 0x04

def isBittorrent (p : Bytes) : Checked Bool := do
  if p.length < 20 then return false
  return (← nth p 0) == 19 && (p.drop 1).take 19 == ascii "BitTorrent protocol"

/-- The bytes before the first that passes the test, if one does. -/
def upTo (p : Bytes) (test : UInt8 → Bool) : Option Bytes := (p.findIdx? test).map p.take

def isHttpTracker (p : Bytes) : Bool :=
  if (ascii "GET /").isPrefixOf p then
    let line := (p.drop 5).take 512
    match upTo line fun b => b == 0x20 || b == 0x0d || b == 0x0a with
    | none => false
    | some path =>
      -- without the query string
      let path := (upTo path (· == 0x3f)).getD path
      let last := (path.reverse.takeWhile (· != 0x2f)).reverse
      -- without a script extension
      let verb := (upTo last (· == 0x2e)).getD last
      verb == ascii "announce" || verb == ascii "scrape"
  else false

def isUtp (p : Bytes) : Checked Bool := do
  if p.length < 20 then return false
  let kind := (← nth p 0) >>> 4
  let version := (← nth p 0) &&& 0x0f
  if version ≠ 1 then return false
  if 4 < kind then return false
  if 2 < (← nth p 1) then return false
  return (← dwordAt p 12) ≤ 16 * 1024 * 1024

def isDht (p : Bytes) : Checked Bool := do
  if p.length < 12 then return false
  if (← nth p 0) ≠ 0x64 then return false
  let rest ← sliceFrom p 1
  return (ascii "1:ad").isPrefixOf rest || (ascii "1:rd").isPrefixOf rest ||
    (ascii "1:el").isPrefixOf rest || (ascii "2:ip").isPrefixOf rest

def isBtTracker (p : Bytes) : Bool :=
  16 ≤ p.length && p.take 8 == [0x00, 0x00, 0x04, 0x17, 0x27, 0x10, 0x19, 0x80] &&
    (p.drop 8).take 4 == [0, 0, 0, 0]

/-- `entropy(p) > bar`, with the bar in tenths of a bit per byte. -/
class Entropy where
  exceeds : Bytes → ℕ → Bool

def looksRandom [Entropy] (p : Bytes) : Bool :=
  let n := min p.length 256
  if n < 96 then false
  else
    let bar := if n ≤ 127 then 55 else if n ≤ 191 then 60 else if n ≤ 255 then 64 else 68
    Entropy.exceeds p bar

/-! ### Classification -/

/-- Strong payload signatures. -/
def bySignature (l4 : L4) (payload : Bytes) : Checked (Option AppProto) := do
  if l4 = .udp then
    if ← isWireguard payload then return some .wireGuard
    if ← isQuic payload then return some .quic
    if isBtTracker payload then return some .btTracker
    if ← isDht payload then return some .dht
    if ← isUtp payload then return some .utp
    return none
  if l4 = .tcp then
    if ← isTls payload then return some .tls
    if ← isBittorrent payload then return some .bitTorrent
    if isHttpTracker payload then return some .btTracker
    return none
  return none

/-- Well-known ports. -/
def byPort (l4 : L4) (sport dport : UInt16) : Option AppProto :=
  let has (p : UInt16) : Bool := sport == p || dport == p
  if has 53 then some .dns
  else if has 5353 then some .mdns
  else if has 5355 then some .llmnr
  else if has 1900 then some .ssdp
  else if has 137 || has 138 || has 139 then some .netBios
  else if has 67 || has 68 then some .dhcp
  else if has 546 || has 547 then some .dhcpv6
  else if has 123 then some .ntp
  else if has 22 then some .ssh
  else if has 51820 && l4 == .udp then some .wireGuard
  else if has 1194 then some .openVpn
  else if has 8388 || has 8389 then some .shadowsocks
  else if has 443 then some (if l4 = .udp then .quic else .tls)
  else if has 80 || has 8080 then some .http
  else none

def classify [Entropy] (l4 : L4) (sport dport : UInt16) (payload : Bytes) : Checked AppProto := do
  if l4 = .icmp then return .icmp
  if l4 = .other 2 then return .igmp
  if let some app ← bySignature l4 payload then return app
  if let some app := byPort l4 sport dport then return app
  if (l4 = .tcp ∨ l4 = .udp) ∧ looksRandom payload then return .obfuscated
  return .other

/-! ### Parsing -/

/-- A parsed packet's routing-relevant fields. -/
structure ParsedPacket where
  srcIp : IpAddr
  dstIp : IpAddr
  srcPort : UInt16
  dstPort : UInt16
  l4 : L4
  app : AppProto
  len : ℕ
deriving DecidableEq

section
variable [Entropy]

/-- The packet with these transport fields. -/
def classified (srcIp dstIp : IpAddr) (l4 : L4) (srcPort dstPort : UInt16) (payload : Bytes)
    (len : ℕ) : Checked (Option ParsedPacket) := do
  let app ← classify l4 srcPort dstPort payload
  return some { srcIp, dstIp, srcPort, dstPort, l4, app, len }

def finish (srcIp dstIp : IpAddr) (proto : UInt8) (l4 : Bytes) (totalLen : ℕ) :
    Checked (Option ParsedPacket) := do
  if proto = 6 then
    if l4.length < 20 then return none
    let sp ← wordAt l4 0
    let dp ← wordAt l4 2
    let dataOff := ((← nth l4 12) >>> 4).toNat * 4
    let payload ← if dataOff < l4.length then sliceFrom l4 dataOff else pure []
    classified srcIp dstIp .tcp sp dp payload totalLen
  else if proto = 17 then
    if l4.length < 8 then return none
    let sp ← wordAt l4 0
    let dp ← wordAt l4 2
    classified srcIp dstIp .udp sp dp (← sliceFrom l4 8) totalLen
  else if proto = 1 ∨ proto = 58 then classified srcIp dstIp .icmp 0 0 [] totalLen
  else classified srcIp dstIp (.other proto) 0 0 [] totalLen

def parseV4 (pkt : Bytes) : Checked (Option ParsedPacket) := do
  if pkt.length < 20 then return none
  let ihl := ((← nth pkt 0) &&& 0x0f).toNat * 4
  if ihl < 20 ∨ pkt.length < ihl then return none
  let proto ← nth pkt 9
  let srcIp ← addrAt pkt 12
  let dstIp ← addrAt pkt 16
  finish (.v4 srcIp) (.v4 dstIp) proto (← sliceFrom pkt ihl) pkt.length

/-- The loop over the extension headers, from the header `next` at `off`. -/
def chase (srcIp dstIp : IpAddr) (pkt : Bytes) : ℕ → UInt8 → ℕ → Checked (Option ParsedPacket)
  | 0, _, _ => .error .outOfFuel
  | fuel + 1, next, off => do
    -- Hop-by-Hop, Routing, Destination Options
    if next = 0 ∨ next = 43 ∨ next = 60 then
      if pkt.length < off + 8 then return none
      let hdrLen := 8 + (← nth pkt (off + 1)).toNat * 8
      if pkt.length < off + hdrLen then return none
      chase srcIp dstIp pkt fuel (← nth pkt off) (off + hdrLen)
    -- Fragment
    else if next = 44 then
      if pkt.length < off + 8 then return none
      let fragOff := (← wordAt pkt (off + 2)) >>> 3
      let nh ← nth pkt off
      if fragOff ≠ 0 then finish srcIp dstIp 44 [] pkt.length
      else chase srcIp dstIp pkt fuel nh (off + 8)
    -- Authentication Header
    else if next = 51 then
      if pkt.length < off + 8 then return none
      let hdrLen := ((← nth pkt (off + 1)).toNat + 2) * 4
      if pkt.length < off + hdrLen then return none
      chase srcIp dstIp pkt fuel (← nth pkt off) (off + hdrLen)
    else finish srcIp dstIp next (← sliceFrom pkt off) pkt.length

def parseV6 (pkt : Bytes) : Checked (Option ParsedPacket) := do
  if pkt.length < 40 then return none
  let srcIp ← addr6At pkt 8
  let dstIp ← addr6At pkt 24
  chase (.v6 srcIp) (.v6 dstIp) pkt (pkt.length + 1) (← nth pkt 6) 40

def parse (pkt : Bytes) : Checked (Option ParsedPacket) := do
  if pkt.isEmpty then return none
  let version := (← nth pkt 0) >>> 4
  if version = 4 then parseV4 pkt
  else if version = 6 then parseV6 pkt
  else return none

end

/-! ### No packet panics -/

theorem returns_dwordAt {b : Bytes} {i : ℕ} (h : i + 4 ≤ b.length) : Returns (dwordAt b i) :=
  (Returns.wordAt (by omega)).bind fun _ _ => (Returns.wordAt (by omega)).bind fun _ _ => .ok _

theorem returns_isWireguard (p : Bytes) : Returns (isWireguard p) := by
  unfold isWireguard
  refine .ite (fun _ => .ok _) fun h => ?_
  refine (Returns.nth (by omega)).bind fun _ _ => .ite (fun _ => .ok _) fun _ => ?_
  refine (Returns.nth (by omega)).bind fun _ _ => .ite (fun _ => .ok _) fun _ => ?_
  refine (Returns.nth (by omega)).bind fun _ _ => .ite (fun _ => .ok _) fun _ => ?_
  refine (Returns.nth (by omega)).bind fun _ _ => .ite (fun _ => .ok _) fun _ => ?_
  refine .ite (fun _ => .ok _) fun _ => .ite (fun _ => .ok _) fun _ => ?_
  exact .ite (fun _ => .ok _) fun _ => .ok _

theorem returns_isQuic (p : Bytes) : Returns (isQuic p) := by
  unfold isQuic
  refine .ite (fun _ => .ok _) fun h => ?_
  refine (Returns.nth (by omega)).bind fun _ _ => .ite (fun _ => .ok _) fun _ => ?_
  exact (returns_dwordAt (by omega)).bind fun _ _ => .ok _

theorem returns_isTls (p : Bytes) : Returns (isTls p) := by
  unfold isTls
  refine .ite (fun _ => .ok _) fun h => ?_
  refine (Returns.nth (by omega)).bind fun _ _ => ?_
  refine (Returns.nth (by omega)).bind fun _ _ => ?_
  exact (Returns.nth (by omega)).bind fun _ _ => .ok _

theorem returns_isBittorrent (p : Bytes) : Returns (isBittorrent p) := by
  unfold isBittorrent
  refine .ite (fun _ => .ok _) fun h => ?_
  exact (Returns.nth (by omega)).bind fun _ _ => .ok _

theorem returns_isUtp (p : Bytes) : Returns (isUtp p) := by
  unfold isUtp
  refine .ite (fun _ => .ok _) fun h => ?_
  refine (Returns.nth (by omega)).bind fun _ _ => ?_
  refine (Returns.nth (by omega)).bind fun _ _ => ?_
  refine .ite (fun _ => .ok _) fun _ => .ite (fun _ => .ok _) fun _ => ?_
  refine (Returns.nth (by omega)).bind fun _ _ => .ite (fun _ => .ok _) fun _ => ?_
  exact (returns_dwordAt (by omega)).bind fun _ _ => .ok _

theorem returns_isDht (p : Bytes) : Returns (isDht p) := by
  unfold isDht
  refine .ite (fun _ => .ok _) fun h => ?_
  refine (Returns.nth (by omega)).bind fun _ _ => .ite (fun _ => .ok _) fun _ => ?_
  exact (Returns.sliceFrom (by omega)).bind fun _ _ => .ok _

theorem returns_bySignature (l4 : L4) (payload : Bytes) : Returns (bySignature l4 payload) := by
  unfold bySignature
  refine .ite (fun _ => ?_) fun _ => .ite (fun _ => ?_) fun _ => .ok _
  · refine (returns_isWireguard payload).bind fun _ _ => .ite (fun _ => .ok _) fun _ => ?_
    refine (returns_isQuic payload).bind fun _ _ => .ite (fun _ => .ok _) fun _ => ?_
    refine .ite (fun _ => .ok _) fun _ => ?_
    refine (returns_isDht payload).bind fun _ _ => .ite (fun _ => .ok _) fun _ => ?_
    exact (returns_isUtp payload).bind fun _ _ => .ite (fun _ => .ok _) fun _ => .ok _
  · refine (returns_isTls payload).bind fun _ _ => .ite (fun _ => .ok _) fun _ => ?_
    refine (returns_isBittorrent payload).bind fun _ _ => .ite (fun _ => .ok _) fun _ => ?_
    exact .ite (fun _ => .ok _) fun _ => .ok _

section
variable [Entropy]

theorem returns_classify (l4 : L4) (sport dport : UInt16) (payload : Bytes) :
    Returns (classify l4 sport dport payload) := by
  unfold classify
  refine .ite (fun _ => .ok _) fun _ => .ite (fun _ => .ok _) fun _ => ?_
  refine (returns_bySignature l4 payload).bind fun found _ => ?_
  cases found with
  | some app => exact .ok _
  | none =>
      dsimp only
      cases byPort l4 sport dport with
      | some app => exact .ok _
      | none => exact .ite (fun _ => .ok _) fun _ => .ok _

theorem returns_classified (srcIp dstIp : IpAddr) (l4 : L4) (srcPort dstPort : UInt16)
    (payload : Bytes) (len : ℕ) :
    ∃ app, classified srcIp dstIp l4 srcPort dstPort payload len =
      .ok (some ⟨srcIp, dstIp, srcPort, dstPort, l4, app, len⟩) := by
  obtain ⟨app, h⟩ := returns_classify l4 srcPort dstPort payload
  exact ⟨app, by rw [classified, h]; rfl⟩

/-- What `finish` makes of a transport header: nothing of one that is cut short, the ports of a TCP
or UDP header, and no ports of any other. -/
structure Finished (srcIp dstIp : IpAddr) (proto : UInt8) (l4 : Bytes) (len : ℕ)
    (r : Option ParsedPacket) : Prop where
  none_iff : r = none ↔ (proto = 6 ∧ l4.length < 20) ∨ (proto = 17 ∧ l4.length < 8)
  addrs : ∀ p, r = some p → p.srcIp = srcIp ∧ p.dstIp = dstIp ∧ p.len = len
  tcp : ∀ p, r = some p → (p.l4 = .tcp ↔ proto = 6)
  udp : ∀ p, r = some p → (p.l4 = .udp ↔ proto = 17)
  ports : ∀ p, r = some p → proto = 6 ∨ proto = 17 →
    p.srcPort = word l4 0 ∧ p.dstPort = word l4 2

omit [Entropy] in
/-- A header that is cut short is not read. -/
theorem Finished.short {srcIp dstIp : IpAddr} {proto : UInt8} {l4 : Bytes} {len : ℕ}
    (h : (proto = 6 ∧ l4.length < 20) ∨ (proto = 17 ∧ l4.length < 8)) :
    Finished srcIp dstIp proto l4 len none := by
  refine ⟨iff_of_true rfl h, ?_, ?_, ?_, ?_⟩ <;> intro p hp <;> cases hp

theorem finish_spec (srcIp dstIp : IpAddr) (proto : UInt8) (l4 : Bytes) (len : ℕ) :
    ∃ r, finish srcIp dstIp proto l4 len = .ok r ∧ Finished srcIp dstIp proto l4 len r := by
  unfold finish
  by_cases ht : proto = 6
  · subst ht
    rw [if_pos rfl]
    by_cases hl : l4.length < 20
    · exact ⟨none, if_pos hl, .short (.inl ⟨rfl, hl⟩)⟩
    · rw [if_neg hl, wordAt_eq (by omega), ok_bind, wordAt_eq (by omega), ok_bind,
        nth_eq (show 12 < l4.length by omega) 0, ok_bind]
      have hc : ∀ payload, ∃ r,
          classified srcIp dstIp .tcp (word l4 0) (word l4 2) payload len = .ok r ∧
            Finished srcIp dstIp 6 l4 len r := by
        intro payload
        obtain ⟨app, ha⟩ := returns_classified srcIp dstIp .tcp (word l4 0) (word l4 2) payload len
        refine ⟨_, ha, ⟨?_, ?_, ?_, ?_, ?_⟩⟩ <;> simp [hl]
      dsimp only
      split
      · next h =>
          rw [sliceFrom_eq (Nat.le_of_lt h), ok_bind]
          exact hc _
      · exact hc _
  rw [if_neg ht]
  by_cases hu : proto = 17
  · subst hu
    rw [if_pos rfl]
    by_cases hl : l4.length < 8
    · exact ⟨none, if_pos hl, .short (.inr ⟨rfl, hl⟩)⟩
    · rw [if_neg hl, wordAt_eq (by omega), ok_bind, wordAt_eq (by omega), ok_bind,
        sliceFrom_eq (by omega), ok_bind]
      obtain ⟨app, ha⟩ :=
        returns_classified srcIp dstIp .udp (word l4 0) (word l4 2) (l4.drop 8) len
      refine ⟨_, ha, ⟨?_, ?_, ?_, ?_, ?_⟩⟩ <;> simp [hl]
  rw [if_neg hu]
  by_cases hi : proto = 1 ∨ proto = 58
  · rw [if_pos hi]
    obtain ⟨app, ha⟩ := returns_classified srcIp dstIp .icmp 0 0 [] len
    refine ⟨_, ha, ⟨?_, ?_, ?_, ?_, ?_⟩⟩ <;> simp [ht, hu]
  · rw [if_neg hi]
    obtain ⟨app, ha⟩ := returns_classified srcIp dstIp (.other proto) 0 0 [] len
    refine ⟨_, ha, ⟨?_, ?_, ?_, ?_, ?_⟩⟩ <;> simp [ht, hu]

theorem returns_finish (srcIp dstIp : IpAddr) (proto : UInt8) (l4 : Bytes) (len : ℕ) :
    Returns (finish srcIp dstIp proto l4 len) := by
  obtain ⟨r, h, -⟩ := finish_spec srcIp dstIp proto l4 len
  exact ⟨r, h⟩

theorem returns_parseV4 (pkt : Bytes) : Returns (parseV4 pkt) := by
  unfold parseV4
  refine .ite (fun _ => .ok _) fun h => ?_
  refine (Returns.nth (by omega)).bind fun b _ => .ite (fun _ => .ok _) fun hi => ?_
  refine (Returns.nth (by omega)).bind fun _ _ => ?_
  refine Returns.bind ⟨_, addrAt_eq (by omega)⟩ fun _ _ => ?_
  refine Returns.bind ⟨_, addrAt_eq (by omega)⟩ fun _ _ => ?_
  exact (Returns.sliceFrom (by omega)).bind fun _ _ => returns_finish _ _ _ _ _

/-- Each header lies inside the packet and moves the walk on by eight bytes or more. -/
theorem returns_chase (srcIp dstIp : IpAddr) (pkt : Bytes) {fuel : ℕ} (next : UInt8) {off : ℕ}
    (ho : off ≤ pkt.length) (hf : pkt.length < off + fuel) :
    Returns (chase srcIp dstIp pkt fuel next off) := by
  induction fuel generalizing next off with
  | zero => omega
  | succ fuel ih =>
      unfold chase
      refine .ite (fun _ => ?_) fun _ => .ite (fun _ => ?_) fun _ => .ite (fun _ => ?_) fun _ => ?_
      · refine .ite (fun _ => .ok _) fun h => ?_
        refine (Returns.nth (by omega)).bind fun len _ => .ite (fun _ => .ok _) fun hl => ?_
        exact (Returns.nth (by omega)).bind fun _ _ => ih _ (by omega) (by omega)
      · refine .ite (fun _ => .ok _) fun h => ?_
        refine (Returns.wordAt (by omega)).bind fun _ _ => ?_
        refine (Returns.nth (by omega)).bind fun _ _ => ?_
        exact .ite (fun _ => returns_finish _ _ _ _ _) fun _ => ih _ (by omega) (by omega)
      · refine .ite (fun _ => .ok _) fun h => ?_
        refine (Returns.nth (by omega)).bind fun len _ => .ite (fun _ => .ok _) fun hl => ?_
        exact (Returns.nth (by omega)).bind fun _ _ => ih _ (by omega) (by omega)
      · exact (Returns.sliceFrom ho).bind fun _ _ => returns_finish _ _ _ _ _

theorem returns_parseV6 (pkt : Bytes) : Returns (parseV6 pkt) := by
  unfold parseV6 addr6At
  refine .ite (fun _ => .ok _) fun h => ?_
  rw [dif_pos (by omega), dif_pos (by omega)]
  exact (Returns.nth (by omega)).bind fun _ _ => returns_chase _ _ _ _ (by omega) (by omega)

/-- `parse` returns, whatever the bytes. -/
theorem returns_parse (pkt : Bytes) : Returns (parse pkt) := by
  unfold parse
  refine .ite (fun _ => .ok _) fun h => ?_
  have hl : 0 < pkt.length := List.length_pos_iff.mpr (by simpa using h)
  refine (Returns.nth hl).bind fun _ _ => .ite (fun _ => returns_parseV4 pkt) fun _ => ?_
  exact .ite (fun _ => returns_parseV6 pkt) fun _ => .ok _

end

end Tunnel.Inspect
