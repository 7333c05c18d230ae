import Tunnel.Wg.Tuple

/-!
# Wg — Checksum repair

The NAT never recomputes a transport checksum: it patches the fields for each word it replaces.
Here the patched fields are shown to be what a computation from scratch gives.

A checksum field in use stands for the sum of the words it covers up to congruence (`Represents`),
and is the one representative of it that a computation writes: never `0xffff`, except over UDP,
where never `0`.  Both are kept by a patch, so that they survive any chain of them; and together
they determine the field (`hdrValid_iff`, `l4Valid_iff`).

* `HdrValid.addr`, `L4Valid.addr`, `L4Valid.port`: each rewrite keeps the fields valid.
* `checksums_repaired`: the law for every packet the NAT translates.
-/

namespace Tunnel.Wg
open Support

/-! ### From scratch -/

/-- The IPv4 pseudo-header of a packet. -/
def pseudoHeader (pkt : Bytes) : Bytes :=
  (addr pkt 12).octets ++ (addr pkt 16).octets ++ [0, pkt.getD 9 0] ++
    beBytes (UInt16.ofNat (pkt.length - ihlOf pkt))

/-- Offset of the L4 checksum field of a TCP or UDP packet. -/
def csumOffset (pkt : Bytes) : ℕ := (l4CsumOffset (pkt.getD 9 0)).getD 0

/-- The IPv4 header checksum of a packet, from scratch. -/
def hdrCsum (pkt : Bytes) : UInt16 := checksum (splice (pkt.take (ihlOf pkt)) 10 (beBytes 0))

/-- The TCP or UDP checksum of a packet, from scratch. -/
def l4Csum (pkt : Bytes) : UInt16 :=
  l4Stored (pkt.getD 9 0) (checksum (pseudoHeader pkt ++
    splice (pkt.drop (ihlOf pkt)) (csumOffset pkt) (beBytes 0)))

def hdrField (pkt : Bytes) : UInt16 := word pkt 10

def l4Field (pkt : Bytes) : UInt16 := word pkt (ihlOf pkt + csumOffset pkt)

/-! ### Sums -/

/-- The two words of an address. -/
def ipSum (ip : Ipv4Addr) : ℕ := (be16 ip.a ip.b).toNat + (be16 ip.c ip.d).toNat

/-- The sum a header checksum covers. -/
def hdrTotal (ihl : ℕ) (pkt : Bytes) : ℕ := sumExcept (pkt.take ihl) 10

/-- The sum an L4 checksum at offset `off` covers. -/
def l4Total (ihl : ℕ) (proto : UInt8) (off : ℕ) (pkt : Bytes) : ℕ :=
  ipSum (addr pkt 12) + ipSum (addr pkt 16) + proto.toNat + (pkt.length - ihl) +
    sumExcept (pkt.drop ihl) off

/-- The header checksum field is a representative of its sum, and not `0xffff`. -/
structure HdrValid (ihl : ℕ) (pkt : Bytes) : Prop where
  represents : Represents (word pkt 10) (hdrTotal ihl pkt)
  ne : word pkt 10 ≠ 65535

/-- The L4 checksum field is a representative of its sum, and the one that is written. -/
structure L4Valid (ihl : ℕ) (proto : UInt8) (off : ℕ) (pkt : Bytes) : Prop where
  represents : Represents (word pkt (ihl + off)) (l4Total ihl proto off pkt)
  ne_zero : proto = PROTO_UDP → word pkt (ihl + off) ≠ 0
  ne : proto ≠ PROTO_UDP → word pkt (ihl + off) ≠ 65535

/-- The offset of the checksum field of TCP and of UDP. -/
theorem csumOffset_spec {proto : UInt8} {off : ℕ} (h : l4CsumOffset proto = some off) :
    Even off ∧ 6 ≤ off ∧ isTcpUdp proto = true := by
  unfold l4CsumOffset at h
  split_ifs at h with ht hu <;> cases h
  · rw [ht]; decide
  · rw [hu]; decide

theorem octets_eq (ip : Ipv4Addr) :
    ip.octets = beBytes (be16 ip.a ip.b) ++ beBytes (be16 ip.c ip.d) := by
  rw [beBytes_be16, beBytes_be16]
  rfl

/-- An address is written as two words. -/
theorem splice_octets (b : Bytes) (i : ℕ) (ip : Ipv4Addr) :
    splice b i ip.octets =
      splice (splice b i (beBytes (be16 ip.a ip.b))) (i + 2) (beBytes (be16 ip.c ip.d)) := by
  rw [octets_eq, splice_append, length_beBytes]

@[simp] theorem ipSum_zero : ipSum ⟨0, 0, 0, 0⟩ = 0 := by decide

theorem ipSum_addr (b : Bytes) (i : ℕ) :
    ipSum (addr b i) = (word b i).toNat + (word b (i + 2)).toNat := rfl

/-- A new address replaces two terms of a sum that does not skip them. -/
theorem sumExcept_splice_octets {b : Bytes} {i c : ℕ} (ip : Ipv4Addr) (hi : Even i) (hc : Even c)
    (h : i + 4 ≤ b.length) (h' : c + 2 ≤ b.length) (hd : i + 4 ≤ c ∨ c + 2 ≤ i) :
    sumExcept (splice b i ip.octets) c + ipSum (addr b i) = sumExcept b c + ipSum ip := by
  have h₁ := sumExcept_splice (be16 ip.a ip.b) hi hc (by omega) h' (by omega)
  have h₂ := sumExcept_splice (b := splice b i (beBytes (be16 ip.a ip.b))) (i := i + 2)
    (be16 ip.c ip.d) (hi.add even_two) hc (by rw [length_splice]; omega)
    (by rw [length_splice]; omega) (by omega)
  rw [word_splice_of_disjoint (Or.inr (by rw [length_beBytes]))] at h₂
  rw [splice_octets, ipSum_addr, ipSum]
  omega

/-! ### Patches -/

theorem represents_patch16 {c old new : UInt16} {r : ℕ} (h : Represents c (r + old.toNat)) :
    Represents (patch16 c old new) (r + new.toNat) :=
  represents_replace h old.toNat_lt (patch16_toNat c old new)

theorem patch16_ne {c : UInt16} (old new : UInt16) (h : c ≠ 65535) :
    patch16 c old new ≠ 65535 :=
  ne_replace h (patch16_toNat c old new)

theorem represents_patch32 {c : UInt16} {old new : Ipv4Addr} {s t : ℕ} (h : Represents c s)
    (e : t + ipSum old = s + ipSum new) (hle : ipSum old ≤ s) :
    Represents (patch32 c old new) t := by
  unfold ipSum at e hle
  obtain ⟨r, rfl⟩ := Nat.exists_eq_add_of_le hle
  have h₁ : Represents (Wg.patch16 c (be16 old.a old.b) (be16 new.a new.b))
      (r + (be16 old.c old.d).toNat + (be16 new.a new.b).toNat) :=
    represents_patch16 (by convert h using 1; omega)
  have h₂ : Represents (Wg.patch32 c old new)
      (r + (be16 new.a new.b).toNat + (be16 new.c new.d).toNat) :=
    represents_patch16 (by convert h₁ using 1; omega)
  convert h₂ using 1
  omega

theorem patch32_ne {c : UInt16} (old new : Ipv4Addr) (h : c ≠ 65535) :
    patch32 c old new ≠ 65535 := patch16_ne _ _ (patch16_ne _ _ h)

/-- The two zeros stand for the same sums. -/
theorem represents_l4Stored {proto : UInt8} {c : UInt16} {s : ℕ} (h : Represents c s) :
    Represents (l4Stored proto c) s := by
  unfold l4Stored
  split
  · next hc =>
      rw [hc.1] at h
      unfold Represents Nat.ModEq at *
      simpa using h
  · exact h

theorem l4Stored_ne_zero {proto : UInt8} (c : UInt16) (h : proto = PROTO_UDP) :
    l4Stored proto c ≠ 0 := by
  unfold l4Stored
  split
  · decide
  · next hc => exact fun e => hc ⟨e, h⟩

theorem l4Stored_of_ne {proto : UInt8} (c : UInt16) (h : proto ≠ PROTO_UDP) :
    l4Stored proto c = c := if_neg fun e => h e.2

/-! ### The rewrites -/

variable {pkt : Bytes} {ihl off : ℕ} {proto : UInt8} {side : Side}

theorem Side.even_addr (side : Side) : Even side.addr := by cases side <;> decide

theorem Side.even_port (side : Side) : Even side.port := by cases side <;> decide

/-- Writing behind the header leaves its sum alone. -/
theorem hdrTotal_splice_of_le {ys : Bytes} {i : ℕ} (h : ihl ≤ i) :
    hdrTotal ihl (splice pkt i ys) = hdrTotal ihl pkt := by
  rw [hdrTotal, take_splice_of_le h, ← hdrTotal]

theorem hdrTotal_l4Patched (patch : UInt16 → UInt16) :
    hdrTotal ihl (l4Patched pkt ihl proto patch) = hdrTotal ihl pkt := by
  unfold l4Patched
  split
  · rfl
  · split
    · rfl
    · exact hdrTotal_splice_of_le (by omega)

theorem hdrField_l4Patched (h : 20 ≤ ihl) (patch : UInt16 → UInt16) :
    word (l4Patched pkt ihl proto patch) 10 = word pkt 10 :=
  word_congr (getD_l4Patched fun _ _ => by omega) (getD_l4Patched fun _ _ => by omega)

theorem hdrTotal_addr (side : Side) (new : Ipv4Addr) (hi : 20 ≤ ihl) (hl : ihl ≤ pkt.length) :
    hdrTotal ihl (splice pkt side.addr new.octets) + ipSum (addr pkt side.addr) =
      hdrTotal ihl pkt + ipSum new := by
  have hs := side.addr_le
  have hs' := side.le_addr
  have ht : (pkt.take ihl).length = ihl := by rw [List.length_take, Nat.min_eq_left hl]
  have ha : addr (pkt.take ihl) side.addr = addr pkt side.addr :=
    addr_congr fun k hk => by
      simp [List.getD_eq_getElem?_getD, show side.addr + k < ihl by omega]
  rw [hdrTotal, take_splice, ← ha]
  exact sumExcept_splice_octets new side.even_addr (by decide) (by omega) (by omega) (by omega)

theorem HdrValid.addr {new : Ipv4Addr} (h : HdrValid ihl pkt) (hi : 20 ≤ ihl)
    (hl : ihl ≤ pkt.length) (l4 : Option UInt8) :
    HdrValid ihl (addrRewritten pkt ihl side (addr pkt side.addr) new l4) := by
  unfold addrRewritten
  split
  · exact h
  have hs := side.addr_le
  have hs' := side.le_addr
  have hw : word (splice pkt side.addr new.octets) 10 = word pkt 10 :=
    word_splice_of_disjoint (by omega)
  have hp : HdrValid ihl (hdrPatched (splice pkt side.addr new.octets) (Tunnel.addr pkt side.addr)
      new) := by
    have hle : ipSum (Tunnel.addr pkt side.addr) ≤ hdrTotal ihl pkt := by
      have e := hdrTotal_addr side ⟨0, 0, 0, 0⟩ hi hl
      rw [ipSum_zero] at e
      omega
    refine ⟨?_, ?_⟩
    · rw [hdrPatched, word_splice_self _ (by rw [length_splice]; omega), hw]
      refine represents_patch32 h.represents ?_ hle
      rw [hdrTotal, take_splice, sumExcept_splice_self _ (by decide)
        (by rw [List.length_take, length_splice]; omega)]
      exact hdrTotal_addr side new hi hl
    · rw [hdrPatched, word_splice_self _ (by rw [length_splice]; omega), hw]
      exact patch32_ne _ _ h.ne
  cases l4 with
  | none => exact hp
  | some proto =>
      refine ⟨?_, ?_⟩
      · dsimp only
        rw [hdrField_l4Patched hi, hdrTotal_l4Patched]
        exact hp.represents
      · dsimp only
        rw [hdrField_l4Patched hi]
        exact hp.ne

/-- A port rewrite is all behind the header. -/
theorem HdrValid.port (h : HdrValid ihl pkt) (hi : 20 ≤ ihl) (proto : UInt8)
    (old new : UInt16) : HdrValid ihl (portRewritten pkt ihl side proto old new) := by
  have hw : word (portRewritten pkt ihl side proto old new) 10 = word pkt 10 :=
    word_congr (getD_portRewritten (fun _ => by omega) (fun _ _ => by omega) fun _ => by omega)
      (getD_portRewritten (fun _ => by omega) (fun _ _ => by omega) fun _ => by omega)
  have ht : hdrTotal ihl (portRewritten pkt ihl side proto old new) = hdrTotal ihl pkt := by
    unfold portRewritten
    split
    · rfl
    split
    · split
      · rfl
      · rw [hdrTotal_l4Patched, hdrTotal_splice_of_le (by omega)]
    · split
      · unfold idPatched
        split
        · rfl
        · rw [hdrTotal_splice_of_le (by omega), hdrTotal_splice_of_le (by omega)]
      · rfl
  exact ⟨by rw [hw, ht]; exact h.represents, by rw [hw]; exact h.ne⟩

/-- Writing the checksum field leaves the sum it covers alone. -/
theorem l4Total_splice_self (w : UInt16) (ho : Even off) (hi : 20 ≤ ihl)
    (hl : ihl + off + 2 ≤ pkt.length) :
    l4Total ihl proto off (splice pkt (ihl + off) (beBytes w)) = l4Total ihl proto off pkt := by
  have ha : ∀ i, i + 4 ≤ 20 → addr (splice pkt (ihl + off) (beBytes w)) i = addr pkt i :=
    fun i hi' => addr_splice_of_disjoint (by omega)
  rw [l4Total, l4Total, ha 12 (by omega), ha 16 (by omega), length_splice,
    drop_splice (by omega), Nat.add_sub_cancel_left, sumExcept_splice_self w ho
    (by rw [List.length_drop]; omega)]

/-- A patched field is valid if the patch value stands for the sum. -/
theorem l4Valid_patched {patch : UInt16 → UInt16} (hp : l4CsumOffset proto = some off)
    (hi : 20 ≤ ihl) (hl : ihl + off + 2 ≤ pkt.length)
    (hu : proto = PROTO_UDP → word pkt (ihl + off) ≠ 0)
    (hr : Represents (patch (word pkt (ihl + off))) (l4Total ihl proto off pkt))
    (hn : proto ≠ PROTO_UDP → patch (word pkt (ihl + off)) ≠ 65535) :
    L4Valid ihl proto off (l4Patched pkt ihl proto patch) := by
  obtain ⟨ho, -, -⟩ := csumOffset_spec hp
  have e : l4Patched pkt ihl proto patch =
      splice pkt (ihl + off) (beBytes (l4Stored proto (patch (word pkt (ihl + off))))) := by
    unfold l4Patched
    rw [hp]
    dsimp only
    rw [if_neg]
    rintro (h | ⟨h, h'⟩)
    · omega
    · exact hu h h'
  have hw : word (l4Patched pkt ihl proto patch) (ihl + off) =
      l4Stored proto (patch (word pkt (ihl + off))) := by rw [e, word_splice_self _ (by omega)]
  refine ⟨?_, fun h => ?_, fun h => ?_⟩
  · rw [hw, e, l4Total_splice_self _ ho hi hl]
    exact represents_l4Stored hr
  · rw [hw]
    exact l4Stored_ne_zero _ h
  · rw [hw, l4Stored_of_ne _ h]
    exact hn h

/-- The pseudo-header takes the new address. -/
theorem l4Total_addr (proto : UInt8) (off : ℕ) (side : Side) (old new : Ipv4Addr) (hi : 20 ≤ ihl)
    (hl : ihl ≤ pkt.length) :
    l4Total ihl proto off (hdrPatched (splice pkt side.addr new.octets) old new) +
      ipSum (addr pkt side.addr) = l4Total ihl proto off pkt + ipSum new := by
  have hd : (hdrPatched (splice pkt side.addr new.octets) old new).drop ihl = pkt.drop ihl := by
    have hs := side.addr_le
    rw [hdrPatched, drop_splice_of_le (by rw [length_beBytes]; omega),
      drop_splice_of_le (by rw [Ipv4Addr.length_octets]; omega)]
  have ha : ∀ s : Side, addr (hdrPatched (splice pkt side.addr new.octets) old new) s.addr =
      addr (splice pkt side.addr new.octets) s.addr := by
    intro s
    have := s.le_addr
    exact addr_splice_of_disjoint (by rw [length_beBytes]; omega)
  have hsrc := ha .src
  have hdst := ha .dst
  rw [l4Total, l4Total, hd, length_hdrPatched, length_splice]
  cases side with
  | src =>
      rw [show addr _ 12 = _ from hsrc, show addr _ 16 = _ from hdst]
      simp only [Side.addr]
      rw [addr_splice_self _ (by omega),
        addr_splice_of_disjoint (by rw [Ipv4Addr.length_octets]; omega)]
      omega
  | dst =>
      rw [show addr _ 12 = _ from hsrc, show addr _ 16 = _ from hdst]
      simp only [Side.addr]
      rw [addr_splice_self _ (by omega), addr_splice_of_disjoint (by omega)]
      omega

theorem L4Valid.addr {new : Ipv4Addr} (h : L4Valid ihl proto off pkt)
    (hp : l4CsumOffset proto = some off) (hi : 20 ≤ ihl) (hl : ihl + off + 2 ≤ pkt.length) :
    L4Valid ihl proto off
      (addrRewritten pkt ihl side (addr pkt side.addr) new (some proto)) := by
  unfold addrRewritten
  split
  · exact h
  dsimp only
  have hs := side.addr_le
  have hw₁ : word (splice pkt side.addr new.octets) (ihl + off) = word pkt (ihl + off) :=
    word_splice_of_disjoint (by rw [Ipv4Addr.length_octets]; omega)
  have hw : word (hdrPatched (splice pkt side.addr new.octets) (Tunnel.addr pkt side.addr) new)
      (ihl + off) = word pkt (ihl + off) :=
    (word_splice_of_disjoint (by rw [length_beBytes]; omega)).trans hw₁
  have ht : ∀ new, l4Total ihl proto off (hdrPatched (splice pkt side.addr new.octets)
      (Tunnel.addr pkt side.addr) new) + ipSum (Tunnel.addr pkt side.addr) =
        l4Total ihl proto off pkt + ipSum new := fun new =>
    l4Total_addr proto off side _ new hi (by omega)
  have hle : ipSum (Tunnel.addr pkt side.addr) ≤ l4Total ihl proto off pkt := by
    have e := ht ⟨0, 0, 0, 0⟩
    rw [ipSum_zero] at e
    omega
  refine l4Valid_patched hp hi (by simpa using hl) (fun hu => ?_) ?_ fun hu => ?_
  · rw [hw]; exact h.ne_zero hu
  · rw [hw]; exact represents_patch32 h.represents (ht new) hle
  · rw [hw]; exact patch32_ne _ _ (h.ne hu)

theorem L4Valid.port {old new : UInt16} (h : L4Valid ihl proto off pkt)
    (hp : l4CsumOffset proto = some off) (hi : 20 ≤ ihl) (hl : ihl + off + 2 ≤ pkt.length)
    (hold : word pkt (ihl + side.port) = old) :
    L4Valid ihl proto off (portRewritten pkt ihl side proto old new) := by
  obtain ⟨ho, hoff, ht⟩ := csumOffset_spec hp
  have hs := side.port_le
  unfold portRewritten
  split
  · exact h
  rw [if_neg (by omega)]
  have hw : word (splice pkt (ihl + side.port) (beBytes new)) (ihl + off) = word pkt (ihl + off) :=
    word_splice_of_disjoint (by rw [length_beBytes]; omega)
  have htot : ∀ new : UInt16,
      l4Total ihl proto off (splice pkt (ihl + side.port) (beBytes new)) + old.toNat =
        l4Total ihl proto off pkt + new.toNat := by
    intro new
    have hd := sumExcept_splice (b := pkt.drop ihl) new side.even_port ho
      (by rw [List.length_drop]; omega) (by rw [List.length_drop]; omega) (by omega)
    rw [word_drop, hold] at hd
    rw [l4Total, l4Total, addr_splice_of_disjoint (by omega), addr_splice_of_disjoint (by omega),
      length_splice, drop_splice (by omega), Nat.add_sub_cancel_left]
    omega
  have hle : old.toNat ≤ l4Total ihl proto off pkt := by
    have e := htot 0
    simp only [UInt16.toNat_zero] at e
    omega
  have htot := htot new
  refine l4Valid_patched hp hi (by simpa using hl) (fun hu => ?_) ?_ fun hu => ?_
  · rw [hw]; exact h.ne_zero hu
  · obtain ⟨r, hr⟩ := Nat.exists_eq_add_of_le' hle
    rw [hw, show l4Total ihl proto off (splice pkt (ihl + side.port) (beBytes new)) =
      r + new.toNat by omega]
    exact represents_patch16 (hr ▸ h.represents)
  · rw [hw]; exact patch16_ne _ _ (h.ne hu)

/-! ### A disabled checksum -/

/-- A patch neither enables nor disables a UDP checksum. -/
theorem l4Patched_eq_zero (hp : l4CsumOffset proto = some off) (hu : proto = PROTO_UDP)
    (hl : ihl + off + 2 ≤ pkt.length) (patch : UInt16 → UInt16) :
    word (l4Patched pkt ihl proto patch) (ihl + off) = 0 ↔ word pkt (ihl + off) = 0 := by
  unfold l4Patched
  rw [hp]
  dsimp only
  split
  · exact Iff.rfl
  · next h =>
      rw [word_splice_self _ (by omega)]
      exact iff_of_false (l4Stored_ne_zero _ hu) fun e => h (.inr ⟨hu, e⟩)

theorem addrRewritten_eq_zero {old new : Ipv4Addr} (hp : l4CsumOffset proto = some off)
    (hu : proto = PROTO_UDP) (hi : 20 ≤ ihl) (hl : ihl + off + 2 ≤ pkt.length) :
    word (addrRewritten pkt ihl side old new (some proto)) (ihl + off) = 0 ↔
      word pkt (ihl + off) = 0 := by
  have hs := side.addr_le
  unfold addrRewritten
  split
  · exact Iff.rfl
  · have hw : word (splice pkt side.addr new.octets) (ihl + off) = word pkt (ihl + off) :=
      word_splice_of_disjoint (by rw [Ipv4Addr.length_octets]; omega)
    dsimp only
    rw [l4Patched_eq_zero hp hu (by simpa using hl), hdrPatched,
      word_splice_of_disjoint (by rw [length_beBytes]; omega), hw]

theorem portRewritten_eq_zero {old new : UInt16} (hp : l4CsumOffset proto = some off)
    (hu : proto = PROTO_UDP) (hl : ihl + off + 2 ≤ pkt.length) :
    word (portRewritten pkt ihl side proto old new) (ihl + off) = 0 ↔
      word pkt (ihl + off) = 0 := by
  obtain ⟨-, hoff, ht⟩ := csumOffset_spec hp
  have hs := side.port_le
  unfold portRewritten
  split
  · exact Iff.rfl
  · rw [if_neg (by omega), l4Patched_eq_zero hp hu (by simpa using hl),
      word_splice_of_disjoint (by rw [length_beBytes]; omega)]

/-! ### Validity and the computation from scratch -/

theorem wordSum_pos {b : Bytes} (h : 2 ≤ b.length) (h₀ : b.getD 0 0 ≠ 0) : 0 < wordSum b := by
  have e := wordSum_split (b := b) (i := 0) (by decide) (by omega)
  have hw : 0 < (word b 0).toNat := by
    have hp : 0 < (b.getD 0 0).toNat := Nat.pos_of_ne_zero fun e => h₀ (UInt8.toNat_inj.mp e)
    rw [word, be16_toNat]
    omega
  omega

theorem hdrTotal_pos (h : HdrOk pkt) : 0 < hdrTotal (ihlOf pkt) pkt := by
  obtain ⟨hl, hv, hi, hle⟩ := h
  refine wordSum_pos (by rw [length_splice, List.length_take]; omega) fun e => ?_
  rw [getD_splice, if_neg (by omega)] at e
  have e' : (pkt.take (ihlOf pkt)).getD 0 0 = pkt.getD 0 0 := by
    simp [List.getD_eq_getElem?_getD, show 0 < ihlOf pkt by omega]
  rw [← e', e] at hv
  exact absurd hv (by decide)

/-- The header length field has four bits. -/
theorem ihlOf_le (pkt : Bytes) : ihlOf pkt ≤ 60 := by
  have h : (pkt.getD 0 0 &&& 0x0f).toNat ≤ 15 := by
    rw [UInt8.toNat_and]
    exact Nat.and_le_right
  unfold ihlOf
  omega

theorem hdrCsum_toNat (pkt : Bytes) :
    (hdrCsum pkt).toNat = 65535 - carried (hdrTotal (ihlOf pkt) pkt) := by
  have h := ihlOf_le pkt
  exact checksum_toNat (by rw [length_splice, List.length_take]; omega)

/-- A header checksum is the computed one exactly when it is valid. -/
theorem hdrValid_iff (h : HdrOk pkt) :
    hdrField pkt = hdrCsum pkt ↔ HdrValid (ihlOf pkt) pkt := by
  have hc := hdrCsum_toNat pkt
  have hp := carried_pos (hdrTotal_pos h)
  constructor
  · intro e
    have e' : word pkt 10 = hdrCsum pkt := e
    rw [← e'] at hc
    refine ⟨represents_of_carried hc, fun e => ?_⟩
    rw [e, show (65535 : UInt16).toNat = 65535 from rfl] at hc
    omega
  · intro v
    exact UInt16.toNat_inj.mp ((eq_of_represents v.represents v.ne (hdrTotal_pos h)).trans hc.symm)

theorem csumOffset_eq (ht : isTcpUdp (pkt.getD 9 0) = true) :
    l4CsumOffset (pkt.getD 9 0) = some (csumOffset pkt) := by
  unfold csumOffset l4CsumOffset
  simp only [isTcpUdp, Bool.or_eq_true, beq_iff_eq] at ht
  rcases ht with h | h <;> rw [h] <;> rfl

theorem l4Total_pos (ht : isTcpUdp (pkt.getD 9 0) = true) :
    0 < l4Total (ihlOf pkt) (pkt.getD 9 0) (csumOffset pkt) pkt := by
  have hp : 0 < (pkt.getD 9 0).toNat := by
    simp only [isTcpUdp, Bool.or_eq_true, beq_iff_eq] at ht
    rcases ht with h | h <;> rw [h] <;> decide
  unfold l4Total
  omega

theorem wordSum_pseudoHeader (h : pkt.length ≤ 65535) :
    wordSum (pseudoHeader pkt) =
      ipSum (addr pkt 12) + ipSum (addr pkt 16) + (pkt.getD 9 0).toNat +
        (pkt.length - ihlOf pkt) := by
  have hn : (UInt16.ofNat (pkt.length - ihlOf pkt)).toNat = pkt.length - ihlOf pkt := by
    rw [UInt16.toNat_ofNat']
    omega
  have hb : ∀ w, wordSum (beBytes w) = w.toNat := by
    intro w
    have e := congrArg UInt16.toNat (be16_beBytes w)
    simpa [wordSum, beBytes] using e
  rw [pseudoHeader, wordSum_append _ ⟨5, rfl⟩, wordSum_append _ ⟨4, rfl⟩,
    wordSum_append _ ⟨2, rfl⟩, hb, hn]
  simp [wordSum, Ipv4Addr.octets, ipSum]

theorem l4Csum_eq (hl : pkt.length ≤ 65535) (hi : 20 ≤ ihlOf pkt) :
    ∃ c : UInt16, l4Csum pkt = l4Stored (pkt.getD 9 0) c ∧
      c.toNat = 65535 - carried (l4Total (ihlOf pkt) (pkt.getD 9 0) (csumOffset pkt) pkt) := by
  refine ⟨_, rfl, ?_⟩
  have he : Even (pseudoHeader pkt).length := ⟨6, rfl⟩
  rw [checksum_toNat, wordSum_append _ he, wordSum_pseudoHeader hl]
  · rfl
  · rw [List.length_append, length_splice, List.length_drop, show (pseudoHeader pkt).length = 12
      from rfl]
    omega

/-- An L4 checksum is the computed one exactly when it is valid. -/
theorem l4Valid_iff (h : HdrOk pkt) (ht : isTcpUdp (pkt.getD 9 0) = true)
    (hl : pkt.length ≤ 65535) :
    l4Field pkt = l4Csum pkt ↔
      L4Valid (ihlOf pkt) (pkt.getD 9 0) (csumOffset pkt) pkt := by
  obtain ⟨c, he, hc⟩ := l4Csum_eq hl h.2.2.1
  have hpos := l4Total_pos ht
  have hcp := carried_pos hpos
  have hcn : c ≠ 65535 := by
    intro e
    rw [e, show (65535 : UInt16).toNat = 65535 from rfl] at hc
    omega
  rw [he]
  constructor
  · intro e
    have e' : word pkt (ihlOf pkt + csumOffset pkt) = l4Stored (pkt.getD 9 0) c := e
    refine ⟨?_, fun hu => ?_, fun hu => ?_⟩
    · rw [e']; exact represents_l4Stored (represents_of_carried hc)
    · rw [e']; exact l4Stored_ne_zero c hu
    · rw [e', l4Stored_of_ne c hu]; exact hcn
  · intro v
    change word pkt (ihlOf pkt + csumOffset pkt) = _
    by_cases hw : word pkt (ihlOf pkt + csumOffset pkt) = 65535
    · -- Only UDP stores the second zero, and for a sum whose complement is the first.
      have hu : pkt.getD 9 0 = PROTO_UDP := by
        by_contra hu
        exact v.ne hu hw
      have hr := v.represents
      rw [hw] at hr
      have hz : c = 0 := by
        have hm := (carried_modEq (l4Total (ihlOf pkt) (pkt.getD 9 0) (csumOffset pkt) pkt)).trans
          hr.symm
        have hle := carried_le (l4Total (ihlOf pkt) (pkt.getD 9 0) (csumOffset pkt) pkt)
        rw [show (65535 : UInt16).toNat = 65535 from rfl] at hm
        unfold Nat.ModEq at hm
        apply UInt16.toNat_inj.mp
        rw [UInt16.toNat_zero]
        omega
      rw [hw, hz, l4Stored, if_pos ⟨rfl, hu⟩]
    · have e := UInt16.toNat_inj.mp ((eq_of_represents v.represents hw hpos).trans hc.symm)
      rw [e, l4Stored]
      split
      · next h => exact absurd (e.trans h.1) (v.ne_zero h.2)
      · rfl

/-! ### The law -/

/-- An outbound TCP or UDP packet with its header is keyed, or leaves by the forward. -/
theorem outClass_tcpUdp {nat : Nat44} (ht : isTcpUdp (pkt.getD 9 0) = true)
    (hf : fragOffsetOf pkt = 0) :
    nat.outClass pkt = .drop ∨ (HdrOk pkt ∧ nat.outClass pkt = .forwarded) ∨
      ∃ key, nat.outClass pkt = .keyed key := by
  unfold Nat44.outClass
  split
  swap
  · exact .inl rfl
  next hok =>
  rw [if_neg (not_not.mpr hf)]
  cases hl : outL4 pkt with
  | drop => exact .inl rfl
  | stateless =>
      unfold outL4 at hl
      dsimp only at hl
      rw [if_pos ht] at hl
      split at hl <;> cases hl
  | ports sport dport =>
      dsimp only
      split
      · exact .inr (.inl ⟨hok.1, rfl⟩)
      · exact .inr (.inr ⟨_, rfl⟩)

/-- An inbound one is keyed, or arrives by the forward. -/
theorem inClass_tcpUdp {nat : Nat44} (ht : isTcpUdp (pkt.getD 9 0) = true)
    (hf : fragOffsetOf pkt = 0) :
    nat.inClass pkt = .drop ∨
      (HdrOk pkt ∧ addr pkt 16 = nat.wgAddr ∧ ∃ f, nat.inClass pkt = .forwarded f) ∨
      ∃ k, nat.inClass pkt = .keyed k := by
  unfold Nat44.inClass
  split
  swap
  · exact .inl rfl
  next hok =>
  rw [if_neg (not_not.mpr hf)]
  cases hl : inL4 pkt with
  | drop => exact .inl rfl
  | icmpError =>
      unfold inL4 at hl
      dsimp only at hl
      rw [if_pos ht] at hl
      split at hl <;> cases hl
  | port p =>
      dsimp only
      split
      · exact .inr (.inl ⟨hok.1, hok.2, _, rfl⟩)
      · exact .inr (.inr ⟨_, rfl⟩)

/-- An address rewrite alone is a rewrite of the side that keeps the port. -/
theorem sideRewritten_self (side : Side) (old new : Ipv4Addr) (p : UInt16) :
    sideRewritten side pkt old new proto p p =
      addrRewritten pkt (ihlOf pkt) side old new (some proto) := by
  rw [sideRewritten, portRewritten, if_pos rfl]

/-- What leaves with its L4 header is rewritten at its source. -/
theorem translatedOut_side {nat nat' : Nat44} {pkt' : Bytes} {now : Instant}
    (ht : isTcpUdp (pkt.getD 9 0) = true) (hf : fragOffsetOf pkt = 0)
    (e : nat.translateOut pkt now = .ok (.translate, nat', pkt')) :
    HdrOk pkt ∧ ∃ new p, pkt' = sideRewritten .src pkt (addr pkt 12) new
      (pkt.getD 9 0) (word pkt (ihlOf pkt + Side.src.port)) p := by
  have hic : pkt.getD 9 0 ≠ PROTO_ICMP := ne_icmp_of_isTcpUdp ht
  rcases outClass_tcpUdp ht hf with hc | ⟨hok, hc⟩ | ⟨key, hc⟩
  · rw [Nat44.translateOut_eq, hc] at e
    cases e
  · -- the forward's host keeps its port
    rw [Nat44.translateOut_eq, hc] at e
    cases e
    exact ⟨hok, nat.wgAddr, _, (sideRewritten_self _ _ _ _).symm⟩
  · obtain ⟨hk, -⟩ := Nat44.outClass_keyed_iff.mp hc
    obtain ⟨hok, -, hp, hs, -, hl⟩ := outTuple_eq_some.mp hk
    obtain ⟨-, ⟨-, hsp, -⟩ | ⟨hi, -⟩⟩ := outL4_ports_iff.mp hl
    swap
    · exact absurd hi hic
    rcases Nat44.translateOut_cases e with ⟨hn, -⟩ | ⟨key', -, -, hv, -⟩ |
        ⟨key', p, nat₁, hc', -, -, hpkt, -⟩
    · exact absurd hc (hn key)
    · cases hv
    · rw [hc] at hc'
      cases hc'
      refine ⟨hok, nat.wgAddr, p, ?_⟩
      rw [hpkt, outRewritten, hp, hs, ← hsp]
      rfl

/-- What arrives with its L4 header is rewritten at its destination. -/
theorem translatedIn_side {nat nat' : Nat44} {pkt' : Bytes} {now : Instant}
    (ht : isTcpUdp (pkt.getD 9 0) = true) (hf : fragOffsetOf pkt = 0)
    (e : nat.translateIn pkt now = .ok (.translate, nat', pkt')) :
    HdrOk pkt ∧ ∃ new p, pkt' = sideRewritten .dst pkt (addr pkt 16) new
      (pkt.getD 9 0) (word pkt (ihlOf pkt + Side.dst.port)) p := by
  have hic : pkt.getD 9 0 ≠ PROTO_ICMP := ne_icmp_of_isTcpUdp ht
  rcases inClass_tcpUdp ht hf with hc | ⟨hok, ha, f, hc⟩ | ⟨k, hc⟩
  · rw [Nat44.translateIn_eq, hc] at e
    cases e
  · -- the forward's host takes it on the port it came for
    rw [Nat44.translateIn_eq, hc] at e
    cases e
    refine ⟨hok, f.host, word pkt (ihlOf pkt + Side.dst.port), ?_⟩
    rw [← ha]
    exact (sideRewritten_self _ _ _ _).symm
  · obtain ⟨hk, ha, hff⟩ := Nat44.inClass_keyed_iff.mp hc
    obtain ⟨hok, -, hp, hl⟩ := inTarget_eq_some.mp hk
    obtain ⟨-, ⟨-, hdp⟩ | ⟨hi, -⟩⟩ := inL4_port_iff.mp hl
    swap
    · exact absurd hi hic
    rw [Nat44.translateIn_target hk ha hff] at e
    cases hb : nat.rev.lookup k with
    | none => rw [hb] at e; cases e
    | some b =>
        rw [hb] at e
        cases e
        refine ⟨hok, b.src, b.sport, ?_⟩
        rw [inRewritten, hp, ← hdp, ← ha]
        rfl

/-- What is translated with its L4 header is rewritten at one side. -/
theorem translated_side {nat nat' : Nat44} {pkt' : Bytes} {now : Instant}
    (ht : isTcpUdp (pkt.getD 9 0) = true) (hf : fragOffsetOf pkt = 0)
    (e : nat.translateOut pkt now = .ok (.translate, nat', pkt') ∨
      nat.translateIn pkt now = .ok (.translate, nat', pkt')) :
    HdrOk pkt ∧ ∃ side new p, pkt' = sideRewritten side pkt (addr pkt side.addr) new
      (pkt.getD 9 0) (word pkt (ihlOf pkt + side.port)) p := by
  rcases e with e | e
  · obtain ⟨hok, hside⟩ := translatedOut_side ht hf e
    exact ⟨hok, .src, hside⟩
  · obtain ⟨hok, hside⟩ := translatedIn_side ht hf e
    exact ⟨hok, .dst, hside⟩

/-- A translation keeps computed checksums computed, and a disabled one disabled. -/
theorem checksums_repaired {nat nat' : Nat44} {pkt pkt' : Bytes} {now : Instant}
    (hl : pkt.length ≤ 65535) (ht : isTcpUdp (pkt.getD 9 0) = true) (hf : fragOffsetOf pkt = 0)
    (hc : ihlOf pkt + csumOffset pkt + 2 ≤ pkt.length)
    (e : nat.translateOut pkt now = .ok (.translate, nat', pkt') ∨
      nat.translateIn pkt now = .ok (.translate, nat', pkt')) :
    (hdrField pkt = hdrCsum pkt → hdrField pkt' = hdrCsum pkt') ∧
    (l4Field pkt = l4Csum pkt → l4Field pkt' = l4Csum pkt') ∧
    (pkt.getD 9 0 = PROTO_UDP → (l4Field pkt' = 0 ↔ l4Field pkt = 0)) := by
  obtain ⟨hok, side, new, p, hpkt⟩ := translated_side ht hf e
  have hi := hok.2.2.1
  have hp := csumOffset_eq ht
  have hok' : HdrOk pkt' := hpkt ▸ hdrOk_sideRewritten hok
  have hlen : pkt'.length = pkt.length := hpkt ▸ length_sideRewritten
  have hproto : pkt'.getD 9 0 = pkt.getD 9 0 := hpkt ▸ getD_sideRewritten_header hi (by omega)
  have hihl : ihlOf pkt' = ihlOf pkt := hpkt ▸ ihlOf_sideRewritten hi
  have hoff : csumOffset pkt' = csumOffset pkt := by rw [csumOffset, hproto, csumOffset]
  have hport : word (addrRewritten pkt (ihlOf pkt) side (addr pkt side.addr) new
      (some (pkt.getD 9 0))) (ihlOf pkt + side.port) = word pkt (ihlOf pkt + side.port) :=
    word_addrRewritten hi (by have := side.port_le; omega)
  refine ⟨fun h => ?_, fun h => ?_, fun hu => ?_⟩
  · rw [hdrValid_iff hok', hihl, hpkt]
    exact (((hdrValid_iff hok).mp h).addr hi hok.2.2.2 _).port hi _ _ _
  · rw [l4Valid_iff hok' (hproto ▸ ht) (hlen ▸ hl), hihl, hproto, hoff, hpkt]
    exact (((l4Valid_iff hok ht hl).mp h).addr hp hi hc).port hp hi (by simpa using hc) hport
  · rw [l4Field, l4Field, hihl, hoff, hpkt, sideRewritten,
      portRewritten_eq_zero hp hu (by simpa using hc), addrRewritten_eq_zero hp hu hi hc]

/-- A SYN from 198.18.0.1:40000 to 93.184.216.34:443, its checksums computed. -/
def synPacket : Bytes :=
  [0x45, 0, 0, 40, 0x12, 0x34, 0, 0, 64, 6, 108, 174, 198, 18, 0, 1, 93, 184, 216, 34,
    0x9c, 0x40, 0x01, 0xbb, 0, 0, 0, 0, 0, 0, 0, 0, 0x50, 2, 0, 0, 21, 249, 0, 0]

/-- The SYN goes out, and its fields are what a computation gives for the packet sent. -/
theorem checksums_repaired_syn :
    ∃ nat' pkt', (Nat44.new ⟨10, 2, 0, 2⟩).translateOut synPacket 0 =
        .ok (.translate, nat', pkt') ∧
      hdrField pkt' = hdrCsum pkt' ∧ l4Field pkt' = l4Csum pkt' := by
  obtain ⟨nat', pkt', e⟩ : ∃ nat' pkt', (Nat44.new ⟨10, 2, 0, 2⟩).translateOut synPacket 0 =
      .ok (.translate, nat', pkt') := ⟨_, _, rfl⟩
  have h := checksums_repaired (by decide) (by decide) (by decide) (by decide) (.inl e)
  exact ⟨nat', pkt', e, h.1 (by decide), h.2.1 (by decide)⟩

end Tunnel.Wg
