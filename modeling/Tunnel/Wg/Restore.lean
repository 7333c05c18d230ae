import Tunnel.Wg.Checksum
import Tunnel.Wg.Quote

/-!
# Wg — What an ICMP error gives back

A packet goes out translated, an error quotes the beginning of it, and the error comes in: the quote
has the packet's own source again, and its own checksums.  The sums they cover may be cut off, so
nothing can be recomputed.  A patch moves a field by the difference of what it replaces, modulo
`2¹⁶ - 1`, and keeps it in the form that is written (`InUse`); there and back the differences cancel,
and a form stands for each sum once.

* `patch16_modEq`, `patch32_modEq`: a patch as a difference.
* `hdrWord_back`, `l4Word_back`, `icmpWord_back`: each field, there and back.
* `error_restores`: the law, for any two states of a NAT.
-/

namespace Tunnel.Wg
open Support

/-! ### A patch as a difference -/

theorem patch16_modEq (c old new : UInt16) :
    (patch16 c old new).toNat + new.toNat ≡ c.toNat + old.toNat [MOD 65535] := by
  have hc := c.toNat_lt
  have ho := old.toNat_lt
  have hle := carried_le (65535 - c.toNat + (65535 - old.toNat) + new.toNat)
  have hm := carried_modEq (65535 - c.toNat + (65535 - old.toNat) + new.toNat)
  rw [patch16_toNat]
  unfold Nat.ModEq at hm ⊢
  omega

theorem patch32_modEq (c : UInt16) (old new : Ipv4Addr) :
    (patch32 c old new).toNat + ipSum new ≡ c.toNat + ipSum old [MOD 65535] := by
  have h₁ := patch16_modEq c (be16 old.a old.b) (be16 new.a new.b)
  have h₂ := patch16_modEq (patch16 c (be16 old.a old.b) (be16 new.a new.b)) (be16 old.c old.d)
    (be16 new.c new.d)
  change (patch32 c old new).toNat + _ ≡ _ [MOD 65535] at h₂
  unfold ipSum Nat.ModEq at *
  omega

/-- The form in which a checksum in use is written: UDP never writes `0`, the others never
`0xffff`. -/
def InUse (proto : UInt8) (w : UInt16) : Prop :=
  (proto = PROTO_UDP → w ≠ 0) ∧ (proto ≠ PROTO_UDP → w ≠ 65535)

/-- A form stands for each sum once. -/
theorem InUse.unique {proto : UInt8} {w v : UInt16} (hw : InUse proto w) (hv : InUse proto v)
    (h : w.toNat ≡ v.toNat [MOD 65535]) : w = v := by
  have hwl := w.toNat_lt
  have hvl := v.toNat_lt
  have hne : ∀ {u c : UInt16}, u ≠ c → u.toNat ≠ c.toNat := fun h e => h (UInt16.toNat_inj.mp e)
  unfold Nat.ModEq at h
  apply UInt16.toNat_inj.mp
  by_cases hp : proto = PROTO_UDP
  · have h₁ := hne (hw.1 hp)
    have h₂ := hne (hv.1 hp)
    simp only [UInt16.toNat_zero] at h₁ h₂
    omega
  · have h₁ := hne (hw.2 hp)
    have h₂ := hne (hv.2 hp)
    simp only [UInt16.reduceToNat] at h₁ h₂
    omega

/-- The header checksum, and those of TCP and ICMP, are written in one form. -/
theorem inUse_of_ne {w : UInt16} (h : w ≠ 65535) : InUse PROTO_TCP w :=
  ⟨fun e => absurd e (by decide), fun _ => h⟩

theorem InUse.stored {proto : UInt8} {c : UInt16} (h : proto ≠ PROTO_UDP → c ≠ 65535) :
    InUse proto (l4Stored proto c) :=
  ⟨fun hp => l4Stored_ne_zero c hp, fun hp => by rw [l4Stored_of_ne c hp]; exact h hp⟩

theorem l4Stored_modEq (proto : UInt8) (c : UInt16) :
    (l4Stored proto c).toNat ≡ c.toNat [MOD 65535] := by
  unfold l4Stored
  split
  · next h => rw [h.1]; decide
  · exact .refl _

/-! ### A rewritten field -/

/-- `w'` is a field `w` after a change of what it covers from `old` to `new`. -/
structure Moved (proto : UInt8) (w w' : UInt16) (old new : ℕ) : Prop where
  inUse : InUse proto w'
  modEq : w'.toNat + new ≡ w.toNat + old [MOD 65535]

/-- A field is left as it is where the change is none modulo `2¹⁶ - 1`. -/
theorem Moved.eq_iff {proto : UInt8} {w w' : UInt16} {old new : ℕ} (hw : InUse proto w)
    (h : Moved proto w w' old new) : w' = w ↔ old ≡ new [MOD 65535] := by
  have hm := h.modEq
  constructor
  · rintro rfl
    exact (Nat.ModEq.add_left_cancel' _ hm).symm
  · intro e
    refine h.inUse.unique hw (Nat.ModEq.add_right_cancel' new (hm.trans ?_))
    exact e.add_left _

/-- There and back, a field is what it was. -/
theorem Moved.back {proto : UInt8} {w w' w'' : UInt16} {old new : ℕ} (hw : InUse proto w)
    (h : Moved proto w w' old new) (h' : Moved proto w' w'' new old) : w'' = w := by
  refine h'.inUse.unique hw ?_
  have h₁ := h.modEq
  have h₂ := h'.modEq
  unfold Nat.ModEq at *
  omega

theorem Moved.refl {proto : UInt8} {w : UInt16} (hw : InUse proto w) (s : ℕ) :
    Moved proto w w s s := ⟨hw, .refl _⟩

theorem Moved.trans {proto : UInt8} {w w' w'' : UInt16} {a b c d : ℕ}
    (h : Moved proto w w' a b) (h' : Moved proto w' w'' c d) :
    Moved proto w w'' (a + c) (b + d) := by
  refine ⟨h'.inUse, ?_⟩
  have h₁ := h.modEq
  have h₂ := h'.modEq
  unfold Nat.ModEq at *
  omega

variable {side : Side} {pkt : Bytes} {ihl off : ℕ} {old new : Ipv4Addr} {proto : UInt8}
  {p q : UInt16}

/-- The header checksum after an address rewrite. -/
theorem hdrWord_addrRewritten (hl : 20 ≤ pkt.length) (hi : 20 ≤ ihl) (l4 : Option UInt8)
    (hw : word pkt 10 ≠ 65535) :
    Moved PROTO_TCP (word pkt 10) (word (addrRewritten pkt ihl side old new l4) 10) (ipSum old)
      (ipSum new) := by
  have hs := side.addr_le
  have hs' := side.le_addr
  unfold addrRewritten
  split
  · next e => rw [e]; exact .refl (inUse_of_ne hw) _
  · have hp : word (hdrPatched (splice pkt side.addr new.octets) old new) 10 =
        patch32 (word pkt 10) old new := by
      rw [hdrPatched, word_splice_self _ (by rw [length_splice]; omega),
        word_splice_of_disjoint (by omega)]
    have hm : Moved PROTO_TCP (word pkt 10) (patch32 (word pkt 10) old new) (ipSum old)
        (ipSum new) := ⟨inUse_of_ne (patch32_ne old new hw), patch32_modEq _ old new⟩
    cases l4 with
    | none => dsimp only; rw [hp]; exact hm
    | some proto => dsimp only; rw [hdrField_l4Patched hi, hp]; exact hm

/-- The header checksum after a rewrite of one side: the port lies behind the header. -/
theorem hdrWord_sideRewritten (hok : HdrOk pkt) (hw : word pkt 10 ≠ 65535) :
    Moved PROTO_TCP (word pkt 10) (word (sideRewritten side pkt old new proto p q) 10) (ipSum old)
      (ipSum new) := by
  have hi := hok.2.2.1
  have hport : word (sideRewritten side pkt old new proto p q) 10 =
      word (addrRewritten pkt (ihlOf pkt) side old new (some proto)) 10 :=
    word_congr (getD_portRewritten (fun _ => by omega) (fun _ _ => by omega) fun _ => by omega)
      (getD_portRewritten (fun _ => by omega) (fun _ _ => by omega) fun _ => by omega)
  rw [hport]
  exact hdrWord_addrRewritten hok.1 hi _ hw

/-- A patched L4 field. -/
theorem l4Word_patched (ho : l4CsumOffset proto = some off) (hl : ihl + off + 2 ≤ pkt.length)
    (hw : InUse proto (word pkt (ihl + off))) {patch : UInt16 → UInt16} {a b : ℕ}
    (hm : ∀ w, (patch w).toNat + b ≡ w.toNat + a [MOD 65535])
    (hn : ∀ w : UInt16, w ≠ 65535 → patch w ≠ 65535) :
    Moved proto (word pkt (ihl + off)) (word (l4Patched pkt ihl proto patch) (ihl + off)) a b := by
  have he : word (l4Patched pkt ihl proto patch) (ihl + off) =
      l4Stored proto (patch (word pkt (ihl + off))) := by
    unfold l4Patched
    rw [ho]
    dsimp only
    rw [if_neg, word_splice_self _ (by omega)]
    rintro (h | ⟨h, h'⟩)
    · omega
    · exact hw.1 h h'
  rw [he]
  refine ⟨.stored fun h => hn _ (hw.2 h), ?_⟩
  exact ((l4Stored_modEq proto _).add_right b).trans (hm _)

/-- An L4 field after a rewrite of one side. -/
theorem l4Word_sideRewritten (hi : 20 ≤ ihlOf pkt) (ho : l4CsumOffset proto = some off)
    (hl : ihlOf pkt + off + 2 ≤ pkt.length) (hw : InUse proto (word pkt (ihlOf pkt + off))) :
    Moved proto (word pkt (ihlOf pkt + off))
      (word (sideRewritten side pkt old new proto p q) (ihlOf pkt + off))
      (ipSum old + p.toNat) (ipSum new + q.toNat) := by
  obtain ⟨-, hoff, ht⟩ := csumOffset_spec ho
  have hs := side.addr_le
  have hs' := side.port_le
  have haddr : Moved proto (word pkt (ihlOf pkt + off))
      (word (addrRewritten pkt (ihlOf pkt) side old new (some proto)) (ihlOf pkt + off))
      (ipSum old) (ipSum new) := by
    unfold addrRewritten
    split
    · next e => rw [e]; exact .refl hw _
    · have hk : word (hdrPatched (splice pkt side.addr new.octets) old new) (ihlOf pkt + off) =
          word pkt (ihlOf pkt + off) := by
        rw [hdrPatched, word_splice_of_disjoint (by rw [length_beBytes]; omega),
          word_splice_of_disjoint (by rw [Ipv4Addr.length_octets]; omega)]
      dsimp only
      rw [← hk]
      exact l4Word_patched ho (by simpa using hl) (by rw [hk]; exact hw)
        (fun w => patch32_modEq w old new) fun w => patch32_ne old new
  refine haddr.trans ?_
  rw [sideRewritten, portRewritten]
  generalize hb : addrRewritten pkt (ihlOf pkt) side old new (some proto) = b at haddr ⊢
  have hbl : b.length = pkt.length := by rw [← hb, length_addrRewritten]
  split
  · next e => rw [e]; exact .refl haddr.inUse _
  · rw [if_neg (by omega)]
    have hk : word (splice b (ihlOf pkt + side.port) (beBytes q)) (ihlOf pkt + off) =
        word b (ihlOf pkt + off) :=
      word_splice_of_disjoint (by rw [length_beBytes]; omega)
    rw [← hk]
    exact l4Word_patched ho (by rw [length_splice]; omega) (by rw [hk]; exact haddr.inUse)
      (fun w => patch16_modEq w p q) fun w => patch16_ne p q

/-- An ICMP checksum after a rewrite of the identifier. -/
theorem icmpWord_sideRewritten (hi : 20 ≤ ihlOf pkt) (hl : ihlOf pkt + 8 ≤ pkt.length)
    (hw : word pkt (ihlOf pkt + 2) ≠ 65535) :
    Moved PROTO_TCP (word pkt (ihlOf pkt + 2))
      (word (sideRewritten side pkt old new PROTO_ICMP p q) (ihlOf pkt + 2)) p.toNat q.toNat := by
  have ha : word (addrRewritten pkt (ihlOf pkt) side old new (some PROTO_ICMP)) (ihlOf pkt + 2) =
      word pkt (ihlOf pkt + 2) := word_addrRewritten hi (by omega)
  rw [sideRewritten, portRewritten]
  split
  · next e => rw [ha, e]; exact .refl (inUse_of_ne hw) _
  · rw [if_neg (by decide), if_pos rfl, idPatched, if_neg (by rw [length_addrRewritten]; omega),
      word_splice_self _ (by rw [length_splice, length_addrRewritten]; omega), ha]
    exact ⟨inUse_of_ne (patch16_ne p q hw), patch16_modEq _ p q⟩

/-! ### A cut packet -/

section Cut

variable {n : ℕ}

theorem getD_take {b : Bytes} {j : ℕ} (h : j < n) : (b.take n).getD j 0 = b.getD j 0 := by
  simp [List.getD_eq_getElem?_getD, h]

theorem word_take {b : Bytes} {j : ℕ} (h : j + 2 ≤ n) : word (b.take n) j = word b j :=
  word_congr (getD_take (by omega)) (getD_take (by omega))

theorem addr_take {b : Bytes} {j : ℕ} (h : j + 4 ≤ n) : addr (b.take n) j = addr b j :=
  addr_congr fun k hk => getD_take (by omega)

theorem ihlOf_take {b : Bytes} (h : 1 ≤ n) : ihlOf (b.take n) = ihlOf b := by
  rw [ihlOf, getD_take h, ← ihlOf]

theorem hdrOk_take {b : Bytes} (hok : HdrOk b) (h : ihlOf b ≤ n) : HdrOk (b.take n) := by
  obtain ⟨hl, hv, hi, hle⟩ := hok
  refine ⟨?_, ?_, ?_, ?_⟩
  · rw [List.length_take]; omega
  · rwa [getD_take (by omega)]
  · rwa [ihlOf_take (by omega)]
  · rw [ihlOf_take (by omega), List.length_take]; omega

theorem fragOffsetOf_take {b : Bytes} (h : 8 ≤ n) : fragOffsetOf (b.take n) = fragOffsetOf b := by
  rw [fragOffsetOf, word_take h, ← fragOffsetOf]

end Cut

/-! ### There and back -/

section Back

variable {key : FwdKey} {wg : Ipv4Addr} {n : ℕ}

/-- The first `n` bytes of a packet sent from port `p`, its own source put back. -/
def putBack (wg : Ipv4Addr) (pkt : Bytes) (key : FwdKey) (p : UInt16) (n : ℕ) : Bytes :=
  sideRewritten .src ((outRewritten wg pkt key p).take n) wg key.src key.proto p key.sport

theorem ihlOf_outRewritten (hok : HdrOk pkt) (wg : Ipv4Addr) (key : FwdKey) (p : UInt16) :
    ihlOf (outRewritten wg pkt key p) = ihlOf pkt := ihlOf_sideRewritten hok.2.2.1

theorem ihlOf_sent (hok : HdrOk pkt) (hn : ihlOf pkt + 8 ≤ n) (wg : Ipv4Addr) (key : FwdKey)
    (p : UInt16) : ihlOf ((outRewritten wg pkt key p).take n) = ihlOf pkt := by
  rw [ihlOf_take (by omega), ihlOf_outRewritten hok]

theorem hdrOk_sent (hok : HdrOk pkt) (hn : ihlOf pkt + 8 ≤ n) (wg : Ipv4Addr) (key : FwdKey)
    (p : UInt16) : HdrOk ((outRewritten wg pkt key p).take n) :=
  hdrOk_take (hdrOk_sideRewritten hok) (by rw [ihlOf_outRewritten hok]; omega)

theorem length_sent (wg : Ipv4Addr) (pkt : Bytes) (key : FwdKey) (p : UInt16) (n : ℕ) :
    ((outRewritten wg pkt key p).take n).length = min n pkt.length := by
  rw [List.length_take, outRewritten, length_portRewritten, length_addrRewritten]

theorem ihlOf_putBack (hok : HdrOk pkt) (hn : ihlOf pkt + 8 ≤ n) :
    ihlOf (putBack wg pkt key p n) = ihlOf pkt := by
  have hihl := ihlOf_sent hok hn wg key p
  rw [putBack, ihlOf_sideRewritten (by rw [hihl]; exact hok.2.2.1), hihl]

theorem length_putBack : (putBack wg pkt key p n).length = min n pkt.length := by
  rw [putBack, length_sideRewritten, length_sent]

/-- The quote's protocol is the packet's. -/
theorem proto_putBack (hok : HdrOk pkt) (hn : ihlOf pkt + 8 ≤ n) :
    (putBack wg pkt key p n).getD 9 0 = pkt.getD 9 0 := by
  have hi := hok.2.2.1
  rw [putBack, getD_sideRewritten_header (by rw [ihlOf_sent hok hn]; exact hi) (by omega),
    getD_take (by omega)]
  exact getD_sideRewritten_header hi (by omega)

theorem hdrWord_back (hok : HdrOk pkt) (hn : ihlOf pkt + 8 ≤ n) (hw : word pkt 10 ≠ 65535) :
    word (putBack wg pkt key p n) 10 = word pkt 10 := by
  have hi := hok.2.2.1
  have hout : Moved PROTO_TCP (word pkt 10) (word (outRewritten wg pkt key p) 10)
      (ipSum key.src) (ipSum wg) := hdrWord_sideRewritten hok hw
  have hcut : word ((outRewritten wg pkt key p).take n) 10 = word (outRewritten wg pkt key p) 10 :=
    word_take (by omega)
  have hin : Moved PROTO_TCP (word ((outRewritten wg pkt key p).take n) 10)
      (word (putBack wg pkt key p n) 10) (ipSum wg) (ipSum key.src) :=
    hdrWord_sideRewritten (hdrOk_sent hok hn wg key p)
      (by rw [hcut]; exact hout.inUse.2 (by decide))
  rw [hcut] at hin
  exact hout.back (inUse_of_ne hw) hin

theorem l4Word_back (hok : HdrOk pkt) (hn : ihlOf pkt + 8 ≤ n)
    (ho : l4CsumOffset key.proto = some off) (hl : ihlOf pkt + off + 2 ≤ pkt.length)
    (hln : ihlOf pkt + off + 2 ≤ n) (hw : InUse key.proto (word pkt (ihlOf pkt + off))) :
    word (putBack wg pkt key p n) (ihlOf pkt + off) = word pkt (ihlOf pkt + off) := by
  have hi := hok.2.2.1
  have hihl := ihlOf_sent hok hn wg key p
  have hout : Moved key.proto (word pkt (ihlOf pkt + off))
      (word (outRewritten wg pkt key p) (ihlOf pkt + off))
      (ipSum key.src + key.sport.toNat) (ipSum wg + p.toNat) := l4Word_sideRewritten hi ho hl hw
  have hcut : word ((outRewritten wg pkt key p).take n) (ihlOf pkt + off) =
      word (outRewritten wg pkt key p) (ihlOf pkt + off) := word_take (by omega)
  have hlen : ihlOf pkt + off + 2 ≤ ((outRewritten wg pkt key p).take n).length := by
    rw [length_sent]
    omega
  have hin : Moved key.proto (word ((outRewritten wg pkt key p).take n) (ihlOf pkt + off))
      (word (putBack wg pkt key p n) (ihlOf pkt + off))
      (ipSum wg + p.toNat) (ipSum key.src + key.sport.toNat) := by
    rw [← hihl] at hlen ⊢
    refine l4Word_sideRewritten (by rwa [hihl]) ho hlen ?_
    rw [hihl, hcut]
    exact hout.inUse
  rw [hcut] at hin
  exact hout.back hw hin

theorem icmpWord_back (hok : HdrOk pkt) (hn : ihlOf pkt + 8 ≤ n) (hic : key.proto = PROTO_ICMP)
    (hl : ihlOf pkt + 8 ≤ pkt.length) (hw : word pkt (ihlOf pkt + 2) ≠ 65535) :
    word (putBack wg pkt key p n) (ihlOf pkt + 2) = word pkt (ihlOf pkt + 2) := by
  have hi := hok.2.2.1
  have hihl := ihlOf_sent hok hn wg key p
  have hout : Moved PROTO_TCP (word pkt (ihlOf pkt + 2))
      (word (outRewritten wg pkt key p) (ihlOf pkt + 2)) key.sport.toNat p.toNat := by
    rw [outRewritten, hic]
    exact icmpWord_sideRewritten hi hl hw
  have hcut : word ((outRewritten wg pkt key p).take n) (ihlOf pkt + 2) =
      word (outRewritten wg pkt key p) (ihlOf pkt + 2) := word_take (by omega)
  have hlen : ihlOf pkt + 8 ≤ ((outRewritten wg pkt key p).take n).length := by
    rw [length_sent]
    omega
  have hin : Moved PROTO_TCP (word ((outRewritten wg pkt key p).take n) (ihlOf pkt + 2))
      (word (putBack wg pkt key p n) (ihlOf pkt + 2)) p.toNat key.sport.toNat := by
    rw [← hihl] at hlen ⊢
    rw [putBack, hic]
    refine icmpWord_sideRewritten (by rwa [hihl]) hlen ?_
    rw [hihl, hcut]
    exact hout.inUse.2 (by decide)
  rw [hcut] at hin
  exact hout.back (inUse_of_ne hw) hin

end Back

/-! ### The message -/

/-- The checksum of an ICMP message, from scratch. -/
def icmpCsum (pkt : Bytes) : UInt16 := checksum (splice (pkt.drop (ihlOf pkt)) 2 (beBytes 0))

def icmpField (pkt : Bytes) : UInt16 := word pkt (ihlOf pkt + 2)

/-- A message with a kind has a sum, so that its checksum is not the second zero. -/
theorem icmpCsum_ne (hl : pkt.length ≤ 65535) (h8 : ihlOf pkt + 8 ≤ pkt.length)
    (hk : pkt.getD (ihlOf pkt) 0 ≠ 0) : icmpCsum pkt ≠ 65535 := by
  have hlen : (splice (pkt.drop (ihlOf pkt)) 2 (beBytes 0)).length = pkt.length - ihlOf pkt := by
    rw [length_splice, List.length_drop]
  have hpos : 0 < wordSum (splice (pkt.drop (ihlOf pkt)) 2 (beBytes 0)) := by
    refine wordSum_pos (by omega) ?_
    rw [getD_splice, if_neg (by omega)]
    simpa using hk
  have hc : (icmpCsum pkt).toNat = _ := checksum_toNat (by omega)
  have hp := carried_pos hpos
  intro e
  rw [e] at hc
  simp only [UInt16.reduceToNat] at hc
  omega

/-- A message summed afresh has the checksum a computation gives. -/
theorem icmpSummed_valid {n : ℕ} {b : Bytes} (hn : n + 4 ≤ b.length)
    (hi : ihlOf (icmpSummed n b) = n) : icmpField (icmpSummed n b) = icmpCsum (icmpSummed n b) := by
  have hl : (b.take n).length = n := by rw [List.length_take, Nat.min_eq_left (by omega)]
  have hdrop : (icmpSummed n b).drop n =
      splice (splice (b.drop n) 2 (beBytes 0)) 2
        (beBytes (checksum (splice (b.drop n) 2 (beBytes 0)))) :=
    List.drop_left' hl
  have hzero : splice ((icmpSummed n b).drop n) 2 (beBytes 0) = splice (b.drop n) 2 (beBytes 0) := by
    have hover : ∀ (xs : Bytes) (w v : UInt16), 4 ≤ xs.length →
        splice (splice xs 2 (beBytes w)) 2 (beBytes v) = splice xs 2 (beBytes v) :=
      fun xs w v h => splice_splice (by rw [length_beBytes, length_beBytes])
        (by rw [length_beBytes]; omega)
    rw [hdrop, hover _ _ _ (by rw [length_splice, List.length_drop]; omega),
      hover _ _ _ (by rw [List.length_drop]; omega)]
  have hword : word (icmpSummed n b) (n + 2) = checksum (splice (b.drop n) 2 (beBytes 0)) := by
    rw [← word_drop, hdrop, word_splice_self _ (by rw [length_splice, List.length_drop]; omega)]
  rw [icmpField, icmpCsum, hi, hword, hzero]

/-! ### The header around the quote -/

/-- A header's checksum is a matter of the header. -/
theorem HdrValid.congr {a b : Bytes} (h : HdrValid ihl a) (hi : 20 ≤ ihl)
    (e : b.take ihl = a.take ihl) : HdrValid ihl b := by
  have hw : word b 10 = word a 10 := by
    rw [← word_take (n := ihl) (by omega), e, word_take (by omega)]
  refine ⟨?_, by rw [hw]; exact h.ne⟩
  rw [hw, hdrTotal, e]
  exact h.represents

section Outer

variable {k : RevKey} {wg host : Ipv4Addr} {hport : UInt16}

/-- The outer header's checksum stays valid. -/
theorem hdrValid_errorRewritten (hok : HdrOk pkt) (hq : ihlOf pkt + 8 ≤ pkt.length)
    (ha : addr pkt 16 = wg) (h : HdrValid (ihlOf pkt) pkt) :
    HdrValid (ihlOf pkt) (errorRewritten wg pkt k host hport) := by
  have hi := hok.2.2.1
  obtain ⟨quote, hquote⟩ : ∃ quote,
      quote = sideRewritten .src (quoteOf pkt) wg host k.proto k.port hport := ⟨_, rfl⟩
  have hn : ihlOf pkt ≤ (requoted wg pkt host quote).length := by
    rw [length_requoted hq]
    omega
  have hlen : (pkt.take (ihlOf pkt + 8)).length = ihlOf pkt + 8 := by
    rw [List.length_take, Nat.min_eq_left hq]
  -- The header does not reach into the quote.
  have htake : (pkt.take (ihlOf pkt + 8) ++ quote).take (ihlOf pkt) = pkt.take (ihlOf pkt) := by
    rw [List.take_append_of_le_length (by omega), List.take_take, Nat.min_eq_left (by omega)]
  have hdst : addr (pkt.take (ihlOf pkt + 8) ++ quote) Side.dst.addr = wg := by
    have hs := Side.addr_le .dst
    rw [← addr_take (n := ihlOf pkt) (by omega), htake, addr_take (by omega)]
    exact ha
  have hq' : HdrValid (ihlOf pkt) (pkt.take (ihlOf pkt + 8) ++ quote) := h.congr hi htake
  have hout : HdrValid (ihlOf pkt) (requoted wg pkt host quote) := by
    rw [requoted, ← hdst]
    exact hq'.addr hi (by rw [List.length_append]; omega) none
  rw [errorRewritten_eq, ← hquote]
  exact hout.congr hi (take_icmpSummed hn)

/-- The checksum of the whole message is valid. -/
theorem icmpValid_errorRewritten (hok : HdrOk pkt) (hq : ihlOf pkt + 8 ≤ pkt.length)
    (hk : quoteTarget pkt = some k) : icmpField (errorRewritten wg pkt k host hport) =
      icmpCsum (errorRewritten wg pkt k host hport) := by
  rw [errorRewritten_eq]
  exact icmpSummed_valid (by rw [length_requoted hq]; omega) (ihlOf_errorRewritten hok hq hk)

end Outer

/-! ### The law -/

/-- The checksums of a packet are what a computation from scratch gives. -/
structure Computed (pkt : Bytes) : Prop where
  hdr : hdrField pkt = hdrCsum pkt
  l4 : isTcpUdp (pkt.getD 9 0) = true → l4Field pkt = l4Csum pkt
  icmp : pkt.getD 9 0 = PROTO_ICMP → icmpField pkt = icmpCsum pkt

/-- What `nat₀` sent `pkt` of tuple `key` through, as `pkt'`, is there in `nat`: the binding of the
tuple, on the port `pkt'` carries, or the forward. -/
def StillSends (nat₀ nat : Nat44) (pkt pkt' : Bytes) (key : FwdKey) : Prop :=
  (nat₀.outClass pkt = .keyed key ∧ ∃ key' b, outTuple pkt' = some key' ∧
    nat.rev.lookup ⟨key.proto, key'.sport⟩ = some b ∧ b.key key.proto = key) ∨
  (nat₀.outClass pkt = .forwarded ∧ ∃ f, nat₀.forward = some f ∧ nat.forward = some f)

/-- In `err'` the error `err` is for the sender of `pkt`, and quotes `pkt` as it was sent: with its
source, and with those of its checksums that the quote holds.  The error's own checksums are
valid. -/
structure Returned (pkt : Bytes) (key : FwdKey) (err err' : Bytes) : Prop where
  dst : addr err' 16 = addr pkt 12
  src : addr (quoteOf err') 12 = addr pkt 12
  port : quoteTarget err' = some ⟨key.proto, key.sport⟩
  hdr : hdrField (quoteOf err') = hdrField pkt
  l4 : isTcpUdp (pkt.getD 9 0) = true →
    ihlOf (quoteOf err') + csumOffset (quoteOf err') + 2 ≤ (quoteOf err').length →
    l4Field (quoteOf err') = l4Field pkt
  icmp : pkt.getD 9 0 = PROTO_ICMP → icmpField (quoteOf err') = icmpField pkt
  outer : hdrField err = hdrCsum err → hdrField err' = hdrCsum err'
  message : icmpField err' = icmpCsum err'

theorem Nat44.forwards_of_forwarded {nat : Nat44} {key : FwdKey} (hk : outTuple pkt = some key)
    (hc : nat.outClass pkt = .forwarded) : nat.forwards key = true := by
  obtain ⟨hok, hf, hp, hs, hd, hl⟩ := outTuple_eq_some.mp hk
  obtain ⟨proto, src, sport, dst, dport⟩ := key
  dsimp only at hp hs hd hl
  subst hp hs hd
  unfold outClass at hc
  split at hc
  swap
  · cases hc
  rw [if_neg (not_not.mpr hf), hl] at hc
  dsimp only at hc
  split at hc
  · assumption
  · cases hc

/-- A packet goes out from a port whose endpoint, as long as what sent it is there, is its source. -/
theorem StillSends.endpoint {nat₀ nat₁ nat : Nat44} {pkt' : Bytes} {key : FwdKey} {t : Instant}
    (hw : nat₀.wgAddr = nat.wgAddr) (hu : nat.Unshadowed) (hk : outTuple pkt = some key)
    (e : nat₀.translateOut pkt t = .ok (.translate, nat₁, pkt'))
    (h : StillSends nat₀ nat pkt pkt' key) :
    ∃ p, pkt' = outRewritten nat.wgAddr pkt key p ∧
      nat.endpoint ⟨key.proto, p⟩ = some (key.src, key.sport) := by
  rcases h with ⟨hc, key', b, hk', hb, hbk⟩ | ⟨hc, f, hf₀, hf⟩
  · rcases Nat44.translateOut_cases e with ⟨hn, -⟩ | ⟨_, -, -, hv, -⟩ | ⟨key₁, p, _, hc₁, -, -, hpkt, -⟩
    · exact absurd hc (hn key)
    · cases hv
    cases hc.symm.trans hc₁
    have hkp := outTuple_outRewritten nat₀.wgAddr p hk
    rw [← hpkt, hk'] at hkp
    cases hkp
    refine ⟨p, hw ▸ hpkt, ?_⟩
    rw [Nat44.endpoint, hu.forwardFor hb]
    dsimp only at hb ⊢
    rw [hb, Option.map_some, ← hbk]
    rfl
  · -- The forward's host keeps its port.
    obtain ⟨-, -, hp, hs, -⟩ := outTuple_eq_some.mp hk
    have hfw := Nat44.forwards_of_forwarded hk hc
    rw [Nat44.forwards, hf₀, Option.any_some, Bool.and_eq_true, Bool.and_eq_true, beq_iff_eq,
      beq_iff_eq] at hfw
    obtain ⟨⟨ht, hh⟩, hpt⟩ := hfw
    rw [Nat44.translateOut_eq, hc] at e
    cases e
    refine ⟨key.sport, ?_, ?_⟩
    · rw [outRewritten, portRewritten, if_pos rfl, hp, hs, hw]
    · have hff : nat.forwardFor ⟨key.proto, key.sport⟩ = some f := by
        rw [Nat44.forwardFor, hf]
        simp [ht, hpt]
      rw [Nat44.endpoint, hff, hh, hpt]

/-- A quote of a packet that was sent names the port it was sent from. -/
theorem quoteTarget_sent {key : FwdKey} {wg : Ipv4Addr} {err : Bytes} {n : ℕ}
    (hk : outTuple pkt = some key) (hn : ihlOf pkt + 8 ≤ n)
    (hq : quoteOf err = (outRewritten wg pkt key p).take n) :
    addr (quoteOf err) 12 = wg ∧ quoteTarget err = some ⟨key.proto, p⟩ := by
  obtain ⟨hok, -, -, -, -, -⟩ := outTuple_eq_some.mp hk
  obtain ⟨hok', -, hp, hs, -, hl⟩ := outTuple_eq_some.mp (outTuple_outRewritten wg p hk)
  obtain ⟨hlen, hl⟩ := outL4_ports_iff.mp hl
  have hi := hok.2.2.1
  have hihl := ihlOf_sent hok hn wg key p
  have hihl' := ihlOf_outRewritten hok wg key p
  dsimp only at hp hs hl
  rw [hihl'] at hlen hl
  refine ⟨?_, quoteTarget_iff.mpr ?_⟩
  · rw [hq, addr_take (by omega)]
    exact hs.symm
  rw [hq, hihl, getD_take (by omega), getD_take (by omega), word_take (by omega),
    word_take (by omega), List.length_take]
  refine ⟨hdrOk_sent hok hn wg key p, hp, ?_⟩
  rcases hl with ⟨ht, hw, -⟩ | ⟨hic, h8, hw, -⟩
  · exact .inl ⟨by rwa [hp], by omega, hw⟩
  · exact .inr ⟨hp.trans hic, by omega, h8, hw⟩

/-- An error about a packet that was sent gives its quote the packet's source back. -/
theorem Nat44.restored_sent {nat : Nat44} {key : FwdKey} {err : Bytes} {n : ℕ} (hok : HdrOk err)
    (hl : ihlOf err + 8 ≤ err.length) (hk : outTuple pkt = some key) (hn : ihlOf pkt + 8 ≤ n)
    (hq : quoteOf err = (outRewritten nat.wgAddr pkt key p).take n)
    (hend : nat.endpoint ⟨key.proto, p⟩ = some (key.src, key.sport)) :
    addr (quoteOf (errorRewritten nat.wgAddr err ⟨key.proto, p⟩ key.src key.sport)) 12 = key.src ∧
      quoteTarget (errorRewritten nat.wgAddr err ⟨key.proto, p⟩ key.src key.sport) =
        some ⟨key.proto, key.sport⟩ := by
  obtain ⟨hokP, hf, -, -, -, hl4⟩ := outTuple_eq_some.mp hk
  obtain ⟨hlen, -⟩ := outL4_ports_iff.mp hl4
  have hi := hokP.2.2.1
  have hquoted : nat.quoted err = some ⟨key.proto, p⟩ := quoted_iff.mpr (quoteTarget_sent hk hn hq)
  -- the quote is a first fragment, and long enough for its port pair
  have hrest := (restored_iff hok hl hquoted hend).mpr ⟨?_, fun _ => .inl ?_⟩
  rotate_left
  · rw [hq, fragOffsetOf_take (by omega)]
    exact (fragOffsetOf_sideRewritten hi).trans hf
  · rw [hq, ihlOf_sent hokP hn, length_sent]
    omega
  obtain ⟨-, k, host, hport, hq', he', haddr, hport'⟩ := hrest
  cases hquoted.symm.trans hq'
  cases hend.symm.trans he'
  exact ⟨haddr, hport'⟩

/-- **An ICMP error restores the packet it quotes.**  Whatever a NAT sent, and however much of it an
error quotes, an error that arrives while what sent the packet is still there is translated: it is
for the packet's sender, quotes its source and its checksums, and is valid itself. -/
theorem error_restores {wg : Ipv4Addr} {nat₀ nat₁ nat : Nat44} {pkt pkt' err : Bytes} {key : FwdKey}
    {t : Instant} {n : ℕ} (h₀ : NatReachable wg nat₀) (h : NatReachable wg nat)
    (hu : nat.Unshadowed) (hk : outTuple pkt = some key) (hl : pkt.length ≤ 65535)
    (hc : Computed pkt) (e : nat₀.translateOut pkt t = .ok (.translate, nat₁, pkt'))
    (hlive : StillSends nat₀ nat pkt pkt' key) (herr : IsIcmpError wg err)
    (hn : ihlOf pkt' + 8 ≤ n) (hq : quoteOf err = pkt'.take n) (now : Instant) :
    ∃ nat' err', nat.translateIn err now = .ok (.translate, nat', err') ∧
      Returned pkt key err err' := by
  have hw := h.wgAddr_eq
  obtain ⟨p, rfl, hend⟩ := hlive.endpoint (h₀.wgAddr_eq.trans hw.symm) hu hk e
  rw [hw] at hq hn
  obtain ⟨hok, -, hp, hs, -, hl4⟩ := outTuple_eq_some.mp hk
  obtain ⟨hlen, hl4⟩ := outL4_ports_iff.mp hl4
  rw [ihlOf_outRewritten hok] at hn
  obtain ⟨hsrc, htarget⟩ := quoteTarget_sent hk hn hq
  have hokE := herr.1
  have hlE := herr.2.2.2.2.1
  have hclass : nat.inClass err = .icmpError := Nat44.inClass_isIcmpError.mpr (hw ▸ herr)
  have hquoted : nat.quoted err = some ⟨key.proto, p⟩ :=
    Nat44.quoted_iff.mpr ⟨hsrc.trans hw.symm, htarget⟩
  obtain ⟨nat', e'⟩ := Nat44.translateIn_quoted hclass hquoted hend now
  have hback : quoteOf (errorRewritten nat.wgAddr err ⟨key.proto, p⟩ key.src key.sport) =
      putBack wg pkt key p n := by
    rw [quoteOf_errorRewritten hokE hlE htarget, hq, hw]
    rfl
  obtain ⟨haddr, hport⟩ := Nat44.restored_sent hokE hlE hk hn (hw ▸ hq) hend
  have hihl : ihlOf (putBack wg pkt key p n) = ihlOf pkt := ihlOf_putBack hok hn
  refine ⟨nat', _, e', ⟨?_, haddr.trans hs, hport, ?_, fun ht hfit => ?_, fun hic => ?_, fun hv => ?_,
    icmpValid_errorRewritten hokE hlE htarget⟩⟩
  · exact (addr_errorRewritten hokE hlE htarget (hw ▸ herr.2.1)).trans hs
  · rw [hback]
    exact hdrWord_back hok hn ((hdrValid_iff hok).mp hc.hdr).ne
  · have hoff : csumOffset (putBack wg pkt key p n) = csumOffset pkt := by
      rw [csumOffset, csumOffset, proto_putBack hok hn]
    have ho := csumOffset_eq ht
    have hv := (l4Valid_iff hok ht hl).mp (hc.l4 ht)
    rw [hback, hihl, hoff, length_putBack] at hfit
    rw [hback, l4Field, hihl, hoff]
    exact l4Word_back hok hn (hp ▸ ho) (by omega) (by omega) (hp ▸ ⟨hv.ne_zero, hv.ne⟩)
  · have hk8 : pkt.getD (ihlOf pkt) 0 = 8 := by
      rcases hl4 with ⟨ht, -⟩ | ⟨-, h8, -⟩
      · exact absurd hic (ne_icmp_of_isTcpUdp ht)
      · exact h8
    have hne := icmpCsum_ne hl hlen (by rw [hk8]; decide)
    rw [← hc.icmp hic] at hne
    rw [hback, icmpField, hihl]
    exact icmpWord_back hok hn (hp.trans hic) hlen hne
  · have hokE' : HdrOk (errorRewritten nat.wgAddr err ⟨key.proto, p⟩ key.src key.sport) :=
      hdrOk_errorRewritten hokE hlE htarget
    rw [hdrValid_iff hokE', ihlOf_errorRewritten hokE hlE htarget]
    exact hdrValid_errorRewritten hokE hlE (hw ▸ herr.2.1) ((hdrValid_iff hokE).mp hv)

/-- The tuple of the SYN. -/
def synKey : FwdKey := ⟨PROTO_TCP, ⟨198, 18, 0, 1⟩, 40000, ⟨93, 184, 216, 34⟩, 443⟩

/-- A NAT that has sent the SYN, from port 1024. -/
def Nat44.afterSyn : Nat44 := (Nat44.new ⟨10, 2, 0, 2⟩).after [.translateOut synPacket 0]

/-- An error that quotes the header and eight bytes of the SYN. -/
theorem error_restores_syn :
    ∃ nat' err', Nat44.afterSyn.translateIn
        (unreachable ((outRewritten ⟨10, 2, 0, 2⟩ synPacket synKey 1024).take 28)) 5 =
          .ok (.translate, nat', err') ∧
      Returned synPacket synKey
        (unreachable ((outRewritten ⟨10, 2, 0, 2⟩ synPacket synKey 1024).take 28)) err' := by
  have hreach : NatReachable ⟨10, 2, 0, 2⟩ Nat44.afterSyn := ⟨_, _, rfl, Nat44.run_after _ _⟩
  have hnone : Nat44.afterSyn.forward = none := by decide
  have e : (Nat44.new ⟨10, 2, 0, 2⟩).translateOut synPacket 0 =
      .ok (.translate, Nat44.afterSyn, outRewritten ⟨10, 2, 0, 2⟩ synPacket synKey 1024) := rfl
  exact error_restores (n := 28) (.of_start rfl) hreach (fun f hf => by rw [hnone] at hf; cases hf)
    (by decide) (by decide) ⟨by decide, fun _ => by decide, fun h => absurd h (by decide)⟩ e
    (.inl ⟨by decide, { synKey with src := ⟨10, 2, 0, 2⟩, sport := 1024 },
      ⟨⟨198, 18, 0, 1⟩, 40000, ⟨93, 184, 216, 34⟩, 443, 0⟩, by decide, by decide, rfl⟩)
    (by decide) (by decide) (by decide) 5

end Tunnel.Wg
