import Tunnel.Wg.Payload

/-!
# Wg — Echo messages

An echo message is translated at its identifier, and its checksum is patched for the new one.  A
checksum that is patched stands for the right sum modulo `2¹⁶ - 1`, where `0` and `0xffff` are the
same: a receiver tells them apart when all that it sums is zero.

* `payload_echo`: the message of a rewritten packet.
* `verifies_echo_iff`: when the rewrite of an identifier keeps the message verifying.
* `echo_verifies_iff`: the law for every echo request that leaves and every reply that arrives.
-/

namespace Tunnel.Wg
open Support

variable {pkt pkt' : Bytes} {side : Side} {old new : Ipv4Addr} {q : UInt16} {nat nat' : Nat44}
  {now : Instant}

/-- Every byte of a message is zero, but for its checksum and its identifier. -/
def Blank (msg : Bytes) : Prop := ∀ i < msg.length, (2 ≤ i ∧ i < 6) ∨ msg.getD i 0 = 0

instance (msg : Bytes) : Decidable (Blank msg) :=
  inferInstanceAs (Decidable (∀ i < msg.length, _))

/-! ### The sum of a message -/

/-- The sum of a message without its checksum and its identifier. -/
def restSum (msg : Bytes) : ℕ := wordSum (splice (splice msg 2 (beBytes 0)) 4 (beBytes 0))

theorem restSum_add {msg : Bytes} (h : 8 ≤ msg.length) :
    restSum msg + (word msg 2).toNat + (word msg 4).toNat = wordSum msg := by
  have h₁ := wordSum_splice (b := msg) (i := 2) 0 (by decide) (by omega)
  have h₂ := wordSum_splice (b := splice msg 2 (beBytes 0)) (i := 4) 0 (by decide)
    (by rw [length_splice]; omega)
  rw [word_splice_of_disjoint (.inr (by rw [length_beBytes]))] at h₂
  rw [restSum]
  simp only [UInt16.toNat_zero] at h₁ h₂
  omega

theorem restSum_eq_zero {msg : Bytes} (h : 8 ≤ msg.length) : restSum msg = 0 ↔ Blank msg := by
  have hget : ∀ i, (splice (splice msg 2 (beBytes 0)) 4 (beBytes 0)).getD i 0 =
      if 2 ≤ i ∧ i < 6 then 0 else msg.getD i 0 := by
    have hzero : ∀ i, (beBytes 0).getD i 0 = 0
      | 0 | 1 | _ + 2 => rfl
    intro i
    rw [getD_splice, getD_splice, hzero, hzero, length_beBytes, length_splice]
    split_ifs <;> first | rfl | omega
  rw [restSum, wordSum_eq_zero, Blank]
  constructor
  · intro hall i hi
    have hi' := hget i
    rw [List.getD_eq_getElem _ _ (by simpa using hi), hall _ (List.getElem_mem _)] at hi'
    split at hi'
    · next hin => exact .inl hin
    · exact .inr hi'.symm
  · intro hall x hx
    obtain ⟨i, hi, rfl⟩ := List.mem_iff_getElem.mp hx
    rw [← List.getD_eq_getElem _ 0 hi, hget]
    split
    · rfl
    · next hout => exact (hall i (by simpa using hi)).resolve_left hout

/-! ### The rewrite of an identifier -/

theorem length_payload (hl : ihlOf pkt + 8 ≤ pkt.length) : 8 ≤ (payload pkt).length := by
  rw [payload, List.length_drop]
  omega

/-- ICMP's checksum does not cover the addresses. -/
theorem addrRewritten_icmp (ihl : ℕ) : addrRewritten pkt ihl side old new (some PROTO_ICMP) =
    addrRewritten pkt ihl side old new none := by
  unfold addrRewritten
  split
  · rfl
  · rfl

theorem payload_echo (hok : HdrOk pkt) (hl : ihlOf pkt + 8 ≤ pkt.length)
    (p : UInt16) (hne : p ≠ q) :
    payload (sideRewritten side pkt old new PROTO_ICMP p q) =
      splice (splice (payload pkt) 4 (beBytes q)) 2
        (beBytes (patch16 (word (payload pkt) 2) p q)) := by
  have hi := hok.2.2.1
  have hpay : (addrRewritten pkt (ihlOf pkt) side old new none).drop (ihlOf pkt) =
      pkt.drop (ihlOf pkt) := drop_addrRewritten hi
  have hlen := length_addrRewritten pkt (ihlOf pkt) side old new none
  rw [payload, ihlOf_sideRewritten hi, sideRewritten, portRewritten, if_neg hne,
    if_neg (by decide), if_pos rfl, addrRewritten_icmp, idPatched, if_neg (by omega),
    drop_splice (by omega), drop_splice (by omega), hpay, Nat.add_sub_cancel_left,
    Nat.add_sub_cancel_left, ← word_drop, hpay, ← payload]

/-- The sum of a message whose checksum and identifier are written over. -/
theorem wordSum_splice_splice {msg : Bytes} (h : 8 ≤ msg.length) (c id : UInt16) :
    wordSum (splice (splice msg 4 (beBytes id)) 2 (beBytes c)) =
      restSum msg + c.toNat + id.toNat := by
  have hadd := restSum_add h
  have h₁ := wordSum_splice (b := msg) (i := 4) id (by decide) (by omega)
  have h₂ := wordSum_splice (b := splice msg 4 (beBytes id)) (i := 2) c (by decide)
    (by rw [length_splice]; omega)
  rw [word_splice_of_disjoint (.inl (by omega))] at h₂
  omega

/-- A rewritten identifier keeps the message verifying, unless it leaves nothing but zeros. -/
theorem verifies_echo_iff (hok : HdrOk pkt) (hl : ihlOf pkt + 8 ≤ pkt.length)
    (hv : Verifies (wordSum (payload pkt))) :
    Verifies (wordSum (payload
        (sideRewritten side pkt old new PROTO_ICMP (word pkt (ihlOf pkt + 4)) q))) ↔
      ¬ (Blank (payload pkt) ∧ q = 0 ∧ word (payload pkt) 2 ≠ 65535) := by
  have hlen := length_payload hl
  have hadd := restSum_add hlen
  have hid : word pkt (ihlOf pkt + 4) = word (payload pkt) 4 := (word_drop _ _ _).symm
  rw [← hadd] at hv
  rw [hid, ← restSum_eq_zero hlen]
  by_cases hq : word (payload pkt) 4 = q
  · -- nothing is written: the checksum is that of a zero sum already
    rw [hq, sideRewritten_self, addrRewritten_icmp, payload_addrRewritten hok, ← hadd]
    refine iff_of_true hv fun ⟨h0, hq0, hc⟩ => hc ?_
    rw [h0, hq, hq0, verifies_iff] at hv
    obtain ⟨hpos, hmod⟩ := hv
    have hlt := (word (payload pkt) 2).toNat_lt
    apply UInt16.toNat_inj.mp
    unfold Nat.ModEq at hmod
    simp only [UInt16.toNat_zero, UInt16.reduceToNat] at hpos hmod ⊢
    omega
  · rw [payload_echo hok hl _ hq, wordSum_splice_splice hlen,
      verifies_replace hv (UInt16.toNat_lt _) (fun e => hq (UInt16.toNat_inj.mp e))
        (patch16_toNat _ _ _), ← UInt16.toNat_inj (a := q), UInt16.toNat_zero]

/-! ### Requests and replies -/

theorem outL4_echo (hic : pkt.getD 9 0 = PROTO_ICMP) (h8 : pkt.getD (ihlOf pkt) 0 = 8) :
    outL4 pkt = if pkt.length < ihlOf pkt + 8 then .drop
      else .ports (word pkt (ihlOf pkt + 4)) 0 := by
  rw [outL4, hic, if_neg (by decide), if_pos rfl, h8, if_pos rfl]

theorem inL4_echo (hic : pkt.getD 9 0 = PROTO_ICMP) (h0 : pkt.getD (ihlOf pkt) 0 = 0) :
    inL4 pkt = if pkt.length < ihlOf pkt + 8 then .drop
      else .port (word pkt (ihlOf pkt + 4)) := by
  rw [inL4, hic, if_neg (by decide), if_pos rfl, h0, if_pos rfl]

/-- An echo request that leaves has its identifier rewritten. -/
theorem translatedOut_echo (hic : pkt.getD 9 0 = PROTO_ICMP) (hf : fragOffsetOf pkt = 0)
    (h8 : pkt.getD (ihlOf pkt) 0 = 8)
    (e : nat.translateOut pkt now = .ok (.translate, nat', pkt')) :
    HdrOk pkt ∧ ihlOf pkt + 8 ≤ pkt.length ∧
      ∃ p, pkt' = sideRewritten .src pkt (addr pkt 12) nat.wgAddr PROTO_ICMP
        (word pkt (ihlOf pkt + 4)) p := by
  have hclass : nat.outClass pkt = .drop ∨ ∃ key, nat.outClass pkt = .keyed key := by
    unfold Nat44.outClass
    split
    swap
    · exact .inl rfl
    rw [if_neg (not_not.mpr hf), outL4_echo hic h8]
    by_cases hl : pkt.length < ihlOf pkt + 8
    · rw [if_pos hl]
      exact .inl rfl
    · -- the forward is for TCP and UDP
      have hno : ∀ key : FwdKey, key.proto = PROTO_ICMP → nat.forwards key = false := by
        intro key hk
        rw [Nat44.forwards, hk]
        cases nat.forward <;> rfl
      rw [if_neg hl]
      dsimp only
      rw [if_neg (by rw [hno _ hic]; decide)]
      exact .inr ⟨_, rfl⟩
  rcases Nat44.translateOut_cases e with ⟨hn, -⟩ | ⟨-, -, -, hv, -⟩ |
      ⟨key, p, -, hc, -, -, hpkt, -⟩
  · rcases hclass with hc | ⟨key, hc⟩
    · rw [Nat44.translateOut_eq, hc] at e
      cases e
    · exact absurd hc (hn key)
  · cases hv
  · obtain ⟨hk, -⟩ := Nat44.outClass_keyed_iff.mp hc
    obtain ⟨hok, -, hp, hs, -, hl⟩ := outTuple_eq_some.mp hk
    obtain ⟨hlen, ⟨ht, -⟩ | ⟨-, -, hsp, -⟩⟩ := outL4_ports_iff.mp hl
    · exact absurd hic (ne_icmp_of_isTcpUdp ht)
    · refine ⟨hok, hlen, p, ?_⟩
      rw [hpkt, outRewritten, hp, hs, ← hsp, hic]
      rfl

/-- An echo reply that arrives has the identifier of its binding's host put back. -/
theorem translatedIn_echo (hic : pkt.getD 9 0 = PROTO_ICMP) (hf : fragOffsetOf pkt = 0)
    (h0 : pkt.getD (ihlOf pkt) 0 = 0)
    (e : nat.translateIn pkt now = .ok (.translate, nat', pkt')) :
    HdrOk pkt ∧ ihlOf pkt + 8 ≤ pkt.length ∧
      ∃ b, nat.rev.lookup ⟨PROTO_ICMP, word pkt (ihlOf pkt + 4)⟩ = some b ∧
        pkt' = sideRewritten .dst pkt nat.wgAddr b.src PROTO_ICMP (word pkt (ihlOf pkt + 4))
          b.sport := by
  have hclass : nat.inClass pkt = .drop ∨
      nat.inClass pkt = .keyed ⟨PROTO_ICMP, word pkt (ihlOf pkt + 4)⟩ := by
    unfold Nat44.inClass
    split
    swap
    · exact .inl rfl
    rw [if_neg (not_not.mpr hf), inL4_echo hic h0]
    by_cases hl : pkt.length < ihlOf pkt + 8
    · rw [if_pos hl]
      exact .inl rfl
    · have hno : ∀ k : RevKey, k.proto = PROTO_ICMP → nat.forwardFor k = none := by
        intro k hk
        rw [Nat44.forwardFor, hk]
        cases nat.forward <;> rfl
      rw [if_neg hl]
      dsimp only
      rw [hno _ hic, hic]
      exact .inr rfl
  rcases hclass with hc | hc
  · rw [Nat44.translateIn_eq, hc] at e
    cases e
  · obtain ⟨hk, ha, hff⟩ := Nat44.inClass_keyed_iff.mp hc
    obtain ⟨hok, -, -, hl⟩ := inTarget_eq_some.mp hk
    obtain ⟨hlen, -⟩ := inL4_port_iff.mp hl
    rw [Nat44.translateIn_target hk ha hff] at e
    cases hb : nat.rev.lookup ⟨PROTO_ICMP, word pkt (ihlOf pkt + 4)⟩ with
    | none => rw [hb] at e; cases e
    | some b =>
        rw [hb] at e
        cases e
        exact ⟨hok, hlen, b, rfl, rfl⟩

/-! ### The law -/

/-- An echo reply, for a host that asked with identifier 0, that is zero but for the identifier and a
checksum that is not all ones. -/
def Nat44.ZeroReply (nat : Nat44) (pkt : Bytes) : Prop :=
  Blank (payload pkt) ∧ word (payload pkt) 2 ≠ 65535 ∧
    ∃ b, nat.rev.lookup ⟨PROTO_ICMP, word pkt (ihlOf pkt + 4)⟩ = some b ∧ b.sport = 0

/-- **Echo messages keep verifying, but for zero replies.**  An echo request that is translated out, or
an echo reply that is translated in, and that its receiver would accept, is accepted after it exactly
when it is not such a reply. -/
theorem echo_verifies_iff (hic : pkt.getD 9 0 = PROTO_ICMP) (hf : fragOffsetOf pkt = 0)
    (hv : Verifies (wordSum (payload pkt)))
    (e : pkt.getD (ihlOf pkt) 0 = 8 ∧ nat.translateOut pkt now = .ok (.translate, nat', pkt') ∨
      pkt.getD (ihlOf pkt) 0 = 0 ∧ nat.translateIn pkt now = .ok (.translate, nat', pkt')) :
    Verifies (wordSum (payload pkt')) ↔ ¬ nat.ZeroReply pkt := by
  rcases e with ⟨h8, e⟩ | ⟨h0, e⟩
  · -- the kind of a request is not zero
    obtain ⟨hok, hl, p, rfl⟩ := translatedOut_echo hic hf h8 e
    have hnb : ¬ Blank (payload pkt) := by
      intro hb
      have hlen := length_payload hl
      have hkind : (payload pkt).getD 0 0 = 8 := by
        rw [← h8, payload]
        simp
      rcases hb 0 (by omega) with hin | hzero
      · omega
      · rw [hkind] at hzero
        cases hzero
    rw [verifies_echo_iff hok hl hv]
    exact iff_of_true (fun h => hnb h.1) fun h => hnb h.1
  · obtain ⟨hok, hl, b, hb, rfl⟩ := translatedIn_echo hic hf h0 e
    rw [verifies_echo_iff hok hl hv, Nat44.ZeroReply]
    refine not_congr (and_congr_right fun _ => ?_)
    constructor
    · rintro ⟨hs, hc⟩
      exact ⟨hc, b, hb, hs⟩
    · rintro ⟨hc, b', hb', hs⟩
      rw [hb] at hb'
      cases hb'
      exact ⟨hs, hc⟩

/-- An echo request of 10.0.0.5 to 1.1.1.1 with this checksum and identifier, its sequence number 0 and
without a payload. -/
def hostRequest (csum id : UInt16) : Bytes :=
  [0x45, 0, 0, 28, 0, 0, 0, 0, 64, 1, 0, 0, 10, 0, 0, 5, 1, 1, 1, 1, 8, 0] ++ beBytes csum ++
    beBytes id ++ [0, 0]

/-- The reply of 1.1.1.1 to 10.2.0.2. -/
def echoReply (csum id : UInt16) : Bytes :=
  [0x45, 0, 0, 28, 0, 0, 0, 0, 64, 1, 0, 0, 1, 1, 1, 1, 10, 2, 0, 2, 0, 0] ++ beBytes csum ++
    beBytes id ++ [0, 0]

/-- A NAT an echo request with this checksum and identifier went out through. -/
def Nat44.pinged (csum id : UInt16) : Nat44 :=
  (Nat44.new ⟨10, 2, 0, 2⟩).after [.translateOut (hostRequest csum id) 7]

/-- The reply to a request with identifier 5 still verifies. -/
theorem echo_verifies_five :
    Verifies (wordSum (payload (echoReply 64511 1024))) ∧
      ∃ nat' pkt', (Nat44.pinged 63482 5).translateIn (echoReply 64511 1024) 8 =
          .ok (.translate, nat', pkt') ∧ Verifies (wordSum (payload pkt')) := by
  obtain ⟨nat', pkt', e⟩ : ∃ nat' pkt', (Nat44.pinged 63482 5).translateIn (echoReply 64511 1024) 8 =
      .ok (.translate, nat', pkt') := ⟨_, _, rfl⟩
  have hb : (Nat44.pinged 63482 5).rev.lookup ⟨PROTO_ICMP, 1024⟩ =
      some ⟨⟨10, 0, 0, 5⟩, 5, ⟨1, 1, 1, 1⟩, 0, 7⟩ := by decide
  refine ⟨by decide, nat', pkt', e, (echo_verifies_iff (by decide) (by decide) (by decide)
    (.inr ⟨by decide, e⟩)).mpr ?_⟩
  rintro ⟨-, -, b, hb', hs⟩
  cases hb.symm.trans hb'
  exact absurd hs (by decide)

/-- The reply to a request with identifier 0, sequence number 0 and no payload verifies, and does not
after its translation. -/
theorem echo_zeroed :
    NatReachable ⟨10, 2, 0, 2⟩ (Nat44.pinged 63487 0) ∧
      Verifies (wordSum (payload (hostRequest 63487 0))) ∧
      Verifies (wordSum (payload (echoReply 64511 1024))) ∧
      ∃ nat' pkt', (Nat44.pinged 63487 0).translateIn (echoReply 64511 1024) 8 =
          .ok (.translate, nat', pkt') ∧ ¬ Verifies (wordSum (payload pkt')) := by
  refine ⟨⟨_, _, rfl, Nat44.run_after _ _⟩, by decide, by decide, _, _, rfl, ?_⟩
  decide

end Tunnel.Wg
