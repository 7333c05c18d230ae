import Tunnel.Wg.Frame

/-!
# Wg — The packet an ICMP error quotes

An ICMP error about a packet the NAT emitted is translated by giving the packet it quotes its own
source back.  Reading the quote's port, looking it up and writing it have each a guard of their own.

* `quoteOf_errorRewritten`: what a translation makes of the quote: a rewrite of its source.
* `quoteTarget_iff`: which quotes name a port.
* `neverHalf_iff`: when the quote has its whole endpoint back.  `half_restored` is an error that
  leaves with the host's address and the NAT's port.
-/

namespace Tunnel.Wg
open Support

/-- The packet an ICMP error quotes. -/
def quoteOf (pkt : Bytes) : Bytes := pkt.drop (ihlOf pkt + 8)

/-- An ICMP error for the client address: of type 3, 4, 5, 11 or 12, with its L4 header. -/
def IsIcmpError (wg : Ipv4Addr) (pkt : Bytes) : Prop :=
  HdrOk pkt ∧ addr pkt 16 = wg ∧ fragOffsetOf pkt = 0 ∧ pkt.getD 9 0 = PROTO_ICMP ∧
    ihlOf pkt + 8 ≤ pkt.length ∧ pkt.getD (ihlOf pkt) 0 ∈ [3, 4, 5, 11, 12]

instance (wg : Ipv4Addr) (pkt : Bytes) : Decidable (IsIcmpError wg pkt) :=
  inferInstanceAs (Decidable (_ ∧ _ ∧ _ ∧ _ ∧ _ ∧ _))

theorem Nat44.inClass_isIcmpError {nat : Nat44} {pkt : Bytes} :
    nat.inClass pkt = .icmpError ↔ IsIcmpError nat.wgAddr pkt := by
  rw [inClass_icmpError_iff, IsIcmpError]
  refine and_congr_right fun _ => and_congr_right fun _ => and_congr_right fun _ => ?_
  unfold inL4
  dsimp only
  by_cases ht : isTcpUdp (pkt.getD 9 0) = true
  · rw [if_pos ht]
    refine iff_of_false (by split <;> nofun) fun ⟨hp, _⟩ => ?_
    exact ne_icmp_of_isTcpUdp ht hp
  rw [if_neg ht]
  by_cases hp : pkt.getD 9 0 = PROTO_ICMP
  swap
  · rw [if_neg hp]
    exact iff_of_false nofun fun h => hp h.1
  rw [if_pos hp]
  by_cases hl : pkt.length < ihlOf pkt + 8
  · rw [if_pos hl]
    exact iff_of_false nofun fun h => by omega
  rw [if_neg hl]
  have hl' : ihlOf pkt + 8 ≤ pkt.length := by omega
  simp only [hp, hl', true_and, List.mem_cons, List.not_mem_nil, or_false]
  by_cases h₀ : pkt.getD (ihlOf pkt) 0 = 0
  · rw [if_pos h₀, h₀]
    exact iff_of_false nofun (by decide)
  · rw [if_neg h₀]
    split
    · next hk => exact iff_of_true rfl hk
    · next hk => exact iff_of_false nofun hk

/-- The packets whose quote names a port. -/
theorem quoteTarget_iff {pkt : Bytes} {k : RevKey} :
    quoteTarget pkt = some k ↔ HdrOk (quoteOf pkt) ∧ k.proto = (quoteOf pkt).getD 9 0 ∧
      ((isTcpUdp k.proto = true ∧ ihlOf (quoteOf pkt) + 2 ≤ (quoteOf pkt).length ∧
          word (quoteOf pkt) (ihlOf (quoteOf pkt)) = k.port) ∨
        (k.proto = PROTO_ICMP ∧ ihlOf (quoteOf pkt) + 8 ≤ (quoteOf pkt).length ∧
          (quoteOf pkt).getD (ihlOf (quoteOf pkt)) 0 = 8 ∧
          word (quoteOf pkt) (ihlOf (quoteOf pkt) + 4) = k.port)) := by
  obtain ⟨proto, port⟩ := k
  unfold quoteTarget quoteOf
  dsimp only
  generalize pkt.drop (ihlOf pkt + 8) = inner
  by_cases hok : HdrOk inner
  swap
  · rw [if_neg hok]
    exact iff_of_false nofun fun h => hok h.1
  rw [if_pos hok]
  by_cases ht : isTcpUdp (inner.getD 9 0) = true
  · have hne : inner.getD 9 0 ≠ PROTO_ICMP := ne_icmp_of_isTcpUdp ht
    rw [if_pos ht, Option.ite_none_left_eq_some, Nat.not_lt, Option.some.injEq, RevKey.mk.injEq]
    constructor
    · rintro ⟨hl, rfl, hw⟩
      exact ⟨hok, rfl, .inl ⟨ht, hl, hw⟩⟩
    · rintro ⟨-, rfl, ⟨-, hl, hw⟩ | ⟨hi, -⟩⟩
      · exact ⟨hl, rfl, hw⟩
      · exact absurd hi hne
  rw [if_neg ht]
  by_cases hi : inner.getD 9 0 = PROTO_ICMP
  · rw [if_pos hi, Option.ite_none_left_eq_some, Nat.not_lt, Option.ite_none_right_eq_some,
      Option.some.injEq, RevKey.mk.injEq]
    constructor
    · rintro ⟨hl, hk, rfl, hw⟩
      exact ⟨hok, rfl, .inr ⟨hi, hl, hk, hw⟩⟩
    · rintro ⟨-, rfl, ⟨ht', -⟩ | ⟨-, hl, hk, hw⟩⟩
      · exact absurd ht' ht
      · exact ⟨hl, hk, rfl, hw⟩
  · rw [if_neg hi]
    refine iff_of_false nofun ?_
    rintro ⟨-, rfl, ⟨ht', -⟩ | ⟨hi', -⟩⟩
    · exact ht ht'
    · exact hi hi'

/-! ### The message, summed afresh -/

/-- A packet whose message behind the first `n` bytes has its checksum computed afresh. -/
def icmpSummed (n : ℕ) (b : Bytes) : Bytes :=
  let icmp := splice (splice (b.drop n) 2 [0]) 3 [0]
  b.take n ++ splice icmp 2 (beBytes (checksum icmp))

section Summed

variable {n : ℕ} {b : Bytes}

theorem drop_icmpSummed (hn : n ≤ b.length) {m : ℕ} (hm : 4 ≤ m) :
    (icmpSummed n b).drop (n + m) = b.drop (n + m) := by
  have hl : (b.take n).length = n := by rw [List.length_take, Nat.min_eq_left hn]
  rw [icmpSummed, ← List.drop_drop, List.drop_left' hl,
    drop_splice_of_le (by rw [length_beBytes]; omega),
    drop_splice_of_le (by rw [List.length_singleton]; omega),
    drop_splice_of_le (by rw [List.length_singleton]; omega), List.drop_drop]

theorem take_icmpSummed (hn : n ≤ b.length) : (icmpSummed n b).take n = b.take n :=
  List.take_left' (by rw [List.length_take, Nat.min_eq_left hn])

end Summed

/-! ### The quote, restored -/

section Restored

variable {pkt : Bytes} {k : RevKey} {wg host : Ipv4Addr} {hport : UInt16}

/-- The packet around a rewritten quote. -/
def requoted (wg : Ipv4Addr) (pkt : Bytes) (host : Ipv4Addr) (quote : Bytes) : Bytes :=
  addrRewritten (pkt.take (ihlOf pkt + 8) ++ quote) (ihlOf pkt) .dst wg host none

theorem errorRewritten_eq (wg : Ipv4Addr) (pkt : Bytes) (k : RevKey) (host : Ipv4Addr)
    (hport : UInt16) : errorRewritten wg pkt k host hport = icmpSummed (ihlOf pkt)
      (requoted wg pkt host (sideRewritten .src (quoteOf pkt) wg host k.proto k.port hport)) := rfl

/-- The first byte, version and header length, is kept. -/
theorem getD_zero_errorRewritten (hok : HdrOk pkt) (hq : ihlOf pkt + 8 ≤ pkt.length)
    (hk : quoteTarget pkt = some k) :
    (errorRewritten wg pkt k host hport).getD 0 0 = pkt.getD 0 0 := by
  have hi := hok.2.2.1
  refine (framed_errorRewritten hq hk).getD_eq (fun h => ?_) 0
  rcases h with (h | h) | ⟨j, -, hj⟩
  · simp [addrBytes, Side.addr] at h
  · exact absurd h.1 (by omega)
  · simp only at hj
    omega

theorem ihlOf_errorRewritten (hok : HdrOk pkt) (hq : ihlOf pkt + 8 ≤ pkt.length)
    (hk : quoteTarget pkt = some k) :
    ihlOf (errorRewritten wg pkt k host hport) = ihlOf pkt := by
  rw [ihlOf, ihlOf, getD_zero_errorRewritten hok hq hk]

theorem hdrOk_errorRewritten (hok : HdrOk pkt) (hq : ihlOf pkt + 8 ≤ pkt.length)
    (hk : quoteTarget pkt = some k) : HdrOk (errorRewritten wg pkt k host hport) :=
  hok.congr (getD_zero_errorRewritten hok hq hk) (framed_errorRewritten hq hk).length_eq

theorem length_requoted (hq : ihlOf pkt + 8 ≤ pkt.length) (quote : Bytes) :
    (requoted wg pkt host quote).length = ihlOf pkt + 8 + quote.length := by
  rw [requoted, length_addrRewritten, List.length_append, List.length_take, Nat.min_eq_left hq]

/-- The outer address rewrite ends before the quote. -/
theorem drop_requoted (hok : HdrOk pkt) (hq : ihlOf pkt + 8 ≤ pkt.length) (quote : Bytes) :
    (requoted wg pkt host quote).drop (ihlOf pkt + 8) = quote := by
  have hi := hok.2.2.1
  have hlen : (pkt.take (ihlOf pkt + 8)).length = ihlOf pkt + 8 := by
    rw [List.length_take, Nat.min_eq_left hq]
  rw [requoted, addrRewritten]
  split
  · exact List.drop_left' hlen
  · have hs := Side.addr_le .dst
    dsimp only
    rw [hdrPatched, drop_splice_of_le (by rw [length_beBytes]; omega),
      drop_splice_of_le (by rw [Ipv4Addr.length_octets]; omega), List.drop_left' hlen]

/-- The quote of a translated error is the quote, its source rewritten. -/
theorem quoteOf_errorRewritten (hok : HdrOk pkt) (hq : ihlOf pkt + 8 ≤ pkt.length)
    (hk : quoteTarget pkt = some k) :
    quoteOf (errorRewritten wg pkt k host hport) =
      sideRewritten .src (quoteOf pkt) wg host k.proto k.port hport := by
  have hn : ihlOf pkt ≤ (requoted wg pkt host
      (sideRewritten .src (quoteOf pkt) wg host k.proto k.port hport)).length := by
    rw [length_requoted hq]
    omega
  rw [quoteOf, ihlOf_errorRewritten hok hq hk, errorRewritten_eq, drop_icmpSummed hn (by omega),
    drop_requoted hok hq]

end Restored

namespace Nat44

/-- The host endpoint a quoted source port belongs to: the forward's, or a binding's. -/
def endpoint (nat : Nat44) (k : RevKey) : Option (Ipv4Addr × UInt16) :=
  match nat.forwardFor k with
  | some f => some (f.host, f.port)
  | none => (nat.rev.lookup k).map fun b => (b.src, b.sport)

/-- An ICMP error is translated when its quote names an endpoint, and dropped as it is when not; at
most it refreshes a binding. -/
theorem translateIn_icmpError {nat : Nat44} {pkt : Bytes} (hc : nat.inClass pkt = .icmpError)
    (now : Instant) :
    ∃ nat', (nat' = nat ∨ ∃ k, nat' = nat.refresh k now) ∧ nat.translateIn pkt now = .ok (
      match (nat.quoted pkt).bind fun k => (nat.endpoint k).map (Prod.mk k) with
      | none => (.drop, nat', pkt)
      | some (k, host, hport) =>
        (.translate, nat', errorRewritten nat.wgAddr pkt k host hport)) := by
  obtain ⟨hok, hl⟩ := inClass_icmpError hc
  rw [translateIn_eq, hc]
  dsimp only
  rw [translateIcmpError_eq nat now hok hl]
  cases nat.quoted pkt with
  | none => exact ⟨_, .inl rfl, rfl⟩
  | some k =>
      dsimp only [Option.bind_some]
      rw [resolveQuote_eq, endpoint]
      cases nat.forwardFor k with
      | some f => exact ⟨_, .inl rfl, rfl⟩
      | none =>
          dsimp only
          cases nat.rev.lookup k with
          | none => exact ⟨_, .inl rfl, rfl⟩
          | some b => exact ⟨_, .inr ⟨k, rfl⟩, rfl⟩

/-- The quote of `pkt` was of a packet in one piece or a first fragment, its source port was read
from its L4 header and names an endpoint, and in `pkt'` its source is that endpoint. -/
def Restored (nat : Nat44) (pkt pkt' : Bytes) : Prop :=
  fragOffsetOf (quoteOf pkt) = 0 ∧ ∃ k host hport, nat.quoted pkt = some k ∧
    nat.endpoint k = some (host, hport) ∧ addr (quoteOf pkt') 12 = host ∧
    quoteTarget pkt' = some ⟨k.proto, hport⟩

/-- The errors that are translated are restored, and the others dropped as they are. -/
def NeverHalf (nat : Nat44) (pkt : Bytes) (now : Instant) : Prop :=
  ∀ v nat' pkt', nat.translateIn pkt now = .ok (v, nat', pkt') →
    (v = .translate → nat.Restored pkt pkt') ∧ (v ≠ .translate → v = .drop ∧ pkt' = pkt)

theorem quoted_iff {nat : Nat44} {pkt : Bytes} {k : RevKey} :
    nat.quoted pkt = some k ↔ addr (quoteOf pkt) 12 = nat.wgAddr ∧ quoteTarget pkt = some k := by
  unfold quoted
  change (if addr (quoteOf pkt) 12 = nat.wgAddr then _ else none) = _ ↔ _
  split
  · next h => exact ⟨fun hk => ⟨h, hk⟩, And.right⟩
  · next h => exact iff_of_false nofun fun hk => h hk.1

end Nat44

/-- The source port of a rewritten TCP or UDP header is the new one, unless the header ends before
the destination port: then it is left alone. -/
theorem sport_sideRewritten_iff {b : Bytes} {proto : UInt8} {old new : Ipv4Addr} {p q : UInt16}
    (hok : HdrOk b) (ht : isTcpUdp proto = true) (hp : word b (ihlOf b) = p) :
    word (sideRewritten .src b old new proto p q) (ihlOf b) = q ↔
      ihlOf b + 4 ≤ b.length ∨ q = p := by
  have hport : ihlOf b + Side.src.port = ihlOf b := Nat.add_zero _
  by_cases hl : ihlOf b + 4 ≤ b.length
  · have hnew : word (sideRewritten .src b old new proto p q) (ihlOf b + Side.src.port) = q :=
      port_sideRewritten .src hok ht hl (hport.symm ▸ hp)
    rw [hport] at hnew
    exact iff_of_true hnew (.inl hl)
  · have haddr : word (addrRewritten b (ihlOf b) .src old new (some proto)) (ihlOf b + 0) =
        word b (ihlOf b + 0) := word_addrRewritten hok.2.2.1 (Nat.zero_le 4)
    have hw : word (sideRewritten .src b old new proto p q) (ihlOf b) = p := by
      have hcut : (addrRewritten b (ihlOf b) .src old new (some proto)).length < ihlOf b + 4 := by
        rw [length_addrRewritten]
        omega
      rw [sideRewritten, portRewritten, if_pos ht, if_pos hcut, ite_self]
      exact haddr.trans hp
    rw [hw]
    exact ⟨fun h => .inr h.symm, fun h => (h.resolve_left hl).symm⟩

namespace Nat44

/-- What is translated is restored when the quote starts with its L4 header, and holds the whole of
a port pair whose source changes. -/
theorem restored_iff {nat : Nat44} {pkt : Bytes} {k : RevKey} {host : Ipv4Addr} {hport : UInt16}
    (hok : HdrOk pkt) (hl : ihlOf pkt + 8 ≤ pkt.length) (hq : nat.quoted pkt = some k)
    (he : nat.endpoint k = some (host, hport)) :
    nat.Restored pkt (errorRewritten nat.wgAddr pkt k host hport) ↔
      fragOffsetOf (quoteOf pkt) = 0 ∧
        (isTcpUdp k.proto = true → ihlOf (quoteOf pkt) + 4 ≤ (quoteOf pkt).length ∨
          hport = k.port) := by
  obtain ⟨hsrc, hk⟩ := quoted_iff.mp hq
  obtain ⟨hin, hp, hport'⟩ := quoteTarget_iff.mp hk
  have hi := hin.2.2.1
  have hquote : quoteOf (errorRewritten nat.wgAddr pkt k host hport) =
      sideRewritten .src (quoteOf pkt) nat.wgAddr host k.proto k.port hport :=
    quoteOf_errorRewritten hok hl hk
  have haddr : addr (quoteOf (errorRewritten nat.wgAddr pkt k host hport)) 12 = host := by
    rw [hquote]
    exact addr_sideRewritten .src hin hsrc
  -- Only the port is in question.
  have hsome : nat.Restored pkt (errorRewritten nat.wgAddr pkt k host hport) ↔
      fragOffsetOf (quoteOf pkt) = 0 ∧
        quoteTarget (errorRewritten nat.wgAddr pkt k host hport) = some ⟨k.proto, hport⟩ := by
    constructor
    · rintro ⟨hf, k', host', hport', hq', he', -, ht⟩
      cases hq.symm.trans hq'
      cases he.symm.trans he'
      exact ⟨hf, ht⟩
    · exact fun ⟨hf, ht⟩ => ⟨hf, k, host, hport, hq, he, haddr, ht⟩
  rw [hsome]
  refine and_congr_right fun _ => ?_
  rw [quoteTarget_iff, hquote]
  have hok' : HdrOk (sideRewritten .src (quoteOf pkt) nat.wgAddr host k.proto k.port hport) :=
    hdrOk_sideRewritten hin
  have h9 : (sideRewritten .src (quoteOf pkt) nat.wgAddr host k.proto k.port hport).getD 9 0 =
      (quoteOf pkt).getD 9 0 := getD_sideRewritten_header hi (by omega)
  simp only [hok', h9, ← hp, ihlOf_sideRewritten hi, length_sideRewritten, true_and]
  rcases hport' with ⟨ht, hlen, hw⟩ | ⟨hic, hlen, h8, hw⟩
  · have hne : k.proto ≠ PROTO_ICMP := ne_icmp_of_isTcpUdp ht
    simp only [ht, hne, hlen, true_and, false_and, or_false, forall_const]
    exact sport_sideRewritten_iff hin ht hw
  · have hnt : isTcpUdp k.proto = false := by rw [hic]; rfl
    refine iff_of_true (.inr ⟨hic, hlen, ?_, ?_⟩) (fun h => by rw [hnt] at h; cases h)
    · rw [hic, kind_sideRewritten hin, h8]
    · rw [hic]
      exact id_sideRewritten hin hlen hw

end Nat44

namespace Nat44

/-- An error that is translated, and its packet. -/
theorem translateIn_quoted {nat : Nat44} {pkt : Bytes} {k : RevKey} {host : Ipv4Addr}
    {hport : UInt16} (hc : nat.inClass pkt = .icmpError) (hq : nat.quoted pkt = some k)
    (he : nat.endpoint k = some (host, hport)) (now : Instant) :
    ∃ nat', nat.translateIn pkt now =
      .ok (.translate, nat', errorRewritten nat.wgAddr pkt k host hport) := by
  obtain ⟨nat', -, e⟩ := translateIn_icmpError hc now
  rw [hq, Option.bind_some, he] at e
  exact ⟨nat', e⟩

end Nat44

/-- An ICMP error is never left half restored exactly when a quote that names an endpoint is no
later fragment, and is cut off within its port pair only where the port stays as it is. -/
theorem neverHalf_iff {nat : Nat44} {pkt : Bytes} (hc : nat.inClass pkt = .icmpError)
    (now : Instant) : nat.NeverHalf pkt now ↔
      ∀ k host hport, nat.quoted pkt = some k → nat.endpoint k = some (host, hport) →
        fragOffsetOf (quoteOf pkt) = 0 ∧
          (isTcpUdp k.proto = true → ihlOf (quoteOf pkt) + 4 ≤ (quoteOf pkt).length ∨
            hport = k.port) := by
  obtain ⟨hok, hl⟩ := Nat44.inClass_icmpError hc
  obtain ⟨nat', -, e⟩ := Nat44.translateIn_icmpError hc now
  cases hx : (nat.quoted pkt).bind fun k => (nat.endpoint k).map (Prod.mk k) with
  | none =>
      rw [hx] at e
      refine iff_of_true (fun v nat₁ pkt₁ e₁ => ?_) (fun k host hport hq he => ?_)
      · cases e.symm.trans e₁
        exact ⟨nofun, fun _ => ⟨rfl, rfl⟩⟩
      · rw [hq, Option.bind_some, he] at hx
        cases hx
  | some r =>
      obtain ⟨k, hq, hr⟩ := Option.bind_eq_some_iff.mp hx
      obtain ⟨⟨host, hport⟩, he, rfl⟩ := Option.map_eq_some_iff.mp hr
      obtain ⟨nat', e⟩ := Nat44.translateIn_quoted hc hq he now
      constructor
      · intro hn k' host' hport' hq' he'
        cases hq.symm.trans hq'
        cases he.symm.trans he'
        exact (Nat44.restored_iff hok hl hq he).mp ((hn _ _ _ e).1 rfl)
      · intro h v nat₁ pkt₁ e₁
        cases e.symm.trans e₁
        exact ⟨fun _ => (Nat44.restored_iff hok hl hq he).mpr (h k host hport hq he),
          fun hv => absurd rfl hv⟩

/-- A destination unreachable from 9.9.9.9 to 10.2.0.2, with what it quotes. -/
def unreachable (quote : Bytes) : Bytes :=
  [0x45, 0, 0, 56, 0, 0, 0, 0, 64, 1, 0, 0, 9, 9, 9, 9, 10, 2, 0, 2, 3, 1, 0, 0, 0, 0, 0, 0] ++ quote

/-- The first 22 bytes of a UDP packet from 10.2.0.2:1024. -/
def cutQuote : Bytes :=
  [0x45, 0, 0, 28, 0, 0, 0, 0, 64, 17, 0, 0, 10, 2, 0, 2, 1, 1, 1, 1, 4, 0]

/-- A later fragment of a UDP packet from 10.2.0.2, its payload beginning with the bytes 4, 0. -/
def fragmentQuote : Bytes :=
  [0x45, 0, 0, 28, 0, 0, 0, 185, 64, 17, 0, 0, 10, 2, 0, 2, 1, 1, 1, 1, 4, 0, 7, 7, 7, 7, 7, 7]

/-- A quote in one piece is restored. -/
theorem neverHalf_opened :
    Nat44.opened.inClass (unreachable (udpPacket ⟨10, 2, 0, 2⟩ 1024 ⟨1, 1, 1, 1⟩ 53)) =
        .icmpError ∧
      Nat44.opened.NeverHalf (unreachable (udpPacket ⟨10, 2, 0, 2⟩ 1024 ⟨1, 1, 1, 1⟩ 53)) 8 := by
  have hc : Nat44.opened.inClass (unreachable (udpPacket ⟨10, 2, 0, 2⟩ 1024 ⟨1, 1, 1, 1⟩ 53)) =
      .icmpError := by decide
  exact ⟨hc, (neverHalf_iff hc 8).mpr fun _ _ _ _ _ => ⟨by decide, fun _ => .inl (by decide)⟩⟩

/-- An error whose quote is cut off behind the source port leaves with the host's address and the
NAT's port; one that quotes a later fragment is translated by bytes of its payload. -/
theorem half_restored :
    NatReachable ⟨10, 2, 0, 2⟩ Nat44.opened ∧
      (∃ nat' pkt', Nat44.opened.translateIn (unreachable cutQuote) 8 =
          .ok (.translate, nat', pkt') ∧ addr (quoteOf pkt') 12 = ⟨10, 0, 0, 5⟩ ∧
        quoteTarget pkt' = some ⟨PROTO_UDP, 1024⟩ ∧
        Nat44.opened.endpoint ⟨PROTO_UDP, 1024⟩ = some (⟨10, 0, 0, 5⟩, 5000)) ∧
      ¬ Nat44.opened.NeverHalf (unreachable cutQuote) 8 ∧
      ¬ Nat44.opened.NeverHalf (unreachable fragmentQuote) 8 := by
  have hcut : Nat44.opened.inClass (unreachable cutQuote) = .icmpError := by decide
  have hfrag : Nat44.opened.inClass (unreachable fragmentQuote) = .icmpError := by decide
  have hqcut : Nat44.opened.quoted (unreachable cutQuote) = some ⟨PROTO_UDP, 1024⟩ := by decide
  have hqfrag : Nat44.opened.quoted (unreachable fragmentQuote) = some ⟨PROTO_UDP, 1024⟩ := by
    decide
  have he : Nat44.opened.endpoint ⟨PROTO_UDP, 1024⟩ = some (⟨10, 0, 0, 5⟩, 5000) := by decide
  obtain ⟨nat₁, e₁⟩ := Nat44.translateIn_quoted hcut hqcut he 8
  obtain ⟨nat₂, e₂⟩ := Nat44.translateIn_quoted hfrag hqfrag he 8
  refine ⟨Nat44.opened_reachable, ⟨nat₁, _, e₁, by decide, by decide, he⟩, fun h => ?_, fun h => ?_⟩
  · have hr := (Nat44.restored_iff (by decide) (by decide) hqcut he).mp ((h _ _ _ e₁).1 rfl)
    exact absurd (hr.2 rfl) (by decide)
  · have hr := (Nat44.restored_iff (by decide) (by decide) hqfrag he).mp ((h _ _ _ e₂).1 rfl)
    exact absurd hr.1 (by decide)

end Tunnel.Wg
