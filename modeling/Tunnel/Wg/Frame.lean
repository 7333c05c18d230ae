import Tunnel.Support.Frame
import Tunnel.Wg.Forward

/-!
# Wg — The frame of a translation

A packet is translated in place, whatever bytes it carries: its length is kept, and the bytes that
change are those of one endpoint and of the checksums over it (`addrBytes`, `l4Bytes`).  A packet
that is not translated is left as it is, and so are the tables.

The bytes of an endpoint are told from the header the packet itself carries.  An ICMP error holds a
second header, at `ihl + 8`, with bytes of its own (`quoteBytes`).

* `framed_addrRewritten`, `framed_sideRewritten`, `framed_errorRewritten`: the frame of each rewrite.
* `translation_framed`: the law for every reachable NAT, every packet and every time.
-/

namespace Tunnel.Wg
open Support

/-! ### The bytes of an endpoint -/

/-- One address of an IPv4 header, and the header checksum. -/
def addrBytes (side : Side) : Set ℕ :=
  {j | (side.addr ≤ j ∧ j < side.addr + 4) ∨ (10 ≤ j ∧ j < 12)}

/-- The echo message whose identifier stands for a port: a request on its way out, a reply on its
way in. -/
def Side.echo : Side → UInt8
  | .src => 8
  | .dst => 0

/-- One port of a TCP or UDP header and its checksum; for an echo message, the identifier and the
checksum. -/
def l4Bytes (side : Side) (pkt : Bytes) : Set ℕ :=
  let l4 := ihlOf pkt
  let proto := pkt.getD 9 0
  {j | (isTcpUdp proto = true ∧ l4 + side.port ≤ j ∧ j < l4 + side.port + 2) ∨
    (∃ off, l4CsumOffset proto = some off ∧ l4 + off ≤ j ∧ j < l4 + off + 2) ∨
    ((proto = PROTO_ICMP ∧ pkt.getD l4 0 = side.echo) ∧ l4 + 2 ≤ j ∧ j < l4 + 6)}

/-- An ICMP message that is keyed is an echo message. -/
def Echoes (side : Side) (pkt : Bytes) : Prop :=
  pkt.getD 9 0 = PROTO_ICMP → pkt.getD (ihlOf pkt) 0 = side.echo

/-- The source of the packet an ICMP error quotes. -/
def quoteBytes (pkt : Bytes) : Set ℕ :=
  (ihlOf pkt + 8 + ·) '' (addrBytes .src ∪ l4Bytes .src (pkt.drop (ihlOf pkt + 8)))

/-- The checksum of an ICMP message. -/
def icmpCsumBytes (pkt : Bytes) : Set ℕ := Set.Ico (ihlOf pkt + 2) (ihlOf pkt + 4)

/-- What an outbound translation may change: a later fragment has no L4 header. -/
def outBytes (pkt : Bytes) : Set ℕ :=
  if fragOffsetOf pkt = 0 then addrBytes .src ∪ l4Bytes .src pkt else addrBytes .src

/-- What an inbound translation may change. -/
def inBytes (pkt : Bytes) : Set ℕ :=
  if fragOffsetOf pkt = 0 then
    match inL4 pkt with
    | .icmpError => addrBytes .dst ∪ icmpCsumBytes pkt ∪ quoteBytes pkt
    | _ => addrBytes .dst ∪ l4Bytes .dst pkt
  else addrBytes .dst

theorem echoes_outL4 {pkt : Bytes} {sport dport : UInt16} (h : outL4 pkt = .ports sport dport) :
    Echoes .src pkt := by
  intro hic
  rcases (outL4_ports_iff.mp h).2 with ⟨ht, -⟩ | ⟨-, hk, -⟩
  · exact absurd hic (ne_icmp_of_isTcpUdp ht)
  · exact hk

theorem echoes_inL4 {pkt : Bytes} {p : UInt16} (h : inL4 pkt = .port p) : Echoes .dst pkt := by
  intro hic
  rcases (inL4_port_iff.mp h).2 with ⟨ht, -⟩ | ⟨-, hk, -⟩
  · exact absurd hic (ne_icmp_of_isTcpUdp ht)
  · exact hk

theorem echoes_quoteTarget {pkt : Bytes} {k : RevKey} (h : quoteTarget pkt = some k) :
    Echoes .src (pkt.drop (ihlOf pkt + 8)) := by
  intro hic
  have hok := (quoteTarget_proto h).1
  have ht : ¬ isTcpUdp ((pkt.drop (ihlOf pkt + 8)).getD 9 0) = true := fun ht =>
    ne_icmp_of_isTcpUdp ht hic
  unfold quoteTarget at h
  dsimp only at h
  rw [if_pos hok, if_neg ht, if_pos hic] at h
  split_ifs at h with hl hk
  exact hk

/-! ### The rewrites -/

variable {side : Side} {pkt : Bytes} {old new : Ipv4Addr}

variable (side old new) in
/-- An address rewrite that leaves the L4 header alone. -/
theorem framed_addrRewritten (ihl : ℕ) :
    Framed (addrBytes side) pkt (addrRewritten pkt ihl side old new none) := by
  refine .of_getD (d := 0) (by simp) fun j hj => ?_
  simp only [addrBytes, Set.mem_ofPred_eq, not_or] at hj
  exact getD_addrRewritten (by omega) (by omega) nofun

/-- An address rewrite, with the L4 checksum. -/
theorem framed_addrRewritten_l4 :
    Framed (addrBytes side ∪ l4Bytes side pkt) pkt
      (addrRewritten pkt (ihlOf pkt) side old new (some (pkt.getD 9 0))) := by
  refine .of_getD (d := 0) (by simp) fun j hj => ?_
  simp only [addrBytes, l4Bytes, Set.mem_union, Set.mem_ofPred_eq, not_or, not_exists] at hj
  obtain ⟨ha, -, hc, -⟩ := hj
  refine getD_addrRewritten (by omega) (by omega) ?_
  intro proto off hp ho
  cases hp
  have hoff := hc off
  simp only [ho, true_and] at hoff
  omega

theorem framed_portRewritten (he : Echoes side pkt) (b : Bytes) (p q : UInt16) :
    Framed (l4Bytes side pkt) b (portRewritten b (ihlOf pkt) side (pkt.getD 9 0) p q) := by
  refine .of_getD (d := 0) (by simp) fun j hj => ?_
  simp only [l4Bytes, Set.mem_ofPred_eq, not_or, not_exists] at hj
  obtain ⟨hp, hc, hi⟩ := hj
  refine getD_portRewritten (fun ht => ?_) (fun off ho => ?_) fun hic => ?_
  · simp only [ht, true_and] at hp
    omega
  · have hoff := hc off
    simp only [ho, true_and] at hoff
    omega
  · simp only [hic, he hic, and_self, true_and] at hi
    omega

/-- A rewrite of one endpoint. -/
theorem framed_sideRewritten (he : Echoes side pkt) (p q : UInt16) :
    Framed (addrBytes side ∪ l4Bytes side pkt) pkt
      (sideRewritten side pkt old new (pkt.getD 9 0) p q) := by
  have h : Framed _ pkt (addrRewritten pkt (ihlOf pkt) side old new (some (pkt.getD 9 0))) :=
    framed_addrRewritten_l4
  exact (h.trans (framed_portRewritten he _ p q)).mono (by simp)

/-- A new checksum in the message behind the header. -/
theorem framed_icmpCsum {b : Bytes} {n : ℕ} (hn : n ≤ b.length) (c : UInt16) :
    Framed (Set.Ico (n + 2) (n + 4)) b
      (b.take n ++ splice (splice (splice (b.drop n) 2 [0]) 3 [0]) 2 (beBytes c)) := by
  have h := ((framed_splice (b.drop n) 2 [0]).trans (framed_splice _ 3 [0])).trans
    (framed_splice _ 2 (beBytes c))
  refine (h.afterPrefix hn).mono ?_
  rintro _ ⟨i, hi, rfl⟩
  simp only [Set.mem_union, Set.mem_Ico, List.length_singleton, length_beBytes] at hi ⊢
  omega

/-- A new source for the packet an ICMP error quotes. -/
theorem framed_quote {k : RevKey} (hq : ihlOf pkt + 8 ≤ pkt.length) (hk : quoteTarget pkt = some k)
    (wg host : Ipv4Addr) (hport : UInt16) :
    Framed (quoteBytes pkt) pkt (pkt.take (ihlOf pkt + 8) ++
      sideRewritten .src (pkt.drop (ihlOf pkt + 8)) wg host k.proto k.port hport) := by
  rw [(quoteTarget_proto hk).2]
  exact (framed_sideRewritten (echoes_quoteTarget hk) _ _).afterPrefix hq

/-- The rewrite of an ICMP error, quote and all. -/
theorem framed_errorRewritten {k : RevKey} {wg host : Ipv4Addr} {hport : UInt16}
    (hq : ihlOf pkt + 8 ≤ pkt.length) (hk : quoteTarget pkt = some k) :
    Framed (addrBytes .dst ∪ icmpCsumBytes pkt ∪ quoteBytes pkt) pkt
      (errorRewritten wg pkt k host hport) := by
  have haddr := (framed_quote hq hk wg host hport).trans
    (framed_addrRewritten .dst wg host (ihlOf pkt))
  have hl := haddr.length_eq
  refine (haddr.trans (framed_icmpCsum (n := ihlOf pkt) (by omega) _)).mono ?_
  rintro j ((hj | hj) | hj)
  · exact .inr hj
  · exact .inl (.inl hj)
  · exact .inl (.inr hj)

theorem addr_framed {s : Set ℕ} {a b : Bytes} {i : ℕ} (h : Framed s a b)
    (hi : ∀ k, k < 4 → i + k ∉ s) : addr b i = addr a i :=
  addr_congr fun k hk => h.getD_eq (hi k hk) 0

/-- A translated ICMP error is for the endpoint its quote was restored to. -/
theorem addr_errorRewritten {k : RevKey} {wg host : Ipv4Addr} {hport : UInt16} (hok : HdrOk pkt)
    (hq : ihlOf pkt + 8 ≤ pkt.length) (hk : quoteTarget pkt = some k) (ha : addr pkt 16 = wg) :
    addr (errorRewritten wg pkt k host hport) 16 = host := by
  have hi := hok.2.2.1
  have hquote := framed_quote hq hk wg host hport
  have hl := hquote.length_eq
  have hold := addr_framed (i := 16) hquote fun j hj => by
    rintro ⟨i, -, hij⟩
    simp only at hij
    omega
  have hdst := addr_addrRewritten .dst host none (by omega) hi (hold.trans ha)
  refine (addr_framed (framed_icmpCsum (n := ihlOf pkt) ?_ _) fun j hj => ?_).trans hdst
  · rw [length_addrRewritten]
    exact (show ihlOf pkt ≤ pkt.length by omega).trans hl.ge
  · simp only [Set.mem_Ico]
    omega

/-! ### The calls -/

namespace Nat44

/-- The hosts an inbound packet may be delivered to. -/
def Knows (nat : Nat44) (host : Ipv4Addr) : Prop :=
  (∃ k b, nat.rev.lookup k = some b ∧ b.src = host) ∨
    (∃ k t, nat.frag.lookup k = some (host, t)) ∨ ∃ f, nat.forward = some f ∧ f.host = host

/-- The bindings, the fragment map and the forward are the same. -/
def SameBindings (nat nat' : Nat44) : Prop :=
  nat'.fwd = nat.fwd ∧ nat'.rev = nat.rev ∧ nat'.frag = nat.frag ∧ nat'.forward = nat.forward

theorem SameBindings.rfl {nat : Nat44} : SameBindings nat nat :=
  ⟨Eq.refl _, Eq.refl _, Eq.refl _, Eq.refl _⟩

theorem outClass_addr {nat : Nat44} (h : nat.outClass pkt ≠ .drop) :
    HdrOk pkt ∧ routable (addr pkt 16) = true ∧ addr pkt 16 ≠ nat.wgAddr := by
  by_contra hok
  refine h ?_
  unfold outClass
  rw [if_neg hok]

theorem outClass_hdrOk {nat : Nat44} (h : nat.outClass pkt ≠ .drop) : HdrOk pkt :=
  (outClass_addr h).1

theorem outClass_forwarded {nat : Nat44} (h : nat.outClass pkt = .forwarded) :
    fragOffsetOf pkt = 0 := by
  by_contra hf
  unfold outClass at h
  rw [if_pos hf] at h
  split at h <;> cases h

theorem inClass_hdrOk {nat : Nat44} (h : nat.inClass pkt ≠ .drop) :
    HdrOk pkt ∧ addr pkt 16 = nat.wgAddr := by
  by_contra hok
  refine h ?_
  unfold inClass
  rw [if_neg hok]

theorem inClass_fragment {nat : Nat44} {orig : Ipv4Addr} (h : nat.inClass pkt = .fragment orig) :
    ∃ t, nat.frag.lookup (fragKeyOf pkt) = some (orig, t) := by
  unfold inClass at h
  split at h
  swap
  · cases h
  split at h
  · cases hl : nat.frag.lookup (fragKeyOf pkt) with
    | none => rw [hl] at h; cases h
    | some e => rw [hl] at h; cases h; exact ⟨e.2, rfl⟩
  · split at h
    · cases h
    · cases h
    · split at h <;> cases h

/-- What the forward takes is a packet with its L4 header. -/
theorem inClass_forwarded {nat : Nat44} {f : Forward} (h : nat.inClass pkt = .forwarded f) :
    fragOffsetOf pkt = 0 ∧ (∃ p, inL4 pkt = .port p) ∧ nat.forward = some f := by
  unfold inClass at h
  split at h
  swap
  · cases h
  split at h
  · split at h <;> cases h
  · next hf =>
      cases hl : inL4 pkt with
      | drop => rw [hl] at h; cases h
      | icmpError => rw [hl] at h; cases h
      | port p =>
          rw [hl] at h
          dsimp only at h
          split at h
          · next f' hff =>
              cases h
              exact ⟨not_not.mp hf, ⟨p, rfl⟩, (Option.filter_eq_some_iff.mp hff).1⟩
          · cases h

end Nat44

theorem addrBytes_subset_outBytes (pkt : Bytes) : addrBytes .src ⊆ outBytes pkt := by
  unfold outBytes
  split
  · exact Set.subset_union_left
  · exact subset_rfl

theorem addrBytes_subset_inBytes (pkt : Bytes) : addrBytes .dst ⊆ inBytes pkt := by
  unfold inBytes
  split
  · split
    · exact Set.subset_union_left.trans Set.subset_union_left
    · exact Set.subset_union_left
  · exact subset_rfl

/-- An outbound packet is translated within its frame, or nothing happens. -/
theorem Nat44.Inv.translateOut_framed {nat : Nat44} (hi : nat.Inv) (pkt : Bytes) (now : Instant) :
    ∃ v nat' pkt', nat.translateOut pkt now = .ok (v, nat', pkt') ∧
      (v ≠ .translate → pkt' = pkt ∧ nat.SameBindings nat') ∧
      (v = .translate → HdrOk pkt ∧ addr pkt' 12 = nat.wgAddr ∧ Framed (outBytes pkt) pkt pkt') := by
  rw [Nat44.translateOut_eq]
  have hok : nat.outClass pkt ≠ .drop → HdrOk pkt := Nat44.outClass_hdrOk
  cases hc : nat.outClass pkt with
  | drop => exact ⟨_, _, _, rfl, fun _ => ⟨rfl, .rfl⟩, nofun⟩
  | stateless =>
      have hok := hok (by simp [hc])
      refine ⟨_, _, _, rfl, fun h => absurd rfl h, fun _ => ⟨hok, ?_, ?_⟩⟩
      · exact addr_addrRewritten .src _ _ hok.1 hok.2.2.1 rfl
      · exact (framed_addrRewritten _ _ _ _).mono (addrBytes_subset_outBytes pkt)
  | forwarded =>
      have hok := hok (by simp [hc])
      refine ⟨_, _, _, rfl, fun h => absurd rfl h, fun _ => ⟨hok, ?_, ?_⟩⟩
      · exact addr_addrRewritten .src _ _ hok.1 hok.2.2.1 rfl
      · rw [outBytes, if_pos (Nat44.outClass_forwarded hc)]
        exact framed_addrRewritten_l4
  | keyed key =>
      obtain ⟨hk, -⟩ := Nat44.outClass_keyed_iff.mp hc
      obtain ⟨hok, hf, hp, hs, -, hs'⟩ := outTuple_eq_some.mp hk
      dsimp only
      rcases nat.bind_cases key now hi.cursor_ge with ⟨p, -, e⟩ | ⟨cursor, -, -, e⟩ |
          ⟨p, cursor, -, -, -, -, -, -, e⟩ <;> rw [e]
      case inr.inl => exact ⟨_, _, _, rfl, fun _ => ⟨rfl, rfl, rfl, rfl, rfl⟩, nofun⟩
      all_goals
        refine ⟨_, _, _, rfl, fun h => absurd rfl h, fun _ => ⟨hok, ?_, ?_⟩⟩
        · exact addr_sideRewritten .src hok hs.symm
        · rw [outBytes, if_pos hf, outRewritten, hp]
          exact framed_sideRewritten (echoes_outL4 hs') _ _

/-- An ICMP error is translated within its frame, or nothing happens. -/
theorem Nat44.translateIcmpError_framed {nat : Nat44} (now : Instant)
    (hc : nat.inClass pkt = .icmpError) :
    ∃ v nat' pkt', nat.translateIcmpError pkt (ihlOf pkt) now = .ok (v, nat', pkt') ∧
      (v ≠ .translate → pkt' = pkt ∧ nat.SameBindings nat') ∧
      (v = .translate → nat.Knows (addr pkt' 16) ∧ Framed (inBytes pkt) pkt pkt') := by
  obtain ⟨hok, hq⟩ := Nat44.inClass_icmpError hc
  obtain ⟨-, ha, hf, hl⟩ := Nat44.inClass_icmpError_iff.mp hc
  rw [Nat44.translateIcmpError_eq nat now hok hq]
  cases hk : nat.quoted pkt with
  | none => exact ⟨_, _, _, rfl, fun _ => ⟨rfl, .rfl⟩, nofun⟩
  | some k =>
      have hk' : quoteTarget pkt = some k := by
        unfold Nat44.quoted at hk
        split at hk
        · exact hk
        · cases hk
      have hframe : ∀ host hport, Framed (inBytes pkt) pkt
          (errorRewritten nat.wgAddr pkt k host hport) := by
        intro host hport
        rw [inBytes, if_pos hf, hl]
        exact framed_errorRewritten hq hk'
      have hdst : ∀ host hport, addr (errorRewritten nat.wgAddr pkt k host hport) 16 = host :=
        fun host hport => addr_errorRewritten hok hq hk' ha
      dsimp only
      rw [Nat44.resolveQuote_eq]
      cases hfw : nat.forwardFor k with
      | some f =>
          refine ⟨_, _, _, rfl, fun h => absurd rfl h, fun _ => ⟨?_, hframe _ _⟩⟩
          rw [hdst]
          exact .inr (.inr ⟨f, (Option.filter_eq_some_iff.mp hfw).1, rfl⟩)
      | none =>
          cases hb : nat.rev.lookup k with
          | none => exact ⟨_, _, _, rfl, fun _ => ⟨rfl, .rfl⟩, nofun⟩
          | some b =>
              refine ⟨_, _, _, rfl, fun h => absurd rfl h, fun _ => ⟨?_, hframe _ _⟩⟩
              rw [hdst]
              exact .inl ⟨k, b, hb, rfl⟩

/-- An inbound packet is translated within its frame, or nothing happens. -/
theorem Nat44.translateIn_framed (nat : Nat44) (pkt : Bytes) (now : Instant) :
    ∃ v nat' pkt', nat.translateIn pkt now = .ok (v, nat', pkt') ∧
      (v ≠ .translate → pkt' = pkt ∧ nat.SameBindings nat') ∧
      (v = .translate → HdrOk pkt ∧ nat.Knows (addr pkt' 16) ∧ Framed (inBytes pkt) pkt pkt') := by
  rw [Nat44.translateIn_eq]
  have hok : nat.inClass pkt ≠ .drop → HdrOk pkt ∧ addr pkt 16 = nat.wgAddr :=
    Nat44.inClass_hdrOk
  cases hc : nat.inClass pkt with
  | drop => exact ⟨_, _, _, rfl, fun _ => ⟨rfl, .rfl⟩, nofun⟩
  | fragment orig =>
      obtain ⟨hok, ha⟩ := hok (by simp [hc])
      refine ⟨_, _, _, rfl, fun h => absurd rfl h, fun _ => ⟨hok, ?_, ?_⟩⟩
      · obtain ⟨t, ht⟩ := Nat44.inClass_fragment hc
        rw [show addr _ 16 = orig from addr_addrRewritten .dst _ _ hok.1 hok.2.2.1 ha]
        exact .inr (.inl ⟨_, t, ht⟩)
      · exact (framed_addrRewritten _ _ _ _).mono (addrBytes_subset_inBytes pkt)
  | icmpError =>
      obtain ⟨v, nat', pkt', e, hv, hv'⟩ := Nat44.translateIcmpError_framed now hc
      exact ⟨v, nat', pkt', e, hv, fun h => ⟨(hok (by simp [hc])).1, hv' h⟩⟩
  | forwarded f =>
      obtain ⟨hok, ha⟩ := hok (by simp [hc])
      obtain ⟨hf, ⟨p, hl⟩, hfw⟩ := Nat44.inClass_forwarded hc
      refine ⟨_, _, _, rfl, fun h => absurd rfl h, fun _ => ⟨hok, ?_, ?_⟩⟩
      · rw [show addr _ 16 = f.host from addr_addrRewritten .dst _ _ hok.1 hok.2.2.1 ha]
        exact .inr (.inr ⟨f, hfw, rfl⟩)
      · rw [inBytes, if_pos hf, hl]
        exact framed_addrRewritten_l4
  | keyed k =>
      obtain ⟨hk, ha, -⟩ := Nat44.inClass_keyed_iff.mp hc
      obtain ⟨hok, hf, hp, hl⟩ := inTarget_eq_some.mp hk
      dsimp only
      cases hb : nat.rev.lookup k with
      | none => exact ⟨_, _, _, rfl, fun _ => ⟨rfl, .rfl⟩, nofun⟩
      | some b =>
          refine ⟨_, _, _, rfl, fun h => absurd rfl h, fun _ => ⟨hok, ?_, ?_⟩⟩
          · rw [addr_inRewritten hok ha]
            exact .inl ⟨k, b, hb, rfl⟩
          · rw [inBytes, if_pos hf, hl, inRewritten, hp]
            exact framed_sideRewritten (echoes_inL4 hl) _ _

/-- No call changes the client address. -/
theorem Nat44.Inv.wgAddr_step {nat nat' : Nat44} {op : NatOp} (h : nat.Inv)
    (e : NatStep nat op nat') : nat'.wgAddr = nat.wgAddr := by
  cases ht : op.isTraffic with
  | true => exact (Nat44.call_grows h ht e).wgAddr
  | false =>
      obtain ⟨out, e⟩ := e
      cases op <;> cases ht <;> cases e <;> rfl

/-- The client address of a NAT is the one it was made with. -/
theorem NatReachable.wgAddr_eq {wg : Ipv4Addr} {nat : Nat44} (h : NatReachable wg nat) :
    nat.wgAddr = wg := by
  refine (Reachable.invariant (I := fun nat => nat.Inv ∧ nat.wgAddr = wg) ?_ ?_ h).2
  · rintro _ rfl
    exact ⟨Nat44.inv_new wg, rfl⟩
  · rintro nat op nat' ⟨hi, hw⟩ e
    exact ⟨hi.call e, (hi.wgAddr_step e).trans hw⟩

/-- The translator is total, framed and atomic. -/
theorem translation_framed {wg : Ipv4Addr} {nat : Nat44} (h : NatReachable wg nat) (pkt : Bytes)
    (now : Instant) :
    (∃ v nat' pkt', nat.translateOut pkt now = .ok (v, nat', pkt') ∧
      (v ≠ .translate → pkt' = pkt ∧ nat.SameBindings nat') ∧
      (v = .translate → HdrOk pkt ∧ addr pkt' 12 = wg ∧ Framed (outBytes pkt) pkt pkt')) ∧
    (∃ v nat' pkt', nat.translateIn pkt now = .ok (v, nat', pkt') ∧
      (v ≠ .translate → pkt' = pkt ∧ nat.SameBindings nat') ∧
      (v = .translate → HdrOk pkt ∧ nat.Knows (addr pkt' 16) ∧ Framed (inBytes pkt) pkt pkt')) := by
  have hw := h.wgAddr_eq
  subst hw
  exact ⟨h.inv.translateOut_framed pkt now, nat.translateIn_framed pkt now⟩

/-- A packet of an open binding goes out from the client address, its length kept. -/
theorem translation_framed_opened :
    ∃ nat' pkt', Nat44.opened.translateOut (udpPacket ⟨10, 0, 0, 5⟩ 5000 ⟨1, 1, 1, 1⟩ 53) 8 =
        .ok (.translate, nat', pkt') ∧ addr pkt' 12 = ⟨10, 2, 0, 2⟩ ∧ pkt'.length = 28 := by
  obtain ⟨⟨v, nat', pkt', e, -, ht⟩, -⟩ := translation_framed Nat44.opened_reachable
    (udpPacket ⟨10, 0, 0, 5⟩ 5000 ⟨1, 1, 1, 1⟩ 53) 8
  have hv : (Nat44.opened.translateOut (udpPacket ⟨10, 0, 0, 5⟩ 5000 ⟨1, 1, 1, 1⟩ 53)
      8).toOption.map (·.1) = some .translate := by decide
  rw [e] at hv
  cases hv
  obtain ⟨-, hsrc, hframe⟩ := ht rfl
  exact ⟨nat', pkt', e, hsrc, hframe.length_eq⟩

end Tunnel.Wg
