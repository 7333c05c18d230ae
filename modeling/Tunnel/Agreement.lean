import Tunnel.Conn.ParseFlow
import Tunnel.Inspect.Parse
import Tunnel.Wg.Invariant

/-!
# The three readings of an IPv4 packet

A packet from the TUN is read by the NAT, by the traffic monitor and, without WireGuard, by the
connection manager.  The three agree on what a header is.  They differ on what may follow it: a TCP
header of less than twenty bytes is one to the NAT alone, and the payload of a later fragment is
one to all but the NAT.

* `parse_v4_spec`: the monitor's reading of a packet of version 4.
* `agree_iff`: the packets on which no reading differs.
-/

namespace Tunnel
open Support Inspect
open Wg (HdrOk ihlOf hdrOf fragOffsetOf outTuple isTcpUdp routable Nat44 NatReachable PROTO_TCP
  PROTO_UDP)

variable {pkt : Bytes}

/-! ### What the NAT carries -/

/-- The protocols whose ports are read. -/
theorem isTcpUdp_iff {proto : UInt8} : isTcpUdp proto = true ↔ proto = 6 ∨ proto = 17 := by
  simp [isTcpUdp, PROTO_TCP, PROTO_UDP]

/-- A NAT that has just been set up carries what it can key on ports. -/
theorem translateOut_new {wg : Ipv4Addr} {key : Wg.FwdKey} (h : outTuple pkt = some key)
    (hr : routable key.dst = true) (hw : key.dst ≠ wg) (now : Instant) :
    ∃ nat' pkt', (Nat44.new wg).translateOut pkt now = .ok (.translate, nat', pkt') := by
  have hc : (Nat44.new wg).outClass pkt = .keyed key :=
    Nat44.outClass_keyed_iff.mpr ⟨h, hr, hw, rfl⟩
  have hs : Nat44.span = 64511 + 1 := by decide
  have hempty : ¬ (Nat44.new wg).rev.size ≥ Wg.MAX_BINDINGS := by
    rw [show (Nat44.new wg).rev.size = 0 from rfl]
    decide
  have hr : (Nat44.new wg).reserved key.proto Wg.PORT_LO = false := Bool.and_false _
  have hb : ((Nat44.new wg).bind key now).1 = some Wg.PORT_LO := by
    have ha : (Nat44.new wg).allocPort key.proto =
        (some Wg.PORT_LO, { Nat44.new wg with nextPort := Nat44.cursorAfter Wg.PORT_LO }) := by
      unfold Nat44.allocPort
      rw [if_neg hempty, hs, Nat44.scanPorts, show (Nat44.new wg).nextPort = Wg.PORT_LO from rfl, hr]
      rfl
    have hf : (Nat44.new wg).fwd.lookup key = none := rfl
    unfold Nat44.bind
    rw [hf, ha]
  rw [Nat44.translateOut_eq, hc]
  dsimp only
  rcases hp : (Nat44.new wg).bind key now with ⟨_ | p, nat'⟩
  · rw [hp] at hb
    cases hb
  · exact ⟨_, _, rfl⟩

/-- What the NAT carries is not refused for its destination. -/
theorem routable_of_translate {nat nat' : Nat44} {pkt' : Bytes} {now : Instant} {key : Wg.FwdKey}
    (h : outTuple pkt = some key)
    (e : nat.translateOut pkt now = .ok (.translate, nat', pkt')) : routable key.dst = true := by
  obtain ⟨-, -, -, -, hd, -⟩ := Wg.outTuple_eq_some.mp h
  by_contra hr
  rw [hd] at hr
  have hc : nat.outClass pkt = .drop := if_neg fun h => hr h.2.1
  rw [Nat44.translateOut_eq, hc] at e
  cases e

/-! ### The readings -/

variable [Entropy]

/-- The monitor reads the L4 part of every packet with an IPv4 header. -/
theorem parse_v4_spec (hl : 20 ≤ pkt.length) (hv : pkt.getD 0 0 >>> 4 = 4) :
    ∃ r, parse pkt = .ok r ∧ (¬ HdrOk pkt → r = none) ∧
      (HdrOk pkt → Finished (.v4 (addr pkt 12)) (.v4 (addr pkt 16)) (pkt.getD 9 0)
        (pkt.drop (ihlOf pkt)) pkt.length r) := by
  have hne : pkt.isEmpty = false := by
    cases pkt with
    | nil => simp at hl
    | cons => rfl
  have hd : ∀ {i}, i < 20 → nth pkt i = .ok (pkt.getD i 0) := fun hi => nth_eq (by omega) 0
  unfold parse parseV4
  rw [hne, if_neg Bool.false_ne_true, hd (by omega), ok_bind, if_pos hv, if_neg (by omega), ok_bind]
  dsimp only
  rw [show (pkt.getD 0 0 &&& 0x0f).toNat * 4 = ihlOf pkt from rfl]
  by_cases hi : ihlOf pkt < 20 ∨ pkt.length < ihlOf pkt
  · have hn : ¬ HdrOk pkt := fun h => by obtain ⟨-, -, h, h'⟩ := h; omega
    exact ⟨none, if_pos hi, fun _ => rfl, fun h => absurd h hn⟩
  · have hok : HdrOk pkt := ⟨hl, hv, by omega, by omega⟩
    rw [if_neg hi, hd (by omega), ok_bind, addrAt_eq (by omega), ok_bind, addrAt_eq (by omega),
      ok_bind, sliceFrom_eq (by omega), ok_bind]
    obtain ⟨r, hr, hf⟩ := finish_spec (.v4 (addr pkt 12)) (.v4 (addr pkt 16)) (pkt.getD 9 0)
      (pkt.drop (ihlOf pkt)) pkt.length
    exact ⟨r, hr, fun h => absurd hok h, fun _ => hf⟩

/-- An IPv4 packet with a fragment offset: its payload does not start with an L4 header. -/
def LaterFragment (pkt : Bytes) : Prop :=
  20 ≤ pkt.length ∧ pkt.getD 0 0 >>> 4 = 4 ∧ fragOffsetOf pkt ≠ 0

/-- The monitor reads the ports by which a NAT carries the packet, and neither the monitor nor the
connection manager reads ports, or a SYN, from the payload of a later fragment. -/
structure Agree (pkt : Bytes) : Prop where
  carried : ∀ wg nat now nat' pkt' key, NatReachable wg nat →
    nat.translateOut pkt now = .ok (.translate, nat', pkt') → outTuple pkt = some key →
    isTcpUdp key.proto = true →
    ∃ p, parse pkt = .ok (some p) ∧ p.srcIp = .v4 key.src ∧ p.dstIp = .v4 key.dst ∧
      p.srcPort = key.sport ∧ p.dstPort = key.dport
  fragment : LaterFragment pkt →
    (∀ p, parse pkt = .ok (some p) → p.l4 ≠ .tcp ∧ p.l4 ≠ .udp) ∧ Conn.parseFlow pkt = .ok none

/-- A TCP packet for a host that can be reached, with eight bytes of its header or more, and less
than twenty. -/
def ShortTcp (pkt : Bytes) : Prop :=
  HdrOk pkt ∧ fragOffsetOf pkt = 0 ∧ routable (addr pkt 16) = true ∧ pkt.getD 9 0 = 6 ∧
    ihlOf pkt + 8 ≤ pkt.length ∧ pkt.length < ihlOf pkt + 20

/-- A later fragment of a TCP or UDP packet, with a payload as long as a header. -/
def LongFragment (pkt : Bytes) : Prop :=
  HdrOk pkt ∧ fragOffsetOf pkt ≠ 0 ∧
    (pkt.getD 9 0 = 6 ∧ ihlOf pkt + 20 ≤ pkt.length ∨
      pkt.getD 9 0 = 17 ∧ ihlOf pkt + 8 ≤ pkt.length)

/-- The NAT carries a packet of `ShortTcp`, and the monitor reads no ports of it. -/
theorem Agree.not_shortTcp (h : Agree pkt) : ¬ ShortTcp pkt := by
  rintro ⟨hok, hf, hr, hp, hl, hs⟩
  let key : Wg.FwdKey :=
    ⟨6, addr pkt 12, word pkt (ihlOf pkt), addr pkt 16, word pkt (ihlOf pkt + 2)⟩
  have hk : outTuple pkt = some key :=
    Wg.outTuple_eq_some.mpr ⟨hok, hf, hp.symm, rfl, rfl,
      Wg.outL4_ports_iff.mpr ⟨hl, .inl ⟨isTcpUdp_iff.mpr (.inl hp), rfl, rfl⟩⟩⟩
  obtain ⟨wg, hw⟩ : ∃ wg : Ipv4Addr, key.dst ≠ wg := by
    by_cases h0 : key.dst = ⟨0, 0, 0, 0⟩
    · exact ⟨⟨0, 0, 0, 1⟩, by rw [h0]; decide⟩
    · exact ⟨_, h0⟩
  obtain ⟨nat', pkt', e⟩ := translateOut_new hk hr hw 0
  obtain ⟨p, e', -⟩ := h.carried wg _ 0 nat' pkt' key (Reachable.of_start rfl) e hk rfl
  obtain ⟨r, hr', -, hfin⟩ := parse_v4_spec hok.1 hok.2.1
  have hdrop : (pkt.drop (ihlOf pkt)).length = pkt.length - ihlOf pkt := List.length_drop
  have hn : r = none := (hfin hok).none_iff.mpr (.inl ⟨hp, by omega⟩)
  rw [hr', hn] at e'
  cases e'

/-- The connection manager takes a packet of `LongFragment` for the start of a flow. -/
theorem Agree.not_longFragment (h : Agree pkt) : ¬ LongFragment pkt := by
  rintro ⟨hok, hf, hp⟩
  obtain ⟨-, hflow⟩ := h.fragment ⟨hok.1, hok.2.1, hf⟩
  rw [Conn.parseFlow_eq, if_pos hok, Conn.flowOf] at hflow
  rcases hp with hp | hp
  · rw [if_pos hp] at hflow
    cases hflow
  · rw [if_neg fun h => absurd (hp.1.symm.trans h.1) (by decide), if_pos hp] at hflow
    cases hflow

/-- The monitor and the NAT read the same ports, where a TCP header is not cut short. -/
theorem parse_of_outTuple {key : Wg.FwdKey} (hs : ¬ ShortTcp pkt) (hk : outTuple pkt = some key)
    (ht : isTcpUdp key.proto = true) (hr : routable key.dst = true) :
    ∃ p, parse pkt = .ok (some p) ∧ p.srcIp = .v4 key.src ∧ p.dstIp = .v4 key.dst ∧
      p.srcPort = key.sport ∧ p.dstPort = key.dport := by
  have hdrop : (pkt.drop (ihlOf pkt)).length = pkt.length - ihlOf pkt := List.length_drop
  obtain ⟨hok, hf, hp, hsrc, hdst, hl4⟩ := Wg.outTuple_eq_some.mp hk
  rw [hp] at ht
  obtain ⟨hl, ⟨-, hsp, hdp⟩ | ⟨hi, -⟩⟩ := Wg.outL4_ports_iff.mp hl4
  swap
  · rw [hi] at ht
    cases ht
  obtain ⟨r, hparse, -, hfin⟩ := parse_v4_spec hok.1 hok.2.1
  have hfin := hfin hok
  cases hr' : r with
  | none =>
      rcases hfin.none_iff.mp hr' with ⟨hp6, hlen⟩ | ⟨-, hlen⟩
      · exact absurd ⟨hok, hf, hdst ▸ hr, hp6, hl, by omega⟩ hs
      · omega
  | some p =>
      obtain ⟨h₁, h₂, -⟩ := hfin.addrs p hr'
      obtain ⟨h₃, h₄⟩ := hfin.ports p hr' (isTcpUdp_iff.mp ht)
      rw [word_drop] at h₃ h₄
      exact ⟨p, hr' ▸ hparse, by rw [h₁, hsrc], by rw [h₂, hdst], h₃.trans hsp, h₄.trans hdp⟩

/-- A later fragment that is too short to be taken for a packet is not taken for one. -/
theorem unread_of_laterFragment (hg : ¬ LongFragment pkt) (hl : LaterFragment pkt) :
    (∀ p, parse pkt = .ok (some p) → p.l4 ≠ .tcp ∧ p.l4 ≠ .udp) ∧ Conn.parseFlow pkt = .ok none := by
  have hdrop : (pkt.drop (ihlOf pkt)).length = pkt.length - ihlOf pkt := List.length_drop
  obtain ⟨hl, hv, hf⟩ := hl
  obtain ⟨r, hparse, hnone, hfin⟩ := parse_v4_spec hl hv
  by_cases hok : HdrOk pkt
  · have hfin := hfin hok
    have htcp : ¬ (pkt.getD 9 0 = 6 ∧ ihlOf pkt + 20 ≤ pkt.length) :=
      fun h => hg ⟨hok, hf, .inl h⟩
    have hudp : ¬ (pkt.getD 9 0 = 17 ∧ ihlOf pkt + 8 ≤ pkt.length) :=
      fun h => hg ⟨hok, hf, .inr h⟩
    constructor
    · intro p e
      rw [hparse] at e
      have hr : r = some p := by simpa using e
      have hsome : r ≠ none := by simp [hr]
      -- The monitor passes over a TCP or UDP part that is shorter than a header.
      obtain ⟨hnt, hnu⟩ := not_or.mp (mt hfin.none_iff.mpr hsome)
      exact ⟨fun h => htcp ⟨(hfin.tcp p hr).mp h, by
          have := not_and.mp hnt ((hfin.tcp p hr).mp h); omega⟩,
        fun h => hudp ⟨(hfin.udp p hr).mp h, by
          have := not_and.mp hnu ((hfin.udp p hr).mp h); omega⟩⟩
    · rw [Conn.parseFlow_eq, if_pos hok, Conn.flowOf, if_neg htcp, if_neg hudp]
  · rw [hnone hok] at hparse
    constructor
    · intro p e
      rw [hparse] at e
      cases e
    · rw [Conn.parseFlow_eq, if_neg hok]

/-- The readings agree on a packet unless it is TCP with a header cut short, or a later fragment
long enough to be taken for a packet. -/
theorem agree_iff (pkt : Bytes) : Agree pkt ↔ ¬ ShortTcp pkt ∧ ¬ LongFragment pkt := by
  constructor
  · exact fun h => ⟨h.not_shortTcp, h.not_longFragment⟩
  · rintro ⟨hs, hg⟩
    constructor
    · intro wg nat now nat' pkt' key _ e hk ht
      exact parse_of_outTuple hs hk ht (routable_of_translate hk e)
    · exact unread_of_laterFragment hg

/-- A later fragment of a UDP packet from 10.0.0.2 to 1.1.1.1, with the words 5353 and 53 where a
header would have its ports. -/
def aFragment : Bytes :=
  [0x45, 0, 0, 28, 0, 1, 0, 185, 64, 17, 0, 0, 10, 0, 0, 2, 1, 1, 1, 1, 0x14, 0xe9, 0, 53, 0, 8, 0, 0]

omit [Entropy] in
/-- The connection manager opens a flow for it. -/
theorem fragment_opens_flow : ¬ ∀ (_ : Entropy) (pkt : Bytes), Agree pkt := by
  intro h
  let entropy : Entropy := ⟨fun _ _ => false⟩
  have hf := ((h entropy aFragment).fragment ⟨by decide, by decide, by decide⟩).2
  have he : Conn.parseFlow aFragment =
      .ok (some ⟨17, ⟨⟨10, 0, 0, 2⟩, 5353⟩, ⟨⟨1, 1, 1, 1⟩, 53⟩, false⟩) := by decide
  rw [he] at hf
  cases hf

end Tunnel
