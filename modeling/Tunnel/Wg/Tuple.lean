import Tunnel.Wg.Steps

/-!
# Wg — The tuple of a translated packet

What the endpoints of a packet are after a translation, read from the bytes the NAT returns.

* `outTuple_outRewritten`: an outbound packet leaves with its own tuple, but for the source, which
  is the client address and the port of its binding.
* `inTarget_inRewritten`, `addr_inRewritten`: an inbound packet arrives at the endpoint of its
  binding.
-/

namespace Tunnel.Wg
open Support

/-- An address rewrite and a port rewrite at one side of a packet. -/
def sideRewritten (side : Side) (pkt : Bytes) (old new : Ipv4Addr) (proto : UInt8)
    (oldPort newPort : UInt16) : Bytes :=
  portRewritten (addrRewritten pkt (ihlOf pkt) side old new (some proto)) (ihlOf pkt) side proto
    oldPort newPort

variable {side : Side} {pkt : Bytes} {old new : Ipv4Addr} {proto : UInt8} {oldPort newPort : UInt16}

@[simp] theorem length_sideRewritten :
    (sideRewritten side pkt old new proto oldPort newPort).length = pkt.length := by
  rw [sideRewritten, length_portRewritten, length_addrRewritten]

/-- The header up to its checksum is not touched. -/
theorem getD_sideRewritten_header (hi : 20 ≤ ihlOf pkt) {j : ℕ} (hj : j < 10) :
    (sideRewritten side pkt old new proto oldPort newPort).getD j 0 = pkt.getD j 0 := by
  have hs := side.le_addr
  rw [sideRewritten, getD_portRewritten (fun _ => by omega) (fun off ho => by omega)
    (fun _ => by omega), getD_addrRewritten (by omega) (by omega) (fun _ off _ _ => by omega)]

theorem ihlOf_sideRewritten (hi : 20 ≤ ihlOf pkt) :
    ihlOf (sideRewritten side pkt old new proto oldPort newPort) = ihlOf pkt := by
  rw [ihlOf, getD_sideRewritten_header hi (by omega), ← ihlOf]

theorem hdrOk_sideRewritten (h : HdrOk pkt) :
    HdrOk (sideRewritten side pkt old new proto oldPort newPort) := by
  obtain ⟨hl, hv, hi, hl'⟩ := h
  refine ⟨?_, ?_, ?_, ?_⟩
  · rwa [length_sideRewritten]
  · rwa [getD_sideRewritten_header hi (by omega)]
  · rwa [ihlOf_sideRewritten hi]
  · rwa [ihlOf_sideRewritten hi, length_sideRewritten]

theorem fragOffsetOf_sideRewritten (hi : 20 ≤ ihlOf pkt) :
    fragOffsetOf (sideRewritten side pkt old new proto oldPort newPort) = fragOffsetOf pkt := by
  rw [fragOffsetOf, fragOffsetOf, word_congr (getD_sideRewritten_header hi (by omega))
    (getD_sideRewritten_header hi (by omega))]

/-- The rewritten side holds the new address. -/
theorem addr_sideRewritten (side : Side) (h : HdrOk pkt) (ho : addr pkt side.addr = old) :
    addr (sideRewritten side pkt old new proto oldPort newPort) side.addr = new := by
  have hs := side.addr_le
  have hi := h.2.2.1
  rw [sideRewritten, addr_portRewritten (by omega), addr_addrRewritten side new _ h.1 hi ho]

/-- The other side keeps its address. -/
theorem addr_sideRewritten_other (side other : Side) (h : HdrOk pkt) (ho : other ≠ side) :
    addr (sideRewritten side pkt old new proto oldPort newPort) other.addr =
      addr pkt other.addr := by
  have hi := h.2.2.1
  have hs := other.addr_le
  have hs' := other.le_addr
  have hd : other.addr + 4 ≤ side.addr ∨ side.addr + 4 ≤ other.addr := by
    cases other <;> cases side <;> simp [Side.addr] at ho ⊢
  rw [sideRewritten, addr_portRewritten (by omega)]
  exact addr_congr fun k hk => getD_addrRewritten (by omega) (by omega) fun _ off _ ho => by
    have := l4CsumOffset_le ho
    omega

/-- The rewritten side holds the new port. -/
theorem port_sideRewritten (side : Side) (h : HdrOk pkt) (ht : isTcpUdp proto = true)
    (hl : ihlOf pkt + 4 ≤ pkt.length) (ho : word pkt (ihlOf pkt + side.port) = oldPort) :
    word (sideRewritten side pkt old new proto oldPort newPort) (ihlOf pkt + side.port) =
      newPort := by
  have hs := side.port_le
  refine word_portRewritten side newPort ht (by simpa using hl) ?_
  rw [word_addrRewritten h.2.2.1 (by omega), ho]

theorem port_sideRewritten_other (side other : Side) (h : HdrOk pkt) (ht : isTcpUdp proto = true)
    (ho : other ≠ side) :
    word (sideRewritten side pkt old new proto oldPort newPort) (ihlOf pkt + other.port) =
      word pkt (ihlOf pkt + other.port) := by
  have hs := other.port_le
  have hd : other.port + 2 ≤ side.port ∨ side.port + 2 ≤ other.port := by
    cases other <;> cases side <;> simp [Side.port] at ho ⊢
  have hic : ∀ {q : Prop}, proto = PROTO_ICMP → q := fun e => absurd e (ne_icmp_of_isTcpUdp ht)
  rw [sideRewritten, word_congr (getD_portRewritten (fun _ => by omega) (fun off h => ?_) hic)
    (getD_portRewritten (fun _ => by omega) (fun off h => ?_) hic),
    word_addrRewritten h.2.2.1 (by omega)]
  all_goals
    have := l4CsumOffset_le h
    omega

/-- An echo message holds the new identifier, and is still one of its kind. -/
theorem id_sideRewritten (h : HdrOk pkt) (hl : ihlOf pkt + 8 ≤ pkt.length)
    (ho : word pkt (ihlOf pkt + 4) = oldPort) :
    word (sideRewritten side pkt old new PROTO_ICMP oldPort newPort) (ihlOf pkt + 4) = newPort := by
  refine id_portRewritten side newPort (by simpa using hl) ?_
  rw [word_addrRewritten h.2.2.1 (by omega), ho]

theorem kind_sideRewritten (h : HdrOk pkt) :
    (sideRewritten side pkt old new PROTO_ICMP oldPort newPort).getD (ihlOf pkt) 0 =
      pkt.getD (ihlOf pkt) 0 := by
  have hi := h.2.2.1
  have hs := side.addr_le
  have hn : ∀ off, l4CsumOffset PROTO_ICMP ≠ some off := nofun
  rw [sideRewritten, getD_portRewritten (fun ht => by cases ht) (fun off ho => absurd ho (hn off))
    (fun _ => by omega), getD_addrRewritten (by omega) (by omega) fun p off hp ho => by
      cases hp; exact absurd ho (hn off)]

/-! ### Outbound -/

/-- The packets whose L4 header gives a port pair. -/
theorem outL4_ports_iff {sport dport : UInt16} :
    outL4 pkt = .ports sport dport ↔ ihlOf pkt + 8 ≤ pkt.length ∧
      ((isTcpUdp (pkt.getD 9 0) = true ∧ word pkt (ihlOf pkt) = sport ∧
          word pkt (ihlOf pkt + 2) = dport) ∨
        (pkt.getD 9 0 = PROTO_ICMP ∧ pkt.getD (ihlOf pkt) 0 = 8 ∧ word pkt (ihlOf pkt + 4) = sport ∧
          0 = dport)) := by
  unfold outL4
  dsimp only
  by_cases hl : pkt.length < ihlOf pkt + 8
  · rw [if_pos hl, if_pos hl]
    refine iff_of_false ?_ fun h => by omega
    split_ifs <;> nofun
  rw [if_neg hl, if_neg hl]
  by_cases ht : isTcpUdp (pkt.getD 9 0) = true
  · have hp : pkt.getD 9 0 ≠ PROTO_ICMP := ne_icmp_of_isTcpUdp ht
    rw [if_pos ht, OutL4.ports.injEq]
    exact ⟨fun h => ⟨by omega, .inl ⟨ht, h⟩⟩, fun h => (h.2.resolve_right fun h => hp h.1).2⟩
  rw [if_neg ht]
  by_cases hp : pkt.getD 9 0 = PROTO_ICMP
  · rw [if_pos hp]
    by_cases hk : pkt.getD (ihlOf pkt) 0 = 8
    · rw [if_pos hk, OutL4.ports.injEq]
      exact ⟨fun h => ⟨by omega, .inr ⟨hp, hk, h⟩⟩, fun h => (h.2.resolve_left fun h => ht h.1).2.2⟩
    · rw [if_neg hk]
      exact iff_of_false nofun fun h => hk (h.2.resolve_left fun h => ht h.1).2.1
  · rw [if_neg hp]
    exact iff_of_false nofun fun h => h.2.elim (fun h => ht h.1) fun h => hp h.1

theorem outTuple_eq_some {key : FwdKey} :
    outTuple pkt = some key ↔ HdrOk pkt ∧ fragOffsetOf pkt = 0 ∧ key.proto = pkt.getD 9 0 ∧
      key.src = addr pkt 12 ∧ key.dst = addr pkt 16 ∧ outL4 pkt = .ports key.sport key.dport := by
  unfold outTuple
  by_cases hok : HdrOk pkt ∧ fragOffsetOf pkt = 0
  swap
  · rw [if_neg hok]
    exact iff_of_false nofun fun h => hok ⟨h.1, h.2.1⟩
  rw [if_pos hok]
  obtain ⟨proto, src, sport, dst, dport⟩ := key
  cases outL4 pkt with
  | drop => exact iff_of_false nofun fun h => by cases h.2.2.2.2.2
  | stateless => exact iff_of_false nofun fun h => by cases h.2.2.2.2.2
  | ports s d =>
      rw [Option.some.injEq, FwdKey.mk.injEq, OutL4.ports.injEq]
      refine ⟨fun ⟨h₁, h₂, h₃, h₄, h₅⟩ => ⟨hok.1, hok.2, h₁.symm, h₂.symm, h₄.symm, h₃, h₅⟩, ?_⟩
      exact fun ⟨_, _, h₁, h₂, h₃, h₄, h₅⟩ => ⟨h₁.symm, h₂.symm, h₄, h₃.symm, h₅⟩

/-- An outbound packet of tuple `key` leaves with `key`, its source replaced. -/
theorem outTuple_outRewritten {key : FwdKey} (wg : Ipv4Addr) (p : UInt16)
    (h : outTuple pkt = some key) :
    outTuple (outRewritten wg pkt key p) = some { key with src := wg, sport := p } := by
  obtain ⟨hok, hf, hp, hs, hd, hl⟩ := outTuple_eq_some.mp h
  obtain ⟨hlen, hl⟩ := outL4_ports_iff.mp hl
  have hi := hok.2.2.1
  change outTuple (sideRewritten .src pkt key.src wg key.proto key.sport p) = _
  refine outTuple_eq_some.mpr
    ⟨hdrOk_sideRewritten hok, ?_, ?_, ?_, ?_, outL4_ports_iff.mpr ⟨?_, ?_⟩⟩
  · rwa [fragOffsetOf_sideRewritten hi]
  · rwa [getD_sideRewritten_header hi (by omega)]
  · exact (addr_sideRewritten .src hok hs.symm).symm
  · exact hd.trans (addr_sideRewritten_other .src .dst hok (by decide)).symm
  · rwa [ihlOf_sideRewritten hi, length_sideRewritten]
  · rw [ihlOf_sideRewritten hi, getD_sideRewritten_header hi (by omega)]
    rcases hl with ⟨ht, hsp, hdp⟩ | ⟨hic, hk, hsp, hdp⟩
    · have ht' : isTcpUdp key.proto = true := by rwa [hp]
      have hdp' : word (sideRewritten .src pkt key.src wg key.proto key.sport p)
          (ihlOf pkt + 2) = word pkt (ihlOf pkt + 2) :=
        port_sideRewritten_other .src .dst hok ht' (by decide)
      exact .inl ⟨ht, port_sideRewritten .src hok ht' (by omega) hsp, hdp'.trans hdp⟩
    · rw [hic] at hp
      rw [hp, kind_sideRewritten hok]
      exact .inr ⟨hic, hk, id_sideRewritten hok hlen hsp, hdp⟩

/-! ### Inbound -/

/-- The packets whose L4 header gives a destination. -/
theorem inL4_port_iff {p : UInt16} :
    inL4 pkt = .port p ↔ ihlOf pkt + 8 ≤ pkt.length ∧
      ((isTcpUdp (pkt.getD 9 0) = true ∧ word pkt (ihlOf pkt + 2) = p) ∨
        (pkt.getD 9 0 = PROTO_ICMP ∧ pkt.getD (ihlOf pkt) 0 = 0 ∧
          word pkt (ihlOf pkt + 4) = p)) := by
  unfold inL4
  dsimp only
  by_cases hl : pkt.length < ihlOf pkt + 8
  · rw [if_pos hl, if_pos hl]
    refine iff_of_false ?_ fun h => by omega
    split_ifs <;> nofun
  rw [if_neg hl, if_neg hl]
  by_cases ht : isTcpUdp (pkt.getD 9 0) = true
  · have hp : pkt.getD 9 0 ≠ PROTO_ICMP := ne_icmp_of_isTcpUdp ht
    rw [if_pos ht, InL4.port.injEq]
    exact ⟨fun h => ⟨by omega, .inl ⟨ht, h⟩⟩, fun h => (h.2.resolve_right fun h => hp h.1).2⟩
  rw [if_neg ht]
  by_cases hp : pkt.getD 9 0 = PROTO_ICMP
  · rw [if_pos hp]
    by_cases hk : pkt.getD (ihlOf pkt) 0 = 0
    · rw [if_pos hk, InL4.port.injEq]
      exact ⟨fun h => ⟨by omega, .inr ⟨hp, hk, h⟩⟩, fun h => (h.2.resolve_left fun h => ht h.1).2.2⟩
    · rw [if_neg hk]
      refine iff_of_false ?_ fun h => hk (h.2.resolve_left fun h => ht h.1).2.1
      split_ifs <;> nofun
  · rw [if_neg hp]
    exact iff_of_false nofun fun h => h.2.elim (fun h => ht h.1) fun h => hp h.1

theorem inTarget_eq_some {k : RevKey} :
    inTarget pkt = some k ↔ HdrOk pkt ∧ fragOffsetOf pkt = 0 ∧ k.proto = pkt.getD 9 0 ∧
      inL4 pkt = .port k.port := by
  unfold inTarget
  by_cases hok : HdrOk pkt ∧ fragOffsetOf pkt = 0
  swap
  · rw [if_neg hok]
    exact iff_of_false nofun fun h => hok ⟨h.1, h.2.1⟩
  rw [if_pos hok]
  obtain ⟨proto, port⟩ := k
  cases inL4 pkt with
  | drop => exact iff_of_false nofun fun h => by cases h.2.2.2
  | icmpError => exact iff_of_false nofun fun h => by cases h.2.2.2
  | port p =>
      rw [Option.some.injEq, RevKey.mk.injEq, InL4.port.injEq]
      exact ⟨fun ⟨h₁, h₂⟩ => ⟨hok.1, hok.2, h₁.symm, h₂⟩, fun ⟨_, _, h₁, h₂⟩ => ⟨h₁.symm, h₂⟩⟩

/-- An inbound packet for port `k` arrives at the port of its binding. -/
theorem inTarget_inRewritten {k : RevKey} (wg : Ipv4Addr) (b : Binding)
    (h : inTarget pkt = some k) :
    inTarget (inRewritten wg pkt k b) = some ⟨k.proto, b.sport⟩ := by
  obtain ⟨hok, hf, hp, hl⟩ := inTarget_eq_some.mp h
  obtain ⟨hlen, hl⟩ := inL4_port_iff.mp hl
  have hi := hok.2.2.1
  change inTarget (sideRewritten .dst pkt wg b.src k.proto k.port b.sport) = _
  refine inTarget_eq_some.mpr ⟨hdrOk_sideRewritten hok, ?_, ?_, inL4_port_iff.mpr ⟨?_, ?_⟩⟩
  · rwa [fragOffsetOf_sideRewritten hi]
  · rwa [getD_sideRewritten_header hi (by omega)]
  · rwa [ihlOf_sideRewritten hi, length_sideRewritten]
  · rw [ihlOf_sideRewritten hi, getD_sideRewritten_header hi (by omega)]
    rcases hl with ⟨ht, hdp⟩ | ⟨hic, hk, hid⟩
    · exact .inl ⟨ht, port_sideRewritten .dst hok (by rwa [hp]) (by omega) hdp⟩
    · rw [hic] at hp
      rw [hp, kind_sideRewritten hok]
      exact .inr ⟨hic, hk, id_sideRewritten hok hlen hid⟩

theorem addr_inRewritten {k : RevKey} {wg : Ipv4Addr} {b : Binding} (h : HdrOk pkt)
    (ha : addr pkt 16 = wg) : addr (inRewritten wg pkt k b) 16 = b.src :=
  addr_sideRewritten .dst h ha

end Tunnel.Wg
