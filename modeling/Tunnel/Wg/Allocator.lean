import Tunnel.Support.Rotation
import Tunnel.Wg.Checksum
import Tunnel.Wg.Forward

/-!
# Wg — The port allocator

The cursor walks round the dynamic ports, and `alloc_port` takes the first one from it on that its
protocol can use.

* `ports`: the walk, as a rotation of `span` places.
* `allocPort_firstFree`: below the ceiling the scan finds a port, whatever is bound and wherever the
  cursor stands.
* `allocation_complete`: a packet is refused exactly at the ceiling.
* `ceiling_shared_iff`: the ceiling counts the bindings of all protocols together; when a refusal is
  due to the bindings of the packet's own.  `ceiling_shared` is a run where it is not.
-/

namespace Tunnel.Wg
open Support

namespace Nat44

/-! ### The walk of the cursor -/

/-- Where the cursor is after `n` moves from the lowest port. -/
def portAt (n : ℕ) : UInt16 := UInt16.ofNat (1024 + n % span)

theorem portAt_toNat (n : ℕ) : (portAt n).toNat = 1024 + n % span := by
  have h : n % span < 64512 := Nat.mod_lt _ (by decide)
  rw [portAt, UInt16.toNat_ofNat']
  omega

/-- The dynamic ports, in the cursor's order. -/
def ports : Rotation UInt16 span where
  place := portAt
  place_eq_iff m n := by
    rw [← UInt16.toNat_inj, portAt_toNat, portAt_toNat]
    exact Nat.add_left_cancel_iff

theorem portAt_ge (n : ℕ) : PORT_LO ≤ portAt n := by
  rw [UInt16.le_iff_toNat_le, portAt_toNat]
  exact Nat.le_add_right _ _

theorem portAt_of_ge {p : UInt16} (h : PORT_LO ≤ p) : portAt (p.toNat - 1024) = p := by
  have h₁ : 1024 ≤ p.toNat := UInt16.le_iff_toNat_le.mp h
  have h₂ := p.toNat_lt
  have hlt : p.toNat - 1024 < span := by
    have : span = 64512 := rfl
    omega
  rw [← UInt16.toNat_inj, portAt_toNat, Nat.mod_eq_of_lt hlt]
  omega

theorem cursorAfter_portAt (n : ℕ) : cursorAfter (portAt n) = portAt (n + 1) := by
  have hs : ∀ k, k % span = k % 64512 := fun _ => rfl
  have hp := portAt_toNat n
  have hp' := portAt_toNat (n + 1)
  rw [hs] at hp hp'
  rw [← UInt16.toNat_inj, hp', cursorAfter]
  by_cases h : n % 64512 = 64511
  · -- The last port: the cursor wraps.
    have hhi : portAt n ≥ PORT_HI := by
      rw [ge_iff_le, UInt16.le_iff_toNat_le, hp, h]
      decide
    rw [if_pos hhi]
    change 1024 = _
    omega
  · have hlo : ¬ portAt n ≥ PORT_HI := by
      rw [ge_iff_le, UInt16.le_iff_toNat_le, hp]
      have : PORT_HI.toNat = 65535 := rfl
      omega
    rw [if_neg hlo, UInt16.toNat_add, hp]
    simp only [UInt16.reduceToNat]
    omega

theorem closeIf_nextPort (nat : Nat44) (rst : Bool) (k : RevKey) :
    (nat.closeIf rst k).nextPort = nat.nextPort := by
  unfold closeIf
  split
  · exact close_nextPort _ _ _
  · rfl

/-! ### What the scan finds -/

/-- A port `alloc_port` can hand out to `proto`. -/
def free (nat : Nat44) (proto : UInt8) (port : UInt16) : Bool :=
  !nat.reserved proto port && (nat.rev.lookup ⟨proto, port⟩).isNone

theorem free_iff {nat : Nat44} {proto : UInt8} {port : UInt16} :
    nat.free proto port = true ↔
      nat.reserved proto port = false ∧ nat.rev.lookup ⟨proto, port⟩ = none := by
  simp [free]

theorem scanPorts_eq (nat : Nat44) (proto : UInt8) (n : ℕ) (cursor : UInt16) :
    nat.scanPorts proto n cursor = scan cursorAfter (nat.free proto) n cursor := by
  induction n generalizing cursor with
  | zero => rfl
  | succ n ih => rw [scanPorts, scan, ih]; rfl

/-- The ports bound by any protocol, and the forwarded one. -/
def taken (nat : Nat44) : Finset UInt16 :=
  nat.rev.keys.image RevKey.port ∪ nat.forwardPort.toFinset

theorem card_taken_le (nat : Nat44) : nat.taken.card ≤ nat.rev.size + 1 := by
  have h₁ : (nat.rev.keys.image RevKey.port).card ≤ nat.rev.size := by
    rw [Finmap.size_eq_card_keys]
    exact Finset.card_image_le
  have h₂ : nat.forwardPort.toFinset.card ≤ 1 := by
    cases nat.forwardPort <;> simp
  exact (Finset.card_union_le _ _).trans (Nat.add_le_add h₁ h₂)

theorem free_of_notMem_taken {nat : Nat44} {p : UInt16} (h : p ∉ nat.taken) (proto : UInt8) :
    nat.free proto p = true := by
  rw [taken, Finset.mem_union, not_or] at h
  refine free_iff.mpr ⟨?_, ?_⟩
  · unfold reserved
    cases hf : nat.forward with
    | none => simp
    | some f =>
        have hne : f.port ≠ p := fun e => h.2 (by simp [forwardPort, hf, e])
        simp [hne]
  · by_contra hne
    obtain ⟨b, hb⟩ := Option.ne_none_iff_exists'.mp hne
    exact h.1 (Finset.mem_image.mpr
      ⟨⟨proto, p⟩, Finmap.mem_keys.mpr (Finmap.mem_of_lookup_eq_some hb), rfl⟩)

/-- How far `alloc_port` moves the cursor. -/
def allocMoves (nat : Nat44) (proto : UInt8) : ℕ :=
  if nat.rev.size ≥ MAX_BINDINGS then 0
  else scanMoves cursorAfter (nat.free proto) span nat.nextPort

/-- Below the ceiling, the scan from any place of the cursor ends on the first port the protocol can
use, less than a round away, with the cursor just past it. -/
theorem allocPort_firstFree (nat : Nat44) (proto : UInt8) (hs : nat.rev.size < MAX_BINDINGS)
    {m : ℕ} (hm : nat.nextPort = portAt m) :
    ∃ i, i < m + span ∧ FirstFree portAt (nat.free proto · = true) m i ∧
      nat.allocPort proto = (some (portAt i), { nat with nextPort := portAt (i + 1) }) ∧
      nat.allocMoves proto = i + 1 - m := by
  have hcard : nat.taken.card < span :=
    Nat.lt_of_le_of_lt nat.card_taken_le (Nat.lt_of_lt_of_le (Nat.succ_lt_succ hs) (by decide))
  have hfree : ∀ p, p ∉ nat.taken → nat.free proto p = true := fun p hp =>
    free_of_notMem_taken hp proto
  obtain ⟨i, hi, hff⟩ := ports.exists_firstFree nat.taken hfree hcard m
  obtain ⟨hscan, hmoves⟩ := scan_firstFree cursorAfter_portAt hff hi
  refine ⟨i, hi, hff, ?_, ?_⟩
  · rw [allocPort, if_neg (Nat.not_le.mpr hs), hm, scanPorts_eq, hscan]
  · rw [allocMoves, if_neg (Nat.not_le.mpr hs), hm, hmoves]

theorem allocPort_full (nat : Nat44) (proto : UInt8) (hs : MAX_BINDINGS ≤ nat.rev.size) :
    nat.allocPort proto = (none, nat) := if_pos hs

/-- A packet with a tuple to bind is refused exactly at the ceiling. -/
theorem bind_eq_none_iff {nat : Nat44} (hc : PORT_LO ≤ nat.nextPort) (key : FwdKey)
    (now : Instant) : (nat.bind key now).1 = none ↔
      nat.fwd.lookup key = none ∧ MAX_BINDINGS ≤ nat.rev.size := by
  unfold bind
  cases hk : nat.fwd.lookup key with
  | some p => exact iff_of_false nofun nofun
  | none =>
      rcases Nat.lt_or_ge nat.rev.size MAX_BINDINGS with hs | hs
      · obtain ⟨i, -, -, ha, -⟩ := nat.allocPort_firstFree key.proto hs (portAt_of_ge hc).symm
        dsimp only
        rw [ha]
        exact iff_of_false nofun fun h => Nat.not_le.mpr hs h.2
      · dsimp only
        rw [allocPort_full nat key.proto hs]
        exact iff_of_true rfl ⟨rfl, hs⟩

/-- The packets that are refused. -/
theorem exhausted_iff {nat : Nat44} (hc : PORT_LO ≤ nat.nextPort) (pkt : Bytes) (now : Instant) :
    (∃ nat' pkt', nat.translateOut pkt now = .ok (.exhausted, nat', pkt')) ↔
      ∃ key, nat.outClass pkt = .keyed key ∧ nat.fwd.lookup key = none ∧
        MAX_BINDINGS ≤ nat.rev.size := by
  constructor
  · rintro ⟨nat', pkt', e⟩
    rcases translateOut_cases e with ⟨hn, -⟩ | ⟨key, hk, hb, -⟩ | ⟨key, p, nat₁, -, -, hv, -⟩
    · rw [translateOut_eq] at e
      cases hk : nat.outClass pkt with
      | keyed key => exact absurd hk (hn key)
      | _ => rw [hk] at e; cases e
    · exact ⟨key, hk, (bind_eq_none_iff hc key now).mp (by rw [hb])⟩
    · cases hv
  · rintro ⟨key, hk, h⟩
    have hb := (bind_eq_none_iff hc key now).mpr h
    rcases hn : nat.bind key now with ⟨_ | p, nat'⟩
    · exact ⟨nat', pkt, by rw [translateOut_eq, hk]; dsimp only; rw [hn]⟩
    · rw [hn] at hb
      cases hb

end Nat44

/-- Allocation is complete: a packet is refused exactly when its tuple has no binding and the table
is full.  Any other goes through its binding, the cursor where it was, or through a new one: the scan
ends on a dynamic port that is unbound for the protocol and, for TCP and UDP, not the forwarded one,
and leaves the cursor just past it. -/
theorem allocation_complete {wg : Ipv4Addr} {nat : Nat44} (h : NatReachable wg nat) {pkt : Bytes}
    {key : FwdKey} (hk : nat.outClass pkt = .keyed key) (now : Instant) :
    ∃ v nat' pkt', nat.translateOut pkt now = .ok (v, nat', pkt') ∧
      (v = .exhausted ↔ nat.fwd.lookup key = none ∧ MAX_BINDINGS ≤ nat.rev.size) ∧
      (v ≠ .exhausted → ∃ p, v = .translate ∧ pkt' = outRewritten nat.wgAddr pkt key p ∧
        ((nat.fwd.lookup key = some p ∧ nat'.nextPort = nat.nextPort) ∨
          (nat.fwd.lookup key = none ∧ (nat.allocPort key.proto).1 = some p ∧
            1024 ≤ p.toNat ∧ p.toNat ≤ 65535 ∧ nat.rev.lookup ⟨key.proto, p⟩ = none ∧
            (isTcpUdp key.proto = true → nat.forwardPort ≠ some p) ∧
            nat'.nextPort = Nat44.cursorAfter p))) := by
  have hc := h.inv.cursor_ge
  have hbound : ∀ p : UInt16, p.toNat ≤ 65535 := fun p => Nat.le_of_lt_succ p.toNat_lt
  rw [Nat44.translateOut_eq, hk]
  cases hf : nat.fwd.lookup key with
  | some p =>
      have hb : nat.bind key now = (some p, nat) := by rw [Nat44.bind, hf]
      refine ⟨.translate, _, _, by dsimp only; rw [hb], iff_of_false nofun nofun, fun _ => ?_⟩
      exact ⟨p, rfl, rfl, .inl ⟨rfl, by simp [Nat44.closeIf_nextPort]⟩⟩
  | none =>
      rcases Nat.lt_or_ge nat.rev.size MAX_BINDINGS with hs | hs
      · obtain ⟨i, -, hff, ha, -⟩ :=
          nat.allocPort_firstFree key.proto hs (Nat44.portAt_of_ge hc).symm
        obtain ⟨hr, hl⟩ := Nat44.free_iff.mp hff.found
        have hb : nat.bind key now = (some (Nat44.portAt i), { nat with
            nextPort := Nat44.portAt (i + 1)
            fwd := nat.fwd.insert key (Nat44.portAt i)
            rev := nat.rev.insert ⟨key.proto, Nat44.portAt i⟩
              ⟨key.src, key.sport, key.dst, key.dport, now⟩ }) := by
          rw [Nat44.bind, hf]
          dsimp only
          rw [ha]
        refine ⟨.translate, _, _, by dsimp only; rw [hb], iff_of_false nofun fun h => ?_, fun _ => ?_⟩
        · exact Nat.not_le.mpr hs h.2
        refine ⟨Nat44.portAt i, rfl, rfl, .inr ⟨rfl, by rw [ha], ?_, hbound _, hl, ?_, ?_⟩⟩
        · exact UInt16.le_iff_toNat_le.mp (Nat44.portAt_ge i)
        · intro ht hfp
          obtain ⟨f, hfw, hp⟩ := Option.map_eq_some_iff.mp hfp
          simp [Nat44.reserved, ht, hfw, hp] at hr
        · simp [Nat44.closeIf_nextPort, Nat44.cursorAfter_portAt]
      · have hb : nat.bind key now = (none, nat) := by
          rw [Nat44.bind, hf]
          dsimp only
          rw [nat.allocPort_full key.proto hs]
        exact ⟨.exhausted, _, _, by dsimp only; rw [hb], iff_of_true rfl ⟨rfl, hs⟩,
          fun hv => absurd rfl hv⟩

/-! ### The cursor at the last port -/

namespace Nat44

/-- A reset of a new tuple opens a binding and closes it. -/
theorem rev_of_reset {nat nat' : Nat44} (h : nat.Inv) {pkt : Bytes} {key : FwdKey}
    {now : Instant} (hk : nat.outClass pkt = .keyed key) (hf : nat.fwd.lookup key = none)
    (hs : nat.rev.size < MAX_BINDINGS) (hr : isRst pkt = true)
    (e : NatStep nat (.translateOut pkt now) nat') : nat'.rev = nat.rev := by
  obtain ⟨out, e⟩ := e
  obtain ⟨v, pkt', e₁⟩ := NatStep.translateOut ⟨out, e⟩
  rw [translateOut_eq, hk] at e₁
  dsimp only at e₁
  rcases nat.bind_cases key now h.cursor_ge with ⟨p, hp, -⟩ | ⟨cursor, -, -, eb⟩ |
      ⟨p, cursor, -, -, -, -, -, hl, eb⟩
  · rw [hf] at hp; cases hp
  · have hfull := (bind_eq_none_iff h.cursor_ge key now).mp (by rw [eb])
    exact absurd hs (Nat.not_lt.mpr hfull.2)
  rw [eb] at e₁
  cases e₁
  refine Finmap.ext_lookup fun k => ?_
  rw [hr, closeIf, if_pos rfl, lookup_close _ ⟨key.proto, p⟩ k]
  split
  · next ek => rw [ek]; exact hl.symm
  · next ek =>
      rw [lookup_refresh, if_neg ek]
      exact Finmap.lookup_insert_of_ne _ ek

/-- A binding that opens on a free port at the cursor moves it once. -/
theorem nextPort_of_free {nat nat' : Nat44} {pkt : Bytes} {key : FwdKey} {now : Instant}
    (hk : nat.outClass pkt = .keyed key) (hf : nat.fwd.lookup key = none)
    (hs : nat.rev.size < MAX_BINDINGS) {m : ℕ} (hm : nat.nextPort = portAt m)
    (hfree : nat.free key.proto (portAt m) = true) (e : NatStep nat (.translateOut pkt now) nat') :
    nat'.nextPort = portAt (m + 1) := by
  obtain ⟨out, e⟩ := e
  obtain ⟨v, pkt', e₁⟩ := NatStep.translateOut ⟨out, e⟩
  obtain ⟨i, -, hff, ha, -⟩ := nat.allocPort_firstFree key.proto hs hm
  have hi : i = m := hff.unique (.here hfree)
  subst hi
  rw [translateOut_eq, hk] at e₁
  dsimp only at e₁
  rw [bind, hf] at e₁
  dsimp only at e₁
  rw [ha] at e₁
  cases e₁
  rw [closeIf_nextPort, refresh_nextPort]

end Nat44

/-- A reset from 10.0.0.5:6000 to 1.1.1.1:80, its checksum not computed. -/
def resetPacket : Bytes :=
  [0x45, 0, 0, 40, 0, 0, 0, 0, 64, 6, 0, 0, 10, 0, 0, 5, 1, 1, 1, 1, 0x17, 0x70, 0, 80, 0, 0, 0, 0,
    0, 0, 0, 0, 0x50, 4, 0, 0, 0, 0, 0, 0]

/-- The binding of a first UDP conversation. -/
def firstBinding : Binding := ⟨⟨10, 0, 0, 5⟩, 5000, ⟨1, 1, 1, 1⟩, 53, 0⟩

namespace Nat44

/-- The first conversation has its binding on the lowest port, no other binding is open, and the
cursor has come `n` ports further. -/
structure Circled (n : ℕ) (nat : Nat44) : Prop where
  reach : NatReachable ⟨10, 2, 0, 2⟩ nat
  wgAddr : nat.wgAddr = ⟨10, 2, 0, 2⟩
  forward : nat.forward = none
  cursor : nat.nextPort = portAt (n + 1)
  rev : nat.rev = (∅ : Table RevKey Binding).insert ⟨PROTO_UDP, 1024⟩ firstBinding

namespace Circled

variable {n : ℕ} {nat : Nat44}

theorem lookup_rev (hc : Circled n nat) (k : RevKey) :
    nat.rev.lookup k = if k = ⟨PROTO_UDP, 1024⟩ then some firstBinding else none := by
  rw [hc.rev, Finmap.lookup_insert_eq]
  rfl

theorem size_lt (hc : Circled n nat) : nat.rev.size < MAX_BINDINGS := by
  rw [hc.rev]
  decide

/-- Another tuple has no binding. -/
theorem lookup_fwd (hc : Circled n nat) {key : FwdKey} (hk : key ≠ firstBinding.key PROTO_UDP) :
    nat.fwd.lookup key = none := by
  by_contra hne
  obtain ⟨p, hp⟩ := Option.ne_none_iff_exists'.mp hne
  obtain ⟨b, hb, hkey⟩ := hc.reach.inv.fwd_rev key p hp
  rw [hc.lookup_rev] at hb
  split at hb
  · next e =>
      cases hb
      have hproto : key.proto = PROTO_UDP := congrArg RevKey.proto e
      rw [hproto] at hkey
      exact hk hkey.symm
  · cases hb

/-- A reset that opens a binding closes it at once, and moves the cursor on. -/
theorem succ (hc : Circled n nat) : ∃ nat', Circled (n + 1) nat' := by
  have hkey : outTuple resetPacket = some ⟨PROTO_TCP, ⟨10, 0, 0, 5⟩, 6000, ⟨1, 1, 1, 1⟩, 80⟩ := by
    decide
  have hk : nat.outClass resetPacket =
      .keyed ⟨PROTO_TCP, ⟨10, 0, 0, 5⟩, 6000, ⟨1, 1, 1, 1⟩, 80⟩ := by
    refine outClass_keyed_iff.mpr ⟨hkey, by decide, ?_, ?_⟩
    · rw [hc.wgAddr]; decide
    · rw [forwards, hc.forward]; rfl
  have hf : nat.fwd.lookup ⟨PROTO_TCP, ⟨10, 0, 0, 5⟩, 6000, ⟨1, 1, 1, 1⟩, 80⟩ = none :=
    hc.lookup_fwd (by decide)
  have hudp : ∀ p, (⟨PROTO_TCP, p⟩ : RevKey) ≠ ⟨PROTO_UDP, 1024⟩ :=
    fun p e => absurd (congrArg RevKey.proto e) (by decide : PROTO_TCP ≠ PROTO_UDP)
  have hfree : nat.free PROTO_TCP (portAt (n + 1)) = true := by
    refine free_iff.mpr ⟨?_, by rw [hc.lookup_rev, if_neg (hudp _)]⟩
    rw [reserved, hc.forward]
    exact Bool.and_false _
  obtain ⟨out, nat', e⟩ := nat.call_total (.translateOut resetPacket 0)
  have hg := call_grows hc.reach.inv rfl ⟨out, e⟩
  refine ⟨nat', hc.reach.run (.one ⟨out, e⟩), hg.wgAddr.trans hc.wgAddr,
    hg.forward.trans hc.forward, ?_, ?_⟩
  · exact nextPort_of_free hk hf hc.size_lt hc.cursor hfree ⟨out, e⟩
  · exact (rev_of_reset hc.reach.inv hk hf hc.size_lt (by decide) ⟨out, e⟩).trans hc.rev

end Circled

theorem circled (n : ℕ) : ∃ nat, Circled n nat := by
  induction n with
  | zero =>
      have hr := run_after (.new ⟨10, 2, 0, 2⟩)
        [.translateOut (udpPacket ⟨10, 0, 0, 5⟩ 5000 ⟨1, 1, 1, 1⟩ 53) 0]
      exact ⟨_, ⟨_, _, rfl, hr⟩, by decide, by decide, by decide, by decide⟩
  | succ n ih =>
      obtain ⟨nat, hc⟩ := ih
      exact hc.succ

end Nat44

theorem Nat44.reserved_setForward (nat : Nat44) (host : Ipv4Addr) (port : UInt16) (proto : UInt8)
    (p : UInt16) : (nat.setForward host port).reserved proto p = (isTcpUdp proto && port == p) := rfl

/-- With the last port forwarded and the cursor on it, the first port is bound and the second free. -/
theorem Nat44.Circled.firstFree {nat : Nat44} (hc : Circled 64510 nat) :
    FirstFree portAt ((nat.setForward ⟨10, 0, 0, 9⟩ 65535).free PROTO_UDP · = true) 64511 64513 := by
  refine ⟨by decide, free_iff.mpr ⟨by rw [reserved_setForward]; decide, ?_⟩, fun j hj hlt hfree => ?_⟩
  · exact (hc.lookup_rev _).trans (by decide)
  · obtain ⟨hreserved, hnone⟩ := free_iff.mp hfree
    obtain rfl | rfl : j = 64511 ∨ j = 64512 := by omega
    · rw [reserved_setForward] at hreserved
      revert hreserved
      decide
    · have hnone := (hc.lookup_rev _).symm.trans hnone
      revert hnone
      decide

/-- The cursor stands at the last port, which is forwarded: it comes round to the first, which is bound,
and the second is taken. -/
theorem allocation_complete_wrap : ∃ nat nat' pkt', NatReachable ⟨10, 2, 0, 2⟩ nat ∧
    nat.nextPort = 65535 ∧ nat.forwardPort = some 65535 ∧
    nat.rev.lookup ⟨PROTO_UDP, 1024⟩ = some firstBinding ∧
    nat.translateOut (udpPacket ⟨10, 0, 0, 5⟩ 5001 ⟨1, 1, 1, 1⟩ 53) 1 =
      .ok (.translate, nat', pkt') ∧
    pkt' = outRewritten nat.wgAddr (udpPacket ⟨10, 0, 0, 5⟩ 5001 ⟨1, 1, 1, 1⟩ 53)
      ⟨PROTO_UDP, ⟨10, 0, 0, 5⟩, 5001, ⟨1, 1, 1, 1⟩, 53⟩ 1025 ∧
    nat'.nextPort = 1026 := by
  obtain ⟨nat₀, hc⟩ := Nat44.circled 64510
  have hreach : NatReachable ⟨10, 2, 0, 2⟩ (nat₀.setForward ⟨10, 0, 0, 9⟩ 65535) :=
    hc.reach.run (.one (e := .setForward ⟨10, 0, 0, 9⟩ 65535) ⟨none, rfl⟩)
  have hk : (nat₀.setForward ⟨10, 0, 0, 9⟩ 65535).outClass
      (udpPacket ⟨10, 0, 0, 5⟩ 5001 ⟨1, 1, 1, 1⟩ 53) =
        .keyed ⟨PROTO_UDP, ⟨10, 0, 0, 5⟩, 5001, ⟨1, 1, 1, 1⟩, 53⟩ := by
    refine Nat44.outClass_keyed_iff.mpr ⟨by decide, by decide, ?_, rfl⟩
    change _ ≠ nat₀.wgAddr
    rw [hc.wgAddr]
    decide
  have hf : (nat₀.setForward ⟨10, 0, 0, 9⟩ 65535).fwd.lookup
      ⟨PROTO_UDP, ⟨10, 0, 0, 5⟩, 5001, ⟨1, 1, 1, 1⟩, 53⟩ = none := hc.lookup_fwd (by decide)
  obtain ⟨i, -, hff, ha, -⟩ := (nat₀.setForward ⟨10, 0, 0, 9⟩ 65535).allocPort_firstFree PROTO_UDP
    hc.size_lt hc.cursor
  cases hff.unique hc.firstFree
  obtain ⟨v, nat', pkt', e, hx, hport⟩ := allocation_complete hreach hk 1
  obtain ⟨p, rfl, rfl, ⟨hp, -⟩ | ⟨-, hp, -, -, -, -, hnext⟩⟩ := hport fun h =>
    Nat.not_le.mpr hc.size_lt (hx.mp h).2
  · rw [hf] at hp; cases hp
  rw [ha] at hp
  cases hp
  refine ⟨_, nat', _, hreach, hc.cursor.trans (by decide), rfl, ?_, e, ?_, ?_⟩
  · exact (hc.lookup_rev _).trans (if_pos rfl)
  · rw [show Nat44.portAt 64513 = 1025 by decide]
  · rw [hnext]; decide

/-- An echo request from 10.0.0.5 to 1.1.1.1, identifier 9. -/
def echoRequest : Bytes :=
  [0x45, 0, 0, 28, 0, 0, 0, 0, 64, 1, 0, 0, 10, 0, 0, 5, 1, 1, 1, 1, 8, 0, 0xf7, 0xf6, 0, 9, 0, 0]

/-- An echo identifier may be the forwarded number: it is a space of its own. -/
theorem echo_takes_forwarded_number :
    NatReachable ⟨10, 2, 0, 2⟩ ((Nat44.new ⟨10, 2, 0, 2⟩).setForward ⟨10, 0, 0, 9⟩ 1024) ∧
      ((Nat44.new ⟨10, 2, 0, 2⟩).setForward ⟨10, 0, 0, 9⟩ 1024).forwardPort = some 1024 ∧
      (((Nat44.new ⟨10, 2, 0, 2⟩).setForward ⟨10, 0, 0, 9⟩ 1024).allocPort PROTO_ICMP).1 =
        some 1024 ∧
      ∃ nat' pkt', ((Nat44.new ⟨10, 2, 0, 2⟩).setForward ⟨10, 0, 0, 9⟩ 1024).translateOut
        echoRequest 0 = .ok (.translate, nat', pkt') ∧
        nat'.fwd.lookup ⟨PROTO_ICMP, ⟨10, 0, 0, 5⟩, 9, ⟨1, 1, 1, 1⟩, 0⟩ = some 1024 :=
  ⟨⟨_, [.setForward ⟨10, 0, 0, 9⟩ 1024], rfl, Run.one ⟨none, rfl⟩⟩, rfl, by decide, _, _, rfl,
    by decide⟩

/-! ### The ceiling -/

namespace Nat44

/-- How many bindings a protocol holds. -/
def held (nat : Nat44) (proto : UInt8) : ℕ := (nat.rev.retain fun k _ => k.proto == proto).size

/-- The NAT without the bindings of the other protocols. -/
def only (nat : Nat44) (proto : UInt8) : Nat44 :=
  { nat with
    fwd := nat.fwd.retain fun key _ => key.proto == proto
    rev := nat.rev.retain fun k _ => k.proto == proto }

/-- A packet that is refused is refused for the bindings of its own protocol: these alone reach the
ceiling, and alone they have it refused. -/
def RefusedByOwn (nat : Nat44) (pkt : Bytes) (now : Instant) : Prop :=
  (∃ nat' pkt', nat.translateOut pkt now = .ok (.exhausted, nat', pkt')) →
    MAX_BINDINGS ≤ nat.held (pkt.getD 9 0) ∧
      ∃ nat' pkt', (nat.only (pkt.getD 9 0)).translateOut pkt now = .ok (.exhausted, nat', pkt')

/-- The tuple has its binding, or there is room for one, or no other protocol takes any. -/
def RoomOrOwn (nat : Nat44) (key : FwdKey) : Prop :=
  nat.fwd.lookup key ≠ none ∨ nat.rev.size < MAX_BINDINGS ∨
    ∀ k b, nat.rev.lookup k = some b → k.proto = key.proto

theorem held_le_size (nat : Nat44) (proto : UInt8) : nat.held proto ≤ nat.rev.size :=
  Finmap.size_retain_le _ _

/-- Under the ceiling, one protocol reaches it only by holding every binding. -/
theorem Inv.held_full_iff {nat : Nat44} (h : nat.Inv) (proto : UInt8) :
    MAX_BINDINGS ≤ nat.held proto ↔
      MAX_BINDINGS ≤ nat.rev.size ∧ ∀ k b, nat.rev.lookup k = some b → k.proto = proto := by
  have hown : nat.held proto = nat.rev.size ↔
      ∀ k b, nat.rev.lookup k = some b → k.proto = proto := by
    rw [held, Finmap.size_retain_eq_iff]
    simp only [beq_iff_eq]
  have hle := nat.held_le_size proto
  have hsz := h.size_le
  rw [← hown]
  omega

end Nat44

/-- `MAX_BINDINGS` bounds the bindings of all protocols together.  A packet of one protocol is
refused for the bindings of its own alone exactly when its tuple has a binding, there is room, or no
other protocol holds any. -/
theorem ceiling_shared_iff {wg : Ipv4Addr} {nat : Nat44} (h : NatReachable wg nat) (pkt : Bytes)
    (now : Instant) : nat.RefusedByOwn pkt now ↔
      ∀ key, nat.outClass pkt = .keyed key → nat.RoomOrOwn key := by
  have hi := h.inv
  constructor
  · intro hown key hk
    by_cases hf : nat.fwd.lookup key = none
    · by_cases hs : nat.rev.size < MAX_BINDINGS
      · exact .inr (.inl hs)
      · have hx := (Nat44.exhausted_iff hi.cursor_ge pkt now).mpr ⟨key, hk, hf, Nat.not_lt.mp hs⟩
        have hp : key.proto = pkt.getD 9 0 :=
          (outTuple_eq_some.mp (Nat44.outClass_keyed_iff.mp hk).1).2.2.1
        rw [Nat44.RoomOrOwn, hp]
        exact .inr (.inr ((hi.held_full_iff _).mp (hown hx).1).2)
    · exact .inl hf
  · intro hroom hx
    obtain ⟨key, hk, hf, hs⟩ := (Nat44.exhausted_iff hi.cursor_ge pkt now).mp hx
    have hp : key.proto = pkt.getD 9 0 :=
      (outTuple_eq_some.mp (Nat44.outClass_keyed_iff.mp hk).1).2.2.1
    have hall : ∀ k b, nat.rev.lookup k = some b → k.proto = pkt.getD 9 0 := by
      rcases hroom key hk with hb | hlt | hall
      · exact absurd hf hb
      · exact absurd hlt (Nat.not_lt.mpr hs)
      · exact hp ▸ hall
    have hheld := (hi.held_full_iff _).mpr ⟨hs, hall⟩
    -- The class reads the forward and the address, which `only` keeps.
    have hk' : (nat.only (pkt.getD 9 0)).outClass pkt = .keyed key := hk
    have hf' : (nat.only (pkt.getD 9 0)).fwd.lookup key = none := by
      change (nat.fwd.retain _).lookup key = none
      rw [Finmap.lookup_retain, hf]
      rfl
    have hc' : PORT_LO ≤ (nat.only (pkt.getD 9 0)).nextPort := hi.cursor_ge
    exact ⟨hheld, (Nat44.exhausted_iff hc' pkt now).mpr ⟨key, hk', hf', hheld⟩⟩

/-- The SYN finds room. -/
theorem ceiling_shared_iff_opened : Nat44.opened.RefusedByOwn synPacket 8 :=
  (ceiling_shared_iff Nat44.opened_reachable synPacket 8).mpr fun _ _ => .inr (.inl (by decide))

/-- A NAT that has opened one binding after another for UDP conversations of one host. -/
def Nat44.flooded : ℕ → Nat44
  | 0 => Nat44.new ⟨10, 2, 0, 2⟩
  | n + 1 => (Nat44.flooded n).after
      [.translateOut (udpPacket ⟨10, 0, 0, 5⟩ (UInt16.ofNat n) ⟨1, 1, 1, 1⟩ 53) 0]

namespace Nat44

theorem outTuple_udpPacket (src dst : Ipv4Addr) (sport dport : UInt16) :
    outTuple (udpPacket src sport dst dport) = some ⟨PROTO_UDP, src, sport, dst, dport⟩ := by
  have hlen : (udpPacket src sport dst dport).length = 28 := rfl
  have h₀ : (udpPacket src sport dst dport).getD 0 0 = 0x45 := rfl
  have hihl : ihlOf (udpPacket src sport dst dport) = 20 := by rw [ihlOf, h₀]; decide
  have hfrag : fragOffsetOf (udpPacket src sport dst dport) = 0 := by
    have h₆ : word (udpPacket src sport dst dport) 6 = be16 0 0 := rfl
    rw [fragOffsetOf, h₆]
    decide
  refine outTuple_eq_some.mpr
    ⟨⟨?_, ?_, ?_, ?_⟩, hfrag, rfl, rfl, rfl, outL4_ports_iff.mpr ⟨?_, ?_⟩⟩
  · rw [hlen]; decide
  · rw [h₀]; decide
  · rw [hihl]
  · rw [hihl, hlen]; decide
  · rw [hihl, hlen]
  · rw [hihl]
    exact .inl ⟨rfl, be16_beBytes sport, be16_beBytes dport⟩

/-- After `n` conversations there are `n` bindings, all of UDP, from the ports below `n`. -/
structure Flooded (n : ℕ) (nat : Nat44) : Prop where
  reach : NatReachable ⟨10, 2, 0, 2⟩ nat
  wgAddr : nat.wgAddr = ⟨10, 2, 0, 2⟩
  forward : nat.forward = none
  size : nat.rev.size = n
  udp : ∀ k b, nat.rev.lookup k = some b → k.proto = PROTO_UDP
  below : ∀ key p, nat.fwd.lookup key = some p → key.sport.toNat < n

/-- A packet of a new tuple opens a binding, where there is room. -/
theorem translateOut_opens {nat : Nat44} (h : nat.Inv) {pkt : Bytes} {key : FwdKey}
    (hk : nat.outClass pkt = .keyed key) (hf : nat.fwd.lookup key = none)
    (hs : nat.rev.size < MAX_BINDINGS) (hr : isRst pkt = false) (now : Instant) :
    ∃ p nat' pkt', nat.translateOut pkt now = .ok (.translate, nat', pkt') ∧
      nat'.wgAddr = nat.wgAddr ∧ nat'.forward = nat.forward ∧ nat'.fwd = nat.fwd.insert key p ∧
      nat'.rev.size = nat.rev.size + 1 ∧
      ∀ k b, nat'.rev.lookup k = some b → k = ⟨key.proto, p⟩ ∨ nat.rev.lookup k = some b := by
  rw [translateOut_eq, hk]
  dsimp only
  rcases nat.bind_cases key now h.cursor_ge with ⟨p, hp, -⟩ | ⟨cursor, -, -, e⟩ |
      ⟨p, cursor, -, -, -, -, -, hl, e⟩
  · rw [hf] at hp; cases hp
  · have hb := (bind_eq_none_iff h.cursor_ge key now).mp (by rw [e])
    exact absurd hs (Nat.not_lt.mpr hb.2)
  · rw [e]
    refine ⟨p, _, _, rfl, ?_⟩
    rw [hr, closeIf, if_neg Bool.false_ne_true]
    refine ⟨refresh_wgAddr _ _ _, refresh_forward _ _ _, refresh_fwd _ _ _, ?_, fun k b hb => ?_⟩
    · rw [refresh_size]
      exact Finmap.size_insert_of_lookup_none _ hl
    · by_cases hkp : k = ⟨key.proto, p⟩
      · exact .inl hkp
      · rw [lookup_refresh, if_neg hkp] at hb
        exact .inr ((Finmap.lookup_insert_of_ne _ hkp).symm.trans hb)

theorem flooded_spec {n : ℕ} (hn : n ≤ MAX_BINDINGS) : Flooded n (flooded n) := by
  induction n with
  | zero => exact ⟨.of_start rfl, rfl, rfl, rfl, nofun, nofun⟩
  | succ n ih =>
      obtain ⟨hreach, hw, hfw, hsz, hudp, hbelow⟩ := ih (Nat.le_of_succ_le hn)
      have hn' : (UInt16.ofNat n).toNat = n := by
        rw [UInt16.toNat_ofNat']
        exact Nat.mod_eq_of_lt (Nat.lt_of_lt_of_le hn (by decide))
      have hk : (flooded n).outClass (udpPacket ⟨10, 0, 0, 5⟩ (UInt16.ofNat n) ⟨1, 1, 1, 1⟩ 53) =
          .keyed ⟨PROTO_UDP, ⟨10, 0, 0, 5⟩, UInt16.ofNat n, ⟨1, 1, 1, 1⟩, 53⟩ := by
        have hd : (⟨1, 1, 1, 1⟩ : Ipv4Addr) ≠ ⟨10, 2, 0, 2⟩ := by decide
        refine outClass_keyed_iff.mpr ⟨outTuple_udpPacket _ _ _ _, rfl, hw ▸ hd, ?_⟩
        rw [forwards, hfw]
        rfl
      have hf : (flooded n).fwd.lookup ⟨PROTO_UDP, ⟨10, 0, 0, 5⟩, UInt16.ofNat n, ⟨1, 1, 1, 1⟩, 53⟩ =
          none := by
        by_contra hne
        obtain ⟨p, hp⟩ := Option.ne_none_iff_exists'.mp hne
        have hlt := hbelow _ p hp
        dsimp only at hlt
        omega
      obtain ⟨p, nat', pkt', e, hw', hfw', hfwd, hsz', hrev⟩ :=
        translateOut_opens hreach.inv hk hf (hsz.trans_lt hn) rfl 0
      have hafter : flooded (n + 1) = nat' := by
        rw [flooded, after, call, e]
        rfl
      refine ⟨hreach.run (run_after _ _), ?_, ?_, ?_, fun k b hb => ?_, fun key q hq => ?_⟩
      · rw [hafter, hw', hw]
      · rw [hafter, hfw', hfw]
      · rw [hafter, hsz', hsz]
      · rw [hafter] at hb
        rcases hrev k b hb with rfl | hb'
        · rfl
        · exact hudp k b hb'
      · rw [hafter, hfwd, Finmap.lookup_insert_eq] at hq
        split at hq
        · next hkey =>
            rw [hkey, hn']
            exact Nat.lt_succ_self n
        · exact Nat.lt_succ_of_lt (hbelow key q hq)

end Nat44

/-- With the table full of UDP bindings a SYN is refused, and TCP holds none. -/
theorem ceiling_shared :
    ∃ nat : Nat44, NatReachable ⟨10, 2, 0, 2⟩ nat ∧ nat.held PROTO_TCP = 0 ∧
      (∃ nat' pkt', nat.translateOut synPacket 0 = .ok (.exhausted, nat', pkt')) ∧
      ¬ nat.RefusedByOwn synPacket 0 := by
  obtain ⟨nat, hreach, hw, hfw, hsz, hudp, -⟩ : ∃ nat, Nat44.Flooded MAX_BINDINGS nat :=
    ⟨_, Nat44.flooded_spec (Nat.le_refl _)⟩
  have hheld : nat.held PROTO_TCP = 0 := by
    rw [Nat44.held, Finmap.size, Multiset.card_eq_zero, Finmap.retain, Multiset.filter_eq_nil]
    intro e he
    rw [hudp e.1 e.2 (Finmap.lookup_eq_some_iff_mem.mpr he)]
    decide
  have hk : nat.outClass synPacket =
      .keyed ⟨PROTO_TCP, ⟨198, 18, 0, 1⟩, 40000, ⟨93, 184, 216, 34⟩, 443⟩ := by
    refine Nat44.outClass_keyed_iff.mpr ⟨by decide, by decide, ?_, ?_⟩
    · rw [hw]; decide
    · rw [Nat44.forwards, hfw]; rfl
  have hf : nat.fwd.lookup
      ⟨PROTO_TCP, ⟨198, 18, 0, 1⟩, 40000, ⟨93, 184, 216, 34⟩, 443⟩ = none := by
    by_contra hne
    obtain ⟨p, hp⟩ := Option.ne_none_iff_exists'.mp hne
    obtain ⟨b, hb, -⟩ := hreach.inv.fwd_rev _ p hp
    have hproto : PROTO_TCP = PROTO_UDP := hudp _ b hb
    exact absurd hproto (by decide)
  have hx := (Nat44.exhausted_iff hreach.inv.cursor_ge synPacket 0).mpr ⟨_, hk, hf, hsz.ge⟩
  refine ⟨_, hreach, hheld, hx, fun hown => ?_⟩
  have hmax : MAX_BINDINGS ≤ nat.held PROTO_TCP := (hown hx).1
  rw [hheld] at hmax
  exact absurd hmax (by decide)

end Tunnel.Wg
