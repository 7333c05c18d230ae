import Tunnel.Wg.Payload

/-!
# Wg — Fragments

A packet in pieces.  The first fragment is translated by its ports; the ones after it by address
alone, inbound through the entry the first one left.

* `Split`: the fragments of a packet, in order.
* `Passed`: a schedule that takes them through the NAT, other calls in between.
* `Nat44.endpointFor`: the endpoint a translation writes, as the NAT's state has it; `pass_eq` is the
  translation in terms of it.
* `fragments_commute_iff`: when the fragments translated are the fragments of the packet translated.
  `fragments_differ` is a TCP segment whose first fragment ends before its checksum.
-/

namespace Tunnel.Wg
open Support

/-! ### Pieces of a packet -/

/-- `frag` has the header of a fragment of `whole`, `o` bytes into its payload; options may differ. -/
structure FragmentOf (whole frag : Bytes) (o : ℕ) (last : Bool) : Prop where
  hdr : HdrOk frag
  src : addr frag 12 = addr whole 12
  dst : addr frag 16 = addr whole 16
  id : word frag 4 = word whole 4
  proto : frag.getD 9 0 = whole.getD 9 0
  offset : 8 * (fragOffsetOf frag).toNat = o
  more : moreFragmentsOf frag = !last

/-- The fragments of `whole` from byte `o` of its payload on: all but the last carry a multiple of
eight bytes, and none is empty. -/
inductive SplitFrom (whole : Bytes) : ℕ → List Bytes → Prop where
  | last {o : ℕ} {frag : Bytes} (h : FragmentOf whole frag o true) (hne : payload frag ≠ [])
      (hp : payload frag = (payload whole).drop o) : SplitFrom whole o [frag]
  | more {o : ℕ} {frag : Bytes} {frags : List Bytes} (h : FragmentOf whole frag o false)
      (hne : payload frag ≠ []) (h8 : 8 ∣ (payload frag).length)
      (hp : payload frag = ((payload whole).drop o).take (payload frag).length)
      (t : SplitFrom whole (o + (payload frag).length) frags) : SplitFrom whole o (frag :: frags)

/-- A split of a packet. -/
def Split (whole : Bytes) (frags : List Bytes) : Prop := SplitFrom whole 0 frags

/-- What is put together from a split's payloads. -/
theorem SplitFrom.reassembled {whole : Bytes} {o : ℕ} {frags : List Bytes}
    (h : SplitFrom whole o frags) : (frags.map payload).flatten = (payload whole).drop o := by
  induction h with
  | last _ _ hp => simpa using hp
  | more _ _ _ hp _ ih =>
      rw [List.map_cons, List.flatten_cons, ih, ← List.drop_drop]
      exact (congrArg (· ++ _) hp).trans (List.take_append_drop _ _)

/-! ### Through the NAT -/

namespace Nat44

/-- One direction of the translator: out at the source, in at the destination. -/
def pass (nat : Nat44) (side : Side) (pkt : Bytes) (now : Instant) :
    Checked (Verdict × Nat44 × Bytes) :=
  match side with
  | .src => nat.translateOut pkt now
  | .dst => nat.translateIn pkt now

/-- The endpoint a packet in one piece, or a first fragment, is given: outbound the client address
with the port of its binding, or the first free one, or its own where the forward sends it; inbound
the host's endpoint. -/
def endpointFor (nat : Nat44) (side : Side) (pkt : Bytes) : Option (Ipv4Addr × UInt16) :=
  match side with
  | .src =>
    match nat.outClass pkt with
    | .forwarded => some (nat.wgAddr, word pkt (ihlOf pkt + side.port))
    | .keyed key =>
      match nat.fwd.lookup key with
      | some p => some (nat.wgAddr, p)
      | none => (nat.allocPort key.proto).1.map (nat.wgAddr, ·)
    | _ => none
  | .dst =>
    match nat.inClass pkt with
    | .forwarded f => some (f.host, word pkt (ihlOf pkt + side.port))
    | .keyed k => (nat.rev.lookup k).map fun b => (b.src, b.sport)
    | _ => none

end Nat44

/-- A call that does not touch the fragments of `key`: no packet of that key, and no sweep. -/
def Quiet (key : FragKey) : NatOp → Prop
  | .translateOut pkt _ => fragKeyOf pkt ≠ key
  | .translateIn pkt _ => fragKeyOf pkt ≠ key
  | .expire _ => False
  | _ => True

/-- The fragments go through in order, quiet calls in between. -/
inductive Passed (side : Side) (key : FragKey) :
    Nat44 → List Bytes → List (Verdict × Bytes) → Nat44 → Prop where
  | nil (nat : Nat44) : Passed side key nat [] [] nat
  | cons {nat nat₁ nat₂ nat' : Nat44} {frag frag' : Bytes} {frags : List Bytes} {v : Verdict}
      {outs : List (Verdict × Bytes)} {ops : List NatOp} {now : Instant}
      (h : nat.pass side frag now = .ok (v, nat₁, frag'))
      (hq : Run (Guarded (fun _ op => Quiet key op) NatStep) nat₁ ops nat₂)
      (t : Passed side key nat₂ frags outs nat') :
      Passed side key nat (frag :: frags) ((v, frag') :: outs) nat'

/-! ### Headers -/

/-- `b` is `a` with the address `new` at one side, as far as a header tells its fragments apart. -/
structure Readdressed (side : Side) (new : Ipv4Addr) (a b : Bytes) : Prop where
  hdr : HdrOk a → HdrOk b
  addr : addr b side.addr = new
  other : ∀ s, s ≠ side → Tunnel.addr b s.addr = Tunnel.addr a s.addr
  byte : ∀ j, j < 10 → b.getD j 0 = a.getD j 0

theorem readdressed_side {side : Side} {pkt : Bytes} {old new : Ipv4Addr} {proto : UInt8}
    {p q : UInt16} (hok : HdrOk pkt) (ho : addr pkt side.addr = old) :
    Readdressed side new pkt (sideRewritten side pkt old new proto p q) :=
  ⟨hdrOk_sideRewritten, addr_sideRewritten side hok ho,
    fun s hs => addr_sideRewritten_other side s hok hs,
    fun _ hj => getD_sideRewritten_header hok.2.2.1 hj⟩

theorem readdressed_addr {side : Side} {pkt : Bytes} {old new : Ipv4Addr} (hok : HdrOk pkt)
    (ho : addr pkt side.addr = old) :
    Readdressed side new pkt (addrRewritten pkt (ihlOf pkt) side old new none) := by
  have hs := side.addr_le
  have hs' := side.le_addr
  have hbyte : ∀ j, j < 10 →
      (addrRewritten pkt (ihlOf pkt) side old new none).getD j 0 = pkt.getD j 0 :=
    fun j hj => getD_addrRewritten (by omega) (by omega) nofun
  refine ⟨fun h => h.congr (hbyte 0 (by omega)) (length_addrRewritten _ _ _ _ _ _),
    addr_addrRewritten side new none hok.1 hok.2.2.1 ho, fun s hne => ?_, hbyte⟩
  · have hd : s.addr + 4 ≤ side.addr ∨ side.addr + 4 ≤ s.addr := by
      cases s <;> cases side <;> simp [Side.addr] at hne ⊢
    have hl := s.le_addr
    exact addr_congr fun k hk => getD_addrRewritten (by omega) (by omega) nofun

/-- A readdressed fragment is a fragment of the readdressed packet. -/
theorem FragmentOf.readdressed {side : Side} {new : Ipv4Addr} {whole whole' frag frag' : Bytes}
    {o : ℕ} {last : Bool} (h : FragmentOf whole frag o last) (hw : Readdressed side new whole whole')
    (hf : Readdressed side new frag frag') : FragmentOf whole' frag' o last := by
  have haddr : ∀ s : Side, addr frag s.addr = addr whole s.addr →
      addr frag' s.addr = addr whole' s.addr := by
    intro s hs
    by_cases e : s = side
    · rw [e, hf.addr, hw.addr]
    · rw [hf.other s e, hw.other s e, hs]
  have hword : ∀ {a b : Bytes}, (∀ j, j < 10 → b.getD j 0 = a.getD j 0) → ∀ j, j < 9 →
      word b j = word a j := fun h j hj => word_congr (h j (by omega)) (h (j + 1) (by omega))
  refine ⟨hf.hdr h.hdr, haddr .src h.src, haddr .dst h.dst, ?_, ?_, ?_, ?_⟩
  · rw [hword hf.byte 4 (by omega), hword hw.byte 4 (by omega), h.id]
  · rw [hf.byte 9 (by omega), hw.byte 9 (by omega), h.proto]
  · rw [fragOffsetOf, hword hf.byte 6 (by omega), ← fragOffsetOf]
    exact h.offset
  · rw [moreFragmentsOf, hf.byte 6 (by omega), ← moreFragmentsOf]
    exact h.more

/-! ### The first fragment -/

/-- `frag` carries the first `m` bytes of the payload of `whole`, which has the L4 header. -/
structure FirstOf (whole frag : Bytes) (m : ℕ) : Prop where
  hdr : HdrOk frag
  src : addr frag 12 = addr whole 12
  dst : addr frag 16 = addr whole 16
  proto : frag.getD 9 0 = whole.getD 9 0
  offset : fragOffsetOf frag = 0
  long : 8 ≤ m
  le : m ≤ (payload whole).length
  payload_eq : payload frag = (payload whole).take m

namespace FirstOf

variable {whole frag : Bytes} {m : ℕ}

theorem length_payload (h : FirstOf whole frag m) : (payload frag).length = m := by
  rw [h.payload_eq, List.length_take, Nat.min_eq_left h.le]

theorem word_l4 (h : FirstOf whole frag m) {k : ℕ} (hk : k + 2 ≤ 8) :
    word frag (ihlOf frag + k) = word whole (ihlOf whole + k) := by
  have hm := h.long
  rw [← word_drop, ← word_drop]
  change word (payload frag) k = word (payload whole) k
  rw [h.payload_eq, word_take (by omega)]

theorem length_l4 (h : FirstOf whole frag m) :
    ¬ frag.length < ihlOf frag + 8 ∧ ¬ whole.length < ihlOf whole + 8 := by
  have h₁ := h.length_payload
  have h₂ := h.le
  have hm := h.long
  rw [payload, List.length_drop] at h₁ h₂
  exact ⟨by omega, by omega⟩

theorem outL4_eq (h : FirstOf whole frag m) (ht : isTcpUdp (whole.getD 9 0) = true) :
    outL4 frag = outL4 whole := by
  have h₀ := h.word_l4 (k := 0) (by omega)
  have h₂ := h.word_l4 (k := 2) (by omega)
  obtain ⟨hl, hl'⟩ := h.length_l4
  rw [Nat.add_zero, Nat.add_zero] at h₀
  unfold outL4
  dsimp only
  rw [h.proto, if_pos ht, if_pos ht, if_neg hl, if_neg hl', h₀, h₂]

theorem inL4_eq (h : FirstOf whole frag m) (ht : isTcpUdp (whole.getD 9 0) = true) :
    inL4 frag = inL4 whole := by
  have h₂ := h.word_l4 (k := 2) (by omega)
  obtain ⟨hl, hl'⟩ := h.length_l4
  unfold inL4
  dsimp only
  rw [h.proto, if_pos ht, if_pos ht, if_neg hl, if_neg hl', h₂]

/-- A first fragment is of the class of its packet. -/
theorem outClass_eq (h : FirstOf whole frag m) (hok : HdrOk whole) (hf : fragOffsetOf whole = 0)
    (ht : isTcpUdp (whole.getD 9 0) = true) (nat : Nat44) :
    nat.outClass frag = nat.outClass whole := by
  unfold Nat44.outClass
  simp only [h.hdr, hok, h.offset, hf, h.src, h.dst, h.proto, h.outL4_eq ht]

theorem inClass_eq (h : FirstOf whole frag m) (hok : HdrOk whole) (hf : fragOffsetOf whole = 0)
    (ht : isTcpUdp (whole.getD 9 0) = true) (nat : Nat44) :
    nat.inClass frag = nat.inClass whole := by
  unfold Nat44.inClass
  simp only [h.hdr, hok, h.offset, hf, h.dst, h.proto, h.inL4_eq ht, ne_eq, not_true_eq_false,
    if_false]

/-- It is given the endpoint of its packet. -/
theorem endpointFor_eq (h : FirstOf whole frag m) (hok : HdrOk whole) (hf : fragOffsetOf whole = 0)
    (ht : isTcpUdp (whole.getD 9 0) = true) (nat : Nat44) (side : Side) :
    nat.endpointFor side frag = nat.endpointFor side whole := by
  have hs := side.port_le
  have hport : word frag (ihlOf frag + side.port) = word whole (ihlOf whole + side.port) :=
    h.word_l4 (by omega)
  unfold Nat44.endpointFor
  rw [h.outClass_eq hok hf ht, h.inClass_eq hok hf ht, hport]

end FirstOf

/-! ### The translation, by its endpoint -/

theorem outRewritten_eq_side {pkt : Bytes} {key : FwdKey} (ht : isTcpUdp (pkt.getD 9 0) = true)
    (hk : outTuple pkt = some key) (wg : Ipv4Addr) (p : UInt16) :
    outRewritten wg pkt key p = sideRewritten .src pkt (addr pkt Side.src.addr) wg (pkt.getD 9 0)
      (word pkt (ihlOf pkt + Side.src.port)) p := by
  obtain ⟨-, -, hp, hs, -, hl⟩ := outTuple_eq_some.mp hk
  obtain ⟨-, ⟨-, hsp, -⟩ | ⟨hi, -⟩⟩ := outL4_ports_iff.mp hl
  · rw [outRewritten, hp, hs, ← hsp]
    rfl
  · exact absurd hi (ne_icmp_of_isTcpUdp ht)

theorem inRewritten_eq_side {pkt : Bytes} {k : RevKey} (ht : isTcpUdp (pkt.getD 9 0) = true)
    (hk : inTarget pkt = some k) {wg : Ipv4Addr} (ha : addr pkt 16 = wg) (b : Binding) :
    inRewritten wg pkt k b = sideRewritten .dst pkt (addr pkt Side.dst.addr) b.src (pkt.getD 9 0)
      (word pkt (ihlOf pkt + Side.dst.port)) b.sport := by
  obtain ⟨-, -, hp, hl⟩ := inTarget_eq_some.mp hk
  obtain ⟨-, ⟨-, hdp⟩ | ⟨hi, -⟩⟩ := inL4_port_iff.mp hl
  · rw [inRewritten, hp, ← hdp, ← ha]
    rfl
  · exact absurd hi (ne_icmp_of_isTcpUdp ht)

namespace Nat44

@[simp] theorem closeIf_frag (nat : Nat44) (rst : Bool) (k : RevKey) :
    (nat.closeIf rst k).frag = nat.frag := by
  unfold closeIf close
  split
  · split <;> rfl
  · rfl

@[simp] theorem refresh_frag (nat : Nat44) (k : RevKey) (now : Instant) :
    (nat.refresh k now).frag = nat.frag := by
  unfold refresh
  split <;> rfl

theorem bind_frag (nat : Nat44) (key : FwdKey) (now : Instant) :
    (nat.bind key now).2.frag = nat.frag := by
  have ha : ∀ proto, (nat.allocPort proto).2.frag = nat.frag := by
    intro proto
    unfold allocPort
    split <;> rfl
  have h := ha key.proto
  unfold bind
  split
  · rfl
  · split
    · next e => rw [e] at h; exact h
    · next e => rw [e] at h; exact h

/-- A first fragment with more behind it leaves an entry for them. -/
theorem noteFrag_lookup {nat : Nat44} {pkt : Bytes} (h : moreFragmentsOf pkt = true)
    (host : Ipv4Addr) (now : Instant) :
    (nat.noteFrag pkt host now).frag.lookup (fragKeyOf pkt) = some (host, now) := by
  rw [noteFrag, if_pos h]
  exact Finmap.lookup_insert _

theorem noteFrag_lookup_of_ne {nat : Nat44} {pkt : Bytes} {key : FragKey} (h : fragKeyOf pkt ≠ key)
    (host : Ipv4Addr) (now : Instant) :
    (nat.noteFrag pkt host now).frag.lookup key = nat.frag.lookup key := by
  unfold noteFrag
  split
  · exact Finmap.lookup_insert_of_ne _ h.symm
  · rfl

theorem noteFrag_lookup_eq (nat : Nat44) (pkt : Bytes) (host : Ipv4Addr) (now : Instant) (fk : FragKey) :
    (nat.noteFrag pkt host now).frag.lookup fk =
      if moreFragmentsOf pkt = true ∧ fk = fragKeyOf pkt then some (host, now)
      else nat.frag.lookup fk := by
  by_cases hm : moreFragmentsOf pkt = true
  swap
  · rw [noteFrag, if_neg hm, if_neg fun h => hm h.1]
  by_cases hk : fk = fragKeyOf pkt
  · rw [if_pos ⟨hm, hk⟩, hk, noteFrag_lookup hm]
  · rw [if_neg fun h => hk h.2, noteFrag_lookup_of_ne (Ne.symm hk)]

variable {nat : Nat44} {pkt : Bytes} {side : Side} {new : Ipv4Addr} {q : UInt16}

/-- The port of the endpoint a keyed packet is given is the port it is bound to. -/
theorem bind_of_endpointFor {key : FwdKey} (hc : nat.outClass pkt = .keyed key)
    (he : nat.endpointFor .src pkt = some (new, q)) (now : Instant) :
    new = nat.wgAddr ∧ ∃ nat', nat.bind key now = (some q, nat') := by
  rw [endpointFor, hc] at he
  dsimp only at he
  rw [bind]
  cases hf : nat.fwd.lookup key with
  | some p =>
      rw [hf] at he
      cases he
      exact ⟨rfl, _, rfl⟩
  | none =>
      rw [hf] at he
      dsimp only at he ⊢
      generalize nat.allocPort key.proto = r at he ⊢
      obtain ⟨_ | p, nat₁⟩ := r
      · cases he
      · cases he
        exact ⟨rfl, _, rfl⟩

/-- Outbound, a packet with an endpoint is translated to it. -/
theorem passOut_eq (ht : isTcpUdp (pkt.getD 9 0) = true)
    (he : nat.endpointFor .src pkt = some (new, q)) (now : Instant) :
    HdrOk pkt ∧ ∃ nat', nat.pass .src pkt now = .ok (.translate, nat',
      sideRewritten .src pkt (addr pkt Side.src.addr) new (pkt.getD 9 0)
        (word pkt (ihlOf pkt + Side.src.port)) q) := by
  cases hc : nat.outClass pkt with
  | drop => rw [endpointFor, hc] at he; cases he
  | stateless => rw [endpointFor, hc] at he; cases he
  | forwarded =>
      rw [endpointFor, hc] at he
      cases he
      refine ⟨outClass_hdrOk (by rw [hc]; nofun), nat, ?_⟩
      rw [pass, translateOut_eq, hc, sideRewritten_self]
      rfl
  | keyed key =>
      obtain ⟨hk, -⟩ := outClass_keyed_iff.mp hc
      obtain ⟨rfl, nat₁, hn⟩ := bind_of_endpointFor hc he now
      have e : nat.pass .src pkt now = .ok (.translate,
          (nat₁.refresh ⟨key.proto, q⟩ now).closeIf (isRst pkt) ⟨key.proto, q⟩,
          outRewritten nat.wgAddr pkt key q) := by
        rw [pass, translateOut_eq, hc]
        dsimp only
        rw [hn]
      rw [outRewritten_eq_side ht hk] at e
      exact ⟨(outTuple_eq_some.mp hk).1, _, e⟩

/-- Inbound, its later fragments are then expected. -/
theorem passIn_eq (ht : isTcpUdp (pkt.getD 9 0) = true)
    (he : nat.endpointFor .dst pkt = some (new, q)) (now : Instant) :
    HdrOk pkt ∧ ∃ nat', nat.pass .dst pkt now = .ok (.translate, nat',
        sideRewritten .dst pkt (addr pkt Side.dst.addr) new (pkt.getD 9 0)
          (word pkt (ihlOf pkt + Side.dst.port)) q) ∧
      (moreFragmentsOf pkt = true → nat'.frag.lookup (fragKeyOf pkt) = some (new, now)) := by
  rw [endpointFor] at he
  cases hc : nat.inClass pkt with
  | drop => rw [hc] at he; cases he
  | fragment orig => rw [hc] at he; cases he
  | icmpError => rw [hc] at he; cases he
  | forwarded f =>
      rw [hc] at he
      cases he
      have hd : nat.inClass pkt ≠ .drop := by rw [hc]; nofun
      obtain ⟨hok, ha⟩ := inClass_hdrOk hd
      have e : nat.pass .dst pkt now = .ok (.translate,
          { nat.noteFrag pkt f.host now with
            forwardedIn := min (nat.forwardedIn + 1) 18446744073709551615 },
          sideRewritten .dst pkt (addr pkt 16) f.host (pkt.getD 9 0)
            (word pkt (ihlOf pkt + Side.dst.port)) (word pkt (ihlOf pkt + Side.dst.port))) := by
        rw [pass, translateIn_eq, hc, sideRewritten_self, ha]
      exact ⟨hok, _, e, fun hm => noteFrag_lookup hm f.host now⟩
  | keyed k =>
      rw [hc] at he
      obtain ⟨b, hb, hbe⟩ := Option.map_eq_some_iff.mp he
      cases hbe
      obtain ⟨hk, ha, -⟩ := inClass_keyed_iff.mp hc
      have e : nat.pass .dst pkt now = .ok (.translate,
          ((nat.refresh k now).noteFrag pkt b.src now).closeIf (isRst pkt) k,
          sideRewritten .dst pkt (addr pkt 16) b.src (pkt.getD 9 0)
            (word pkt (ihlOf pkt + Side.dst.port)) b.sport) := by
        rw [pass, translateIn_eq, hc]
        dsimp only
        rw [hb]
        dsimp only
        rw [inRewritten_eq_side ht hk ha]
        rfl
      refine ⟨(inTarget_eq_some.mp hk).1, _, e, fun hm => ?_⟩
      rw [closeIf_frag]
      exact noteFrag_lookup hm b.src now

/-- A packet with an endpoint is translated to it. -/
theorem pass_eq (ht : isTcpUdp (pkt.getD 9 0) = true)
    (he : nat.endpointFor side pkt = some (new, q)) (now : Instant) :
    HdrOk pkt ∧ ∃ nat', nat.pass side pkt now = .ok (.translate, nat',
        sideRewritten side pkt (addr pkt side.addr) new (pkt.getD 9 0)
          (word pkt (ihlOf pkt + side.port)) q) ∧
      (side = .dst → moreFragmentsOf pkt = true →
        nat'.frag.lookup (fragKeyOf pkt) = some (new, now)) := by
  cases side with
  | src =>
      obtain ⟨hok, nat', e⟩ := passOut_eq ht he now
      exact ⟨hok, nat', e, nofun⟩
  | dst =>
      obtain ⟨hok, nat', e, hm⟩ := passIn_eq ht he now
      exact ⟨hok, nat', e, fun _ => hm⟩

/-- A TCP or UDP packet that is translated with its L4 header has an endpoint. -/
theorem endpointFor_of_translate {nat' : Nat44} {pkt' : Bytes} {now : Instant}
    (ht : isTcpUdp (pkt.getD 9 0) = true) (hf : fragOffsetOf pkt = 0)
    (e : nat.pass side pkt now = .ok (.translate, nat', pkt')) :
    ∃ new q, nat.endpointFor side pkt = some (new, q) := by
  cases side with
  | src =>
      rw [pass, translateOut_eq] at e
      rw [endpointFor]
      rcases outClass_tcpUdp ht hf with hc | ⟨-, hc⟩ | ⟨key, hc⟩ <;> rw [hc] at e ⊢
      · cases e
      · exact ⟨_, _, rfl⟩
      · dsimp only at e ⊢
        rw [bind] at e
        cases hk : nat.fwd.lookup key with
        | some p => exact ⟨_, _, rfl⟩
        | none =>
            rw [hk] at e
            dsimp only at e ⊢
            rcases ha : nat.allocPort key.proto with ⟨_ | p, nat₁⟩ <;> rw [ha] at e
            · cases e
            · exact ⟨_, _, rfl⟩
  | dst =>
      rw [pass, translateIn_eq] at e
      rw [endpointFor]
      rcases inClass_tcpUdp ht hf with hc | ⟨-, -, f, hc⟩ | ⟨k, hc⟩ <;> rw [hc] at e ⊢
      · cases e
      · exact ⟨_, _, rfl⟩
      · dsimp only at e ⊢
        cases hb : nat.rev.lookup k with
        | none => rw [hb] at e; cases e
        | some b => exact ⟨_, _, rfl⟩

theorem pass_step {nat' : Nat44} {pkt' : Bytes} {now : Instant} {v : Verdict}
    (e : nat.pass side pkt now = .ok (v, nat', pkt')) : ∃ op, NatStep nat op nat' := by
  cases side with
  | src => exact ⟨.translateOut pkt now, _, by rw [call]; exact bind_eq_ok.mpr ⟨_, e, rfl⟩⟩
  | dst => exact ⟨.translateIn pkt now, _, by rw [call]; exact bind_eq_ok.mpr ⟨_, e, rfl⟩⟩

/-! ### The fragments after the first -/

/-- A quiet call leaves the entry of the fragments. -/
theorem quiet_frag {nat' : Nat44} {key : FragKey} {op : NatOp} (h : Quiet key op)
    (e : NatStep nat op nat') : nat'.frag.lookup key = nat.frag.lookup key := by
  obtain ⟨out, e⟩ := e
  cases op with
  | setForward host port => cases e; rfl
  | clearForward => cases e; rfl
  | expire now => exact h.elim
  | translateOut pkt now =>
      obtain ⟨v, pkt', e₁⟩ := NatStep.translateOut ⟨out, e⟩
      rcases translateOut_cases e₁ with ⟨-, rfl⟩ | ⟨key', -, hn, -⟩ | ⟨key', p, nat₁, -, hn, -, -, rfl⟩
      · rfl
      · have hb := nat.bind_frag key' now
        rw [hn] at hb
        rw [hb]
      · have hb := nat.bind_frag key' now
        rw [hn] at hb
        rw [closeIf_frag, refresh_frag, hb]
  | translateIn pkt now =>
      obtain ⟨v, pkt', e₁⟩ := NatStep.translateIn ⟨out, e⟩
      rw [translateIn_eq] at e₁
      cases hc : nat.inClass pkt with
      | drop => rw [hc] at e₁; cases e₁; rfl
      | fragment orig => rw [hc] at e₁; cases e₁; rfl
      | icmpError =>
          obtain ⟨nat₂, hn, e₂⟩ := translateIn_icmpError hc now
          rw [translateIn_eq, e₁] at e₂
          have hn₁ : nat' = nat₂ := by
            split at e₂ <;> cases e₂ <;> rfl
          subst hn₁
          rcases hn with rfl | ⟨k, rfl⟩
          · rfl
          · rw [refresh_frag]
      | forwarded f =>
          rw [hc] at e₁
          cases e₁
          exact noteFrag_lookup_of_ne h f.host now
      | keyed k =>
          rw [hc] at e₁
          dsimp only at e₁
          cases hb : nat.rev.lookup k with
          | none => rw [hb] at e₁; cases e₁; rfl
          | some b =>
              rw [hb] at e₁
              cases e₁
              rw [closeIf_frag]
              exact (noteFrag_lookup_of_ne h b.src now).trans (by rw [refresh_frag])

/-- What is left for the fragments of `whole` after its first one: outbound the packet's own
addresses, inbound an entry. -/
def Continues (nat : Nat44) (side : Side) (whole : Bytes) (new : Ipv4Addr) : Prop :=
  match side with
  | .src => nat.wgAddr = new ∧ routable (addr whole 16) = true ∧ addr whole 16 ≠ nat.wgAddr
  | .dst => addr whole 16 = nat.wgAddr ∧ ∃ t, nat.frag.lookup (fragKeyOf whole) = some (new, t)

variable {whole : Bytes}

theorem Continues.quiet {nat' : Nat44} {op : NatOp} (h : nat.Continues side whole new)
    (hi : nat.Inv) (hq : Quiet (fragKeyOf whole) op) (e : NatStep nat op nat') :
    nat'.Continues side whole new := by
  have hw := hi.wgAddr_step e
  cases side with
  | src =>
      obtain ⟨h, hr, hd⟩ := h
      exact ⟨hw.trans h, hr, hw ▸ hd⟩
  | dst =>
      obtain ⟨hd, t, h⟩ := h
      exact ⟨hd.trans hw.symm, t, (quiet_frag hq e).trans h⟩

end Nat44

/-- A fragment with its address at one side replaced. -/
def addressed (side : Side) (new : Ipv4Addr) (frag : Bytes) : Bytes :=
  addrRewritten frag (ihlOf frag) side (addr frag side.addr) new none

section Later

variable {nat nat' : Nat44} {side : Side} {new : Ipv4Addr} {whole frag : Bytes} {frags : List Bytes}
  {o : ℕ} {last : Bool} {outs : List (Verdict × Bytes)}

theorem FragmentOf.key (h : FragmentOf whole frag o last) : fragKeyOf frag = fragKeyOf whole := by
  rw [fragKeyOf, h.src, h.id, h.proto, ← fragKeyOf]

theorem FragmentOf.fragOffset_eq_zero_iff (h : FragmentOf whole frag o last) :
    fragOffsetOf frag = 0 ↔ o = 0 := by
  have ho := h.offset
  rw [← UInt16.toNat_inj, UInt16.toNat_zero]
  omega

/-- A later fragment is translated by address. -/
theorem FragmentOf.pass (h : FragmentOf whole frag o last) (ho : o ≠ 0)
    (hc : nat.Continues side whole new) (now : Instant) :
    nat.pass side frag now = .ok (.translate, nat, addressed side new frag) := by
  have hf : fragOffsetOf frag ≠ 0 := mt h.fragOffset_eq_zero_iff.mp ho
  cases side with
  | src =>
      obtain ⟨rfl, hr, hd⟩ := hc
      rw [← h.dst] at hr hd
      rw [Nat44.pass, Nat44.translateOut_eq, Nat44.outClass, if_pos ⟨h.hdr, hr, hd⟩, if_pos hf]
      rfl
  | dst =>
      obtain ⟨hd, t, hl⟩ := hc
      rw [← h.dst] at hd
      rw [← h.key] at hl
      rw [Nat44.pass, Nat44.translateIn_eq, Nat44.inClass, if_pos ⟨h.hdr, hd⟩, if_pos hf, hl]
      dsimp only
      rw [← hd]
      rfl

/-- So are all of them, whatever quiet calls come between. -/
theorem Passed.later (hp : Passed side (fragKeyOf whole) nat frags outs nat')
    (hs : SplitFrom whole o frags) (ho : o ≠ 0) (hi : nat.Inv)
    (hc : nat.Continues side whole new) :
    outs = frags.map fun frag => (.translate, addressed side new frag) := by
  induction hp generalizing o with
  | nil => rfl
  | @cons nat nat₁ nat₂ _ frag frag' frags v outs ops now e hq t ih =>
      have hfrag : ∃ last, FragmentOf whole frag o last := by
        cases hs with
        | last h => exact ⟨_, h⟩
        | more h => exact ⟨_, h⟩
      obtain ⟨last, h⟩ := hfrag
      rw [h.pass ho hc] at e
      cases e
      -- The fragment leaves the state, and quiet calls what it says of the fragments.
      have hnext := hq.invariant (I := fun nat => nat.Inv ∧ nat.Continues side whole new)
        (fun _ _ _ i e => ⟨i.1.call e.1, i.2.quiet i.1 e.2 e.1⟩) ⟨hi, hc⟩
      cases hs with
      | last => cases t; rfl
      | more _ _ _ _ hs => rw [List.map_cons, ih hs (by omega) hnext.1 hnext.2]

end Later

/-! ### Together again -/

section Together

variable {side : Side} {new : Ipv4Addr} {whole whole' frag : Bytes} {frags : List Bytes} {o : ℕ}
  {proto : UInt8} {p q : UInt16}

/-- Readdressed fragments carry what the fragments carried. -/
theorem SplitFrom.payload_addressed (h : SplitFrom whole o frags) :
    (frags.map (addressed side new)).map payload = frags.map payload := by
  induction h with
  | last h => rw [List.map_singleton, List.map_singleton, List.map_singleton, addressed,
      payload_addrRewritten h.hdr]
  | more h _ _ _ _ ih => rw [List.map_cons, List.map_cons, List.map_cons, ih, addressed,
      payload_addrRewritten h.hdr]

/-- They are the fragments of the readdressed packet, if it has the same payload from there on. -/
theorem SplitFrom.addressed (h : SplitFrom whole o frags) (hw : Readdressed side new whole whole')
    (hd : (payload whole').drop o = (payload whole).drop o) :
    SplitFrom whole' o (frags.map (addressed side new)) := by
  have hfrag : ∀ {frag : Bytes}, HdrOk frag → Readdressed side new frag (Wg.addressed side new frag) ∧
      payload (Wg.addressed side new frag) = payload frag :=
    fun h => ⟨readdressed_addr h rfl, payload_addrRewritten h⟩
  induction h with
  | last h hne hp =>
      obtain ⟨hr, hpay⟩ := hfrag h.hdr
      exact .last (h.readdressed hw hr) (by rwa [hpay]) (by rw [hpay, hd, hp])
  | more h hne h8 hp _ ih =>
      obtain ⟨hr, hpay⟩ := hfrag h.hdr
      refine .more (h.readdressed hw hr) (by rwa [hpay]) (by rwa [hpay]) ?_ ?_
      · rw [hpay, hd]
        exact hp
      · rw [hpay]
        refine ih ?_
        rw [← List.drop_drop, hd, List.drop_drop]

theorem FragmentOf.addr_side {last : Bool} (h : FragmentOf whole frag o last) (side : Side) :
    addr frag side.addr = addr whole side.addr := by
  cases side
  · exact h.src
  · exact h.dst

/-- The first fragment carries the beginning of the payload, and the others the rest. -/
theorem Split.head (h : Split whole (frag :: frags)) :
    (∃ last, FragmentOf whole frag 0 last) ∧ payload frag ≠ [] ∧
      (payload frag).length ≤ (payload whole).length ∧
      payload frag = (payload whole).take (payload frag).length ∧
      (frags.map payload).flatten = (payload whole).drop (payload frag).length := by
  cases h with
  | last h hne hp =>
      rw [List.drop_zero] at hp
      refine ⟨⟨_, h⟩, hne, ?_, ?_, ?_⟩
      · rw [hp]
      · rw [hp, List.take_length]
      · rw [hp, List.drop_length]
        rfl
  | more h hne h8 hp t =>
      have hflat := t.reassembled
      rw [List.drop_zero] at hp
      rw [Nat.zero_add] at hflat
      refine ⟨⟨_, h⟩, hne, ?_, hp, hflat⟩
      have hlen := congrArg List.length hp
      rw [List.length_take] at hlen
      omega

/-- A rewritten first fragment and the readdressed others are the fragments of the rewritten packet
exactly when the payload comes out the same. -/
theorem split_rewritten_iff {old : Ipv4Addr} (hok : HdrOk whole) (ho : addr whole side.addr = old)
    (ht : isTcpUdp proto = true) (h : Split whole (frag :: frags)) :
    Split (sideRewritten side whole old new proto p q)
        (sideRewritten side frag old new proto p q :: frags.map (addressed side new)) ↔
      l4Rewritten side proto old new p q ((payload whole).take (payload frag).length) ++
        (payload whole).drop (payload frag).length =
      l4Rewritten side proto old new p q (payload whole) := by
  obtain ⟨⟨_, hfrag⟩, -, hle, htake, hdrop⟩ := h.head
  have hwhole : payload (sideRewritten side whole old new proto p q) =
      l4Rewritten side proto old new p q (payload whole) := payload_sideRewritten hok ht
  have hfirst : payload (sideRewritten side frag old new proto p q) =
      l4Rewritten side proto old new p q ((payload whole).take (payload frag).length) := by
    rw [← htake]
    exact payload_sideRewritten hfrag.hdr ht
  have hlen : (payload (sideRewritten side frag old new proto p q)).length =
      (payload frag).length := by
    rw [hfirst, length_l4Rewritten, List.length_take, Nat.min_eq_left hle]
  have hw : Readdressed side new whole (sideRewritten side whole old new proto p q) :=
    readdressed_side hok ho
  have hf : Readdressed side new frag (sideRewritten side frag old new proto p q) :=
    readdressed_side hfrag.hdr ((hfrag.addr_side side).trans ho)
  constructor
  · intro h'
    have hall := h'.reassembled
    rw [List.map_cons, List.flatten_cons, hfirst, List.drop_zero, hwhole] at hall
    rw [← hall]
    cases h with
    | last => simpa using hdrop.symm
    | more _ _ _ _ t => rw [t.payload_addressed, hdrop]
  · intro e
    -- The rewritten payload, cut where the first fragment ends.
    have htake' : payload (sideRewritten side frag old new proto p q) =
        (payload (sideRewritten side whole old new proto p q)).take (payload frag).length := by
      rw [hwhole, ← e, hfirst]
      exact (List.take_left' (hfirst ▸ hlen)).symm
    have hdrop' : (payload (sideRewritten side whole old new proto p q)).drop (payload frag).length =
        (payload whole).drop (payload frag).length := by
      rw [hwhole, ← e]
      exact List.drop_left' (hfirst ▸ hlen)
    have hne' : payload frag ≠ [] → payload (sideRewritten side frag old new proto p q) ≠ [] :=
      fun h => List.ne_nil_of_length_pos (by rw [hlen]; exact List.length_pos_of_ne_nil h)
    cases h with
    | last h hne hp =>
        refine .last (h.readdressed hw hf) (hne' hne) ?_
        rw [htake', hp, List.drop_zero, List.drop_zero, hwhole]
        exact List.take_of_length_le (by rw [length_l4Rewritten])
    | more h hne h8 hp t =>
        refine .more (h.readdressed hw hf) (hne' hne) (by rwa [hlen]) ?_ ?_
        · rw [hlen, List.drop_zero]
          exact htake'
        · rw [hlen]
          exact t.addressed hw (by rw [Nat.zero_add]; exact hdrop')

end Together

/-! ### The law -/

section Law

variable {nat nat₁ nat' : Nat44} {side : Side} {new : Ipv4Addr} {q : UInt16}
  {whole whole' frag : Bytes} {frags : List Bytes} {outs : List (Verdict × Bytes)} {now : Instant}

/-- The first fragment of a packet with an L4 header has the ports. -/
theorem Split.firstOf (h : Split whole (frag :: frags)) (hl : 8 ≤ (payload whole).length) :
    FirstOf whole frag (payload frag).length := by
  obtain ⟨⟨_, hf⟩, hne, hle, htake, -⟩ := h.head
  refine ⟨hf.hdr, hf.src, hf.dst, hf.proto, hf.fragOffset_eq_zero_iff.mpr rfl, ?_, hle, htake⟩
  cases h with
  | last _ _ hp => rwa [hp]
  | more _ _ h8 _ _ => exact Nat.le_of_dvd (List.length_pos_of_ne_nil hne) h8

/-- A first fragment leaves what the later ones need. -/
theorem Nat44.continues_of_pass {pkt pkt' : Bytes} {v : Verdict}
    (ht : isTcpUdp (pkt.getD 9 0) = true) (he : nat.endpointFor side pkt = some (new, q))
    (hm : moreFragmentsOf pkt = true) (hi : nat.Inv)
    (e : nat.pass side pkt now = .ok (v, nat', pkt')) : nat'.Continues side pkt new := by
  obtain ⟨op, hop⟩ := pass_step e
  have hw := hi.wgAddr_step hop
  cases side with
  | src =>
      have hc : nat.outClass pkt ≠ .drop ∧ new = nat.wgAddr := by
        rw [endpointFor] at he
        split at he
        · next h => cases he; exact ⟨by rw [h]; nofun, rfl⟩
        · next h =>
            split at he
            · cases he; exact ⟨by rw [h]; nofun, rfl⟩
            · obtain ⟨_, -, he⟩ := Option.map_eq_some_iff.mp he
              cases he
              exact ⟨by rw [h]; nofun, rfl⟩
        · cases he
      obtain ⟨-, hr, hd⟩ := outClass_addr hc.1
      exact ⟨hw.trans hc.2.symm, hr, hw ▸ hd⟩
  | dst =>
      have hc : nat.inClass pkt ≠ .drop := by
        intro h
        rw [endpointFor, h] at he
        cases he
      obtain ⟨-, nat₂, e₂, hfrag⟩ := pass_eq ht he now
      rw [e₂] at e
      cases e
      exact ⟨(inClass_hdrOk hc).2.trans hw.symm, now, hfrag rfl hm⟩

/-- The first fragment is rewritten as its packet would be, and the others readdressed. -/
theorem Passed.outs_eq (hp : Passed side (fragKeyOf whole) nat (frag :: frags) outs nat')
    (hs : Split whole (frag :: frags)) (hok : HdrOk whole) (hf : fragOffsetOf whole = 0)
    (ht : isTcpUdp (whole.getD 9 0) = true) (hl : 8 ≤ (payload whole).length) (hi : nat.Inv)
    (he : nat.endpointFor side whole = some (new, q)) :
    outs = (.translate, sideRewritten side frag (addr whole side.addr) new (whole.getD 9 0)
        (word whole (ihlOf whole + side.port)) q) ::
      frags.map fun frag => (.translate, addressed side new frag) := by
  have hfirst := hs.firstOf hl
  have hport : word frag (ihlOf frag + side.port) = word whole (ihlOf whole + side.port) :=
    hfirst.word_l4 (by have := side.port_le; omega)
  have htf : isTcpUdp (frag.getD 9 0) = true := by rw [hfirst.proto]; exact ht
  have hef := (hfirst.endpointFor_eq hok hf ht nat side).trans he
  cases hp with
  | @cons _ nat₁ nat₂ _ _ frag' _ v outs ops now e hq t =>
      obtain ⟨-, nat₃, e₃, -⟩ := Nat44.pass_eq htf hef now
      rw [e₃] at e
      cases e
      have htail : outs = frags.map fun frag => (.translate, addressed side new frag) := by
        cases hs with
        | last => cases t; rfl
        | more hfrag hne _ _ hs =>
            have hc := Nat44.continues_of_pass htf hef hfrag.more hi e₃
            have hc' : nat₁.Continues side whole new := by
              unfold Nat44.Continues at hc ⊢
              rwa [hfrag.dst, hfrag.key] at hc
            obtain ⟨op, hop⟩ := Nat44.pass_step e₃
            have hnext := hq.invariant (I := fun nat => nat.Inv ∧ nat.Continues side whole new)
              (fun _ _ _ i e => ⟨i.1.call e.1, i.2.quiet i.1 e.2 e.1⟩) ⟨hi.call hop, hc'⟩
            have hpos := List.length_pos_of_ne_nil hne
            exact t.later hs (by omega) hnext.1 hnext.2
      obtain ⟨⟨_, hfrag⟩, -⟩ := hs.head
      rw [htail, hfrag.addr_side side, hfirst.proto, hport]

/-- The payload a first fragment and the rest make is that of the rewritten packet exactly when the
checksum is in the first fragment, or would be left as it is. -/
theorem l4Rewritten_cut_iff {m : ℕ} {p : UInt16} (hok : HdrOk whole)
    (ht : isTcpUdp (whole.getD 9 0) = true) (hm : 8 ≤ m) (hmw : m ≤ (payload whole).length)
    (hl : ihlOf whole + csumOffset whole + 2 ≤ whole.length)
    (hv : whole.getD 9 0 = PROTO_TCP → InUse PROTO_TCP (l4Field whole)) :
    l4Rewritten side (whole.getD 9 0) (addr whole side.addr) new p q ((payload whole).take m) ++
          (payload whole).drop m =
        l4Rewritten side (whole.getD 9 0) (addr whole side.addr) new p q (payload whole) ↔
      csumOffset whole + 2 ≤ m ∨
        ipSum (addr whole side.addr) + p.toNat ≡ ipSum new + q.toNat [MOD 65535] := by
  have ho := csumOffset_eq ht
  have hlen : csumOffset whole + 2 ≤ (payload whole).length := by
    rw [payload, List.length_drop]
    omega
  by_cases hcut : csumOffset whole + 2 ≤ m
  · exact iff_of_true (l4Rewritten_take ho hcut hmw) (.inl hcut)
  -- Only TCP has its checksum behind the first eight bytes.
  have htcp : whole.getD 9 0 = PROTO_TCP := by
    by_contra htcp
    have hoff : csumOffset whole = 6 := by
      have hudp : whole.getD 9 0 = PROTO_UDP := by
        rw [isTcpUdp, Bool.or_eq_true, beq_iff_eq, beq_iff_eq] at ht
        exact ht.resolve_left htcp
      rw [csumOffset, hudp]
      rfl
    omega
  have hmoved : Moved (whole.getD 9 0) (word whole (ihlOf whole + csumOffset whole))
      (word (sideRewritten side whole (addr whole side.addr) new (whole.getD 9 0) p q)
        (ihlOf whole + csumOffset whole))
      (ipSum (addr whole side.addr) + p.toNat) (ipSum new + q.toNat) :=
    l4Word_sideRewritten hok.2.2.1 ho hl (by rw [htcp]; exact hv htcp)
  have hword : ∀ pkt : Bytes, ihlOf pkt = ihlOf whole →
      word pkt (ihlOf whole + csumOffset whole) = word (payload pkt) (csumOffset whole) := by
    intro pkt h
    rw [payload, word_drop, h]
  rw [hword _ (ihlOf_sideRewritten hok.2.2.1), payload_sideRewritten hok ht, hword whole rfl]
    at hmoved
  rw [l4Rewritten_short_iff ho (by omega) (by omega) hlen, or_iff_right hcut]
  exact hmoved.eq_iff (hword whole rfl ▸ htcp ▸ hv htcp)

/-- **When fragmentation commutes with translation.**  Every fragment of a packet the NAT would
translate is translated.  They come out as the fragments of the translated packet exactly when the
first one holds the checksum, which it does but for TCP, or the endpoint that replaces the packet's
has the same sum. -/
theorem fragments_commute_iff {wg : Ipv4Addr} (h : NatReachable wg nat)
    (hf : fragOffsetOf whole = 0) (ht : isTcpUdp (whole.getD 9 0) = true)
    (hl : whole.length ≤ 65535) (hfit : ihlOf whole + csumOffset whole + 2 ≤ whole.length)
    (hv : whole.getD 9 0 = PROTO_TCP → l4Field whole = l4Csum whole)
    (e : nat.pass side whole now = .ok (.translate, nat₁, whole'))
    (hs : Split whole (frag :: frags))
    (hp : Passed side (fragKeyOf whole) nat (frag :: frags) outs nat') :
    (∀ out ∈ outs, out.1 = .translate) ∧
    (Split whole' (outs.map Prod.snd) ↔
      csumOffset whole + 2 ≤ (payload frag).length ∨
        ∃ new q, nat.endpointFor side whole = some (new, q) ∧
          ipSum (addr whole side.addr) + (word whole (ihlOf whole + side.port)).toNat ≡
            ipSum new + q.toNat [MOD 65535]) := by
  obtain ⟨new, q, he⟩ := Nat44.endpointFor_of_translate ht hf e
  obtain ⟨hok, nat₂, e₂, -⟩ := Nat44.pass_eq ht he now
  rw [e₂] at e
  cases e
  have hoff := (csumOffset_spec (csumOffset_eq ht)).2.1
  have hlen : 8 ≤ (payload whole).length := by
    rw [payload, List.length_drop]
    omega
  have hfirst := hs.firstOf hlen
  have hin : whole.getD 9 0 = PROTO_TCP → InUse PROTO_TCP (l4Field whole) := by
    intro htcp
    have hvalid := (l4Valid_iff hok ht hl).mp (hv htcp)
    rw [htcp] at hvalid
    exact ⟨hvalid.ne_zero, hvalid.ne⟩
  have hout := hp.outs_eq hs hok hf ht hlen h.inv he
  refine ⟨fun out hmem => ?_, ?_⟩
  · rw [hout] at hmem
    rcases List.mem_cons.mp hmem with rfl | hmem
    · rfl
    · obtain ⟨_, -, rfl⟩ := List.mem_map.mp hmem
      rfl
  have hsnd : outs.map Prod.snd =
      sideRewritten side frag (addr whole side.addr) new (whole.getD 9 0)
        (word whole (ihlOf whole + side.port)) q :: frags.map (addressed side new) := by
    rw [hout, List.map_cons, List.map_map]
    rfl
  rw [hsnd, split_rewritten_iff hok rfl ht hs,
    l4Rewritten_cut_iff hok ht hfirst.long hfirst.le hfit hin]
  refine or_congr_right ⟨fun hsum => ⟨new, q, he, hsum⟩, ?_⟩
  rintro ⟨new', q', he', hsum⟩
  cases he.symm.trans he'
  exact hsum

end Law

/-- `n` bytes of the payload of a packet from byte `o` on, as a fragment of it. -/
def fragment (whole : Bytes) (o n : ℕ) (more : Bool) : Bytes :=
  let flags := UInt16.ofNat (o / 8 + if more then 8192 else 0)
  let hdr := splice (splice (whole.take (ihlOf whole)) 2 (beBytes (UInt16.ofNat (ihlOf whole + n)))) 6
    (beBytes flags)
  splice hdr 10 (beBytes (hdrCsum hdr)) ++ ((payload whole).drop o).take n

/-- The SYN in two pieces, of 8 and 12 bytes. -/
def synPieces : List Bytes := [fragment synPacket 0 8 true, fragment synPacket 8 12 false]

theorem synPiece_second : FragmentOf synPacket (fragment synPacket 8 12 false) 8 true :=
  ⟨by decide, by decide, by decide, by decide, by decide, by decide, by decide⟩

theorem split_synPieces : Split synPacket synPieces :=
  .more ⟨by decide, by decide, by decide, by decide, by decide, by decide, by decide⟩ (by decide)
    (by decide) (by decide) (.last synPiece_second (by decide) (by decide))

/-- The pieces, sent from port 1024. -/
def synPiecesOut : List Bytes :=
  [outRewritten ⟨10, 2, 0, 2⟩ (fragment synPacket 0 8 true) synKey 1024,
    addressed .src ⟨10, 2, 0, 2⟩ (fragment synPacket 8 12 false)]

theorem passed_synPieces : Passed .src (fragKeyOf synPacket) (Nat44.new ⟨10, 2, 0, 2⟩)
    synPieces (synPiecesOut.map (Verdict.translate, ·)) Nat44.afterSyn := by
  have e₁ : (Nat44.new ⟨10, 2, 0, 2⟩).pass .src (fragment synPacket 0 8 true) 0 =
      .ok (.translate, Nat44.afterSyn,
        outRewritten ⟨10, 2, 0, 2⟩ (fragment synPacket 0 8 true) synKey 1024) := by
    have hc : (Nat44.new ⟨10, 2, 0, 2⟩).outClass (fragment synPacket 0 8 true) = .keyed synKey := by
      decide
    have hr : isRst (fragment synPacket 0 8 true) = false := by decide
    rw [Nat44.pass, Nat44.translateOut_eq, hc, hr]
    rfl
  have hnext : Nat44.afterSyn.Continues .src synPacket ⟨10, 2, 0, 2⟩ :=
    ⟨by decide, by decide, by decide⟩
  have e₂ : Nat44.afterSyn.pass .src (fragment synPacket 8 12 false) 0 =
      .ok (.translate, Nat44.afterSyn,
        addressed .src ⟨10, 2, 0, 2⟩ (fragment synPacket 8 12 false)) :=
    synPiece_second.pass (by decide) hnext 0
  exact .cons e₁ (.refl _) (.cons e₂ (.refl _) (.nil _))

theorem pass_synPacket : (Nat44.new ⟨10, 2, 0, 2⟩).pass .src synPacket 0 =
    .ok (.translate, Nat44.afterSyn, outRewritten ⟨10, 2, 0, 2⟩ synPacket synKey 1024) := rfl

/-- A new NAT translates both pieces, but together they are not the SYN translated. -/
theorem fragments_differ :
    NatReachable ⟨10, 2, 0, 2⟩ (Nat44.new ⟨10, 2, 0, 2⟩) ∧ Computed synPacket ∧
    Split synPacket synPieces ∧
    (Nat44.new ⟨10, 2, 0, 2⟩).pass .src synPacket 0 =
      .ok (.translate, Nat44.afterSyn, outRewritten ⟨10, 2, 0, 2⟩ synPacket synKey 1024) ∧
    Passed .src (fragKeyOf synPacket) (Nat44.new ⟨10, 2, 0, 2⟩) synPieces
      (synPiecesOut.map (Verdict.translate, ·)) Nat44.afterSyn ∧
    (synPiecesOut.map payload).flatten ≠
      payload (outRewritten ⟨10, 2, 0, 2⟩ synPacket synKey 1024) :=
  ⟨.of_start rfl, ⟨by decide, fun _ => by decide, fun h => absurd h (by decide)⟩, split_synPieces,
    pass_synPacket, passed_synPieces, by decide⟩

/-- So they are not its fragments. -/
theorem fragments_commute_syn :
    ¬ Split (outRewritten ⟨10, 2, 0, 2⟩ synPacket synKey 1024) synPiecesOut := by
  obtain ⟨-, hiff⟩ := fragments_commute_iff (.of_start rfl) (by decide) (by decide) (by decide)
    (by decide) (fun _ => by decide) pass_synPacket split_synPieces passed_synPieces
  intro hs
  rcases hiff.mp hs with hfit | ⟨new, q, he, hsum⟩
  · exact absurd hfit (by decide)
  · have he' : (Nat44.new ⟨10, 2, 0, 2⟩).endpointFor .src synPacket = some (⟨10, 2, 0, 2⟩, 1024) := rfl
    cases he'.symm.trans he
    exact absurd hsum (by decide)

end Tunnel.Wg
