import Tunnel.Wg.Nat44
import Tunnel.Wg.Rewrite

/-!
# Wg — What one call does

Every packet the NAT is handed falls in one of a few classes, told from its bytes and the NAT's
forward alone (`outClass`, `inClass`); the class fixes what the call returns.  The equations say
that no call panics, whatever the bytes.

* `translateOut_eq`, `translateIn_eq`, `translateIcmpError_eq`: the three translations, by class.
* `outTuple`, `inTarget`, `quoteTarget`: what a packet is keyed on, as read from the wire: the
  5-tuple of an outbound packet, the protocol and destination port (or echo identifier) of an
  inbound one, the protocol and source port of the packet an ICMP error quotes.
* `outClass_keyed_iff`, `inClass_keyed_iff`: which packets go through a binding.
* `translateOut_cases`, `translateIn_cases`: all that a packet can do to the tables.
* `call_total`: no call panics.
-/

namespace Tunnel.Wg
open Support

/-! ### Outbound packets -/

/-- The L4 header of an outbound packet, as `outPorts` reads it. -/
def outL4 (pkt : Bytes) : OutL4 :=
  let l4 := ihlOf pkt
  let proto := pkt.getD 9 0
  if isTcpUdp proto then
    if pkt.length < l4 + 8 then .drop else .ports (word pkt l4) (word pkt (l4 + 2))
  else if proto = PROTO_ICMP then
    if pkt.length < l4 + 8 then .drop
    else if pkt.getD l4 0 = 8 then .ports (word pkt (l4 + 4)) 0
    else .stateless
  else .stateless

/-- The fragment offset of a packet. -/
def fragOffsetOf (pkt : Bytes) : UInt16 := word pkt 6 &&& 0x1fff

/-- The 5-tuple of an outbound packet that carries its L4 header; an echo request's identifier is
its source port, and its destination port is 0. -/
def outTuple (pkt : Bytes) : Option FwdKey :=
  if HdrOk pkt ∧ fragOffsetOf pkt = 0 then
    match outL4 pkt with
    | .ports sport dport => some ⟨pkt.getD 9 0, addr pkt 12, sport, addr pkt 16, dport⟩
    | _ => none
  else none

/-- A packet of this tuple leaves by the forwarded port. -/
def Nat44.forwards (nat : Nat44) (key : FwdKey) : Bool :=
  nat.forward.any fun f => isTcpUdp key.proto && key.src == f.host && key.sport == f.port

inductive OutClass where
  | drop
  | stateless
  | forwarded
  | keyed (key : FwdKey)
deriving DecidableEq

def Nat44.outClass (nat : Nat44) (pkt : Bytes) : OutClass :=
  if HdrOk pkt ∧ routable (addr pkt 16) = true ∧ addr pkt 16 ≠ nat.wgAddr then
    if fragOffsetOf pkt ≠ 0 then .stateless
    else match outL4 pkt with
      | .drop => .drop
      | .stateless => .stateless
      | .ports sport dport =>
        let key : FwdKey := ⟨pkt.getD 9 0, addr pkt 12, sport, addr pkt 16, dport⟩
        if nat.forwards key then .forwarded else .keyed key
  else .drop

/-- A TCP packet with the RST flag. -/
def isRst (pkt : Bytes) : Bool := hasRst (pkt.getD 9 0) pkt (ihlOf pkt)

/-- An outbound packet of tuple `key`, translated to port `p`. -/
def outRewritten (wg : Ipv4Addr) (pkt : Bytes) (key : FwdKey) (p : UInt16) : Bytes :=
  portRewritten (addrRewritten pkt (ihlOf pkt) .src key.src wg (some key.proto)) (ihlOf pkt) .src
    key.proto key.sport p

/-- A RST closes the binding it went through. -/
def Nat44.closeIf (nat : Nat44) (rst : Bool) (k : RevKey) : Nat44 :=
  if rst then nat.close k.proto k.port else nat

theorem length_drop_ihl {pkt : Bytes} (h : HdrOk pkt) (n : ℕ) :
    (pkt.drop (ihlOf pkt)).length < n ↔ pkt.length < ihlOf pkt + n := by
  obtain ⟨-, -, -, h⟩ := h
  rw [List.length_drop]
  omega

/-- The first eight bytes of the L4 header, where they are there. -/
theorem wordAt_l4 {pkt : Bytes} {i : ℕ} (hl : ¬ pkt.length < ihlOf pkt + 8) (hi : i ≤ 6) :
    wordAt (pkt.drop (ihlOf pkt)) i = .ok (word pkt (ihlOf pkt + i)) := by
  rw [wordAt_eq (by rw [List.length_drop]; omega), word_drop]

theorem nth_l4 {pkt : Bytes} (hl : ¬ pkt.length < ihlOf pkt + 8) :
    nth (pkt.drop (ihlOf pkt)) 0 = .ok (pkt.getD (ihlOf pkt) 0) := by
  rw [nth_eq (by rw [List.length_drop]; omega) 0]
  simp

/-- An L4 header that is cut short, and one that is read. -/
theorem ite_short {α : Type} {pkt : Bytes} (h : HdrOk pkt) {d y : α} {x : Checked α}
    (hx : ¬ pkt.length < ihlOf pkt + 8 → x = .ok y) :
    (if (pkt.drop (ihlOf pkt)).length < 8 then .ok d else x) =
      .ok (if pkt.length < ihlOf pkt + 8 then d else y) := by
  by_cases hl : pkt.length < ihlOf pkt + 8
  · rw [if_pos ((length_drop_ihl h 8).mpr hl), if_pos hl]
  · rw [if_neg (mt (length_drop_ihl h 8).mp hl), if_neg hl, hx hl]

theorem outPorts_eq {pkt : Bytes} (h : HdrOk pkt) :
    outPorts (pkt.getD 9 0) (pkt.drop (ihlOf pkt)) = .ok (outL4 pkt) := by
  unfold outPorts outL4
  dsimp only
  by_cases ht : isTcpUdp (pkt.getD 9 0) = true
  · rw [if_pos ht, if_pos ht]
    refine ite_short h fun hl => ?_
    rw [wordAt_l4 hl (by omega), wordAt_l4 hl (by omega)]
    rfl
  rw [if_neg ht, if_neg ht]
  by_cases hi : pkt.getD 9 0 = PROTO_ICMP
  · rw [if_pos hi, if_pos hi]
    refine ite_short h fun hl => ?_
    rw [nth_l4 hl, ok_bind, wordAt_l4 hl (by omega)]
    by_cases he : pkt.getD (ihlOf pkt) 0 = 8
    · rw [if_pos he, if_pos he]; rfl
    · rw [if_neg he, if_neg he]; rfl
  · rw [if_neg hi, if_neg hi]; rfl

/-- The flags byte lies outside every field a TCP rewrite touches. -/
theorem hasRst_rewritten {pkt : Bytes} {ihl : ℕ} {side : Side} {proto : UInt8} {old new : Ipv4Addr}
    {oldPort newPort : UInt16} (hi : 20 ≤ ihl) :
    hasRst proto (portRewritten (addrRewritten pkt ihl side old new (some proto)) ihl side proto
      oldPort newPort) ihl = hasRst proto pkt ihl := by
  unfold hasRst tcpFlags
  by_cases hp : proto = PROTO_TCP
  · subst hp
    have hs := side.addr_le
    have ho : ∀ off, l4CsumOffset PROTO_TCP = some off → off = 16 := by
      intro off h
      cases h; rfl
    have e : (portRewritten (addrRewritten pkt ihl side old new (some PROTO_TCP)) ihl side PROTO_TCP
        oldPort newPort).getD (ihl + 13) 0 = pkt.getD (ihl + 13) 0 := by
      rw [getD_portRewritten (fun _ => by have := side.port_le; omega)
        (fun off h => by rw [ho off h]; omega) (fun h => absurd h (by decide)),
        getD_addrRewritten (by omega) (by omega)
          (fun proto off hp h => by cases hp; rw [ho off h]; omega)]
    by_cases hl : ihl + 13 < pkt.length
    · rw [List.getD_eq_getElem _ _ (by simpa using hl), List.getD_eq_getElem _ _ hl] at e
      rw [List.getElem?_eq_getElem (by simpa using hl), List.getElem?_eq_getElem hl, e]
    · rw [List.getElem?_eq_none (by simpa using hl), List.getElem?_eq_none (by simpa using hl)]
  · rw [beq_false_of_ne hp, Bool.false_and, Bool.false_and]

namespace Nat44

@[simp] theorem refresh_wgAddr (nat : Nat44) (k : RevKey) (now : Instant) :
    (nat.refresh k now).wgAddr = nat.wgAddr := by
  unfold refresh; split <;> rfl

theorem translateOut_eq (nat : Nat44) (pkt : Bytes) (now : Instant) :
    nat.translateOut pkt now = .ok (match nat.outClass pkt with
      | .drop => (.drop, nat, pkt)
      | .stateless => (.translate, nat,
          addrRewritten pkt (ihlOf pkt) .src (addr pkt 12) nat.wgAddr none)
      | .forwarded => (.translate, nat,
          addrRewritten pkt (ihlOf pkt) .src (addr pkt 12) nat.wgAddr (some (pkt.getD 9 0)))
      | .keyed key =>
        match nat.bind key now with
        | (none, nat') => (.exhausted, nat', pkt)
        | (some p, nat') => (.translate,
            (nat'.refresh ⟨key.proto, p⟩ now).closeIf (isRst pkt) ⟨key.proto, p⟩,
            outRewritten nat.wgAddr pkt key p)) := by
  unfold translateOut outClass
  rw [Ipv4Hdr.parse_eq, ok_bind]
  by_cases hok : HdrOk pkt
  swap
  · rw [if_neg hok, if_neg fun h => hok h.1]; rfl
  obtain ⟨hl, -, hi, -⟩ := id hok
  rw [if_pos hok]
  dsimp only [hdrOf]
  by_cases hr : routable (addr pkt 16) = true ∧ addr pkt 16 ≠ nat.wgAddr
  swap
  · have hc : (!routable (addr pkt 16) || addr pkt 16 == nat.wgAddr) = true := by
      rcases not_and_or.mp hr with h | h
      · simp [h]
      · simp [not_not.mp h]
    rw [if_pos hc, if_neg fun h => hr h.2]; rfl
  have hc : ¬ (!routable (addr pkt 16) || addr pkt 16 == nat.wgAddr) = true := by
    simp [hr.1, hr.2]
  have hcl : HdrOk pkt ∧ routable (addr pkt 16) = true ∧ addr pkt 16 ≠ nat.wgAddr := ⟨hok, hr⟩
  rw [if_neg hc, if_pos hcl]
  change (if fragOffsetOf pkt ≠ 0 then _ else _) = _
  by_cases hf : fragOffsetOf pkt ≠ 0
  · rw [if_pos hf, if_pos hf, rewriteAddr_eq hl]; rfl
  rw [if_neg hf, if_neg hf, sliceFrom_eq hok.2.2.2, ok_bind, outPorts_eq hok, ok_bind]
  cases outL4 pkt with
  | drop => rfl
  | stateless => dsimp only; rw [rewriteAddr_eq hl]; rfl
  | ports sport dport =>
      change (if nat.forwards ⟨pkt.getD 9 0, addr pkt 12, sport, addr pkt 16, dport⟩ = true then _
        else _) = _
      by_cases hfw : nat.forwards ⟨pkt.getD 9 0, addr pkt 12, sport, addr pkt 16, dport⟩ = true
      · rw [if_pos hfw]
        dsimp only
        rw [if_pos hfw, rewriteAddr_eq hl]
        rfl
      rw [if_neg hfw]
      dsimp only
      rw [if_neg hfw]
      dsimp only
      rcases nat.bind ⟨pkt.getD 9 0, addr pkt 12, sport, addr pkt 16, dport⟩ now with ⟨_ | p, nat'⟩
      · rfl
      · dsimp only
        rw [rewriteAddr_eq hl, ok_bind, rewritePort_eq, ok_bind, hasRst_rewritten hi]
        rfl

end Nat44

/-! ### Inbound packets -/

/-- The L4 header of an inbound packet, as `inPort` reads it. -/
def inL4 (pkt : Bytes) : InL4 :=
  let l4 := ihlOf pkt
  let proto := pkt.getD 9 0
  if isTcpUdp proto then
    if pkt.length < l4 + 8 then .drop else .port (word pkt (l4 + 2))
  else if proto = PROTO_ICMP then
    if pkt.length < l4 + 8 then .drop
    else
      let kind := pkt.getD l4 0
      if kind = 0 then .port (word pkt (l4 + 4))
      else if kind = 3 ∨ kind = 4 ∨ kind = 5 ∨ kind = 11 ∨ kind = 12 then .icmpError
      else .drop
  else .drop

/-- The protocol and destination port of an inbound packet that carries its L4 header; the
identifier, for an echo reply. -/
def inTarget (pkt : Bytes) : Option RevKey :=
  if HdrOk pkt ∧ fragOffsetOf pkt = 0 then
    match inL4 pkt with
    | .port p => some ⟨pkt.getD 9 0, p⟩
    | _ => none
  else none

/-- The forward a TCP or UDP packet for this port belongs to. -/
def Nat44.forwardFor (nat : Nat44) (k : RevKey) : Option Forward :=
  nat.forward.filter fun f => isTcpUdp k.proto && k.port == f.port

/-- The continuation key of a packet's fragments. -/
def fragKeyOf (pkt : Bytes) : FragKey := ⟨addr pkt 12, word pkt 4, pkt.getD 9 0⟩

/-- The more-fragments flag of a packet. -/
def moreFragmentsOf (pkt : Bytes) : Bool := pkt.getD 6 0 &&& 0x20 != 0

inductive InClass where
  | drop
  | fragment (orig : Ipv4Addr)
  | icmpError
  | forwarded (f : Forward)
  | keyed (k : RevKey)
deriving DecidableEq

def Nat44.inClass (nat : Nat44) (pkt : Bytes) : InClass :=
  if HdrOk pkt ∧ addr pkt 16 = nat.wgAddr then
    if fragOffsetOf pkt ≠ 0 then
      match nat.frag.lookup (fragKeyOf pkt) with
      | none => .drop
      | some (orig, _) => .fragment orig
    else match inL4 pkt with
      | .drop => .drop
      | .icmpError => .icmpError
      | .port p =>
        match nat.forwardFor ⟨pkt.getD 9 0, p⟩ with
        | some f => .forwarded f
        | none => .keyed ⟨pkt.getD 9 0, p⟩
  else .drop

/-- Remember where the fragments after a first fragment go. -/
def Nat44.noteFrag (nat : Nat44) (pkt : Bytes) (host : Ipv4Addr) (now : Instant) : Nat44 :=
  if moreFragmentsOf pkt then { nat with frag := nat.frag.insert (fragKeyOf pkt) (host, now) }
  else nat

/-- An inbound packet for port `k`, restored to the endpoint of binding `b`. -/
def inRewritten (wg : Ipv4Addr) (pkt : Bytes) (k : RevKey) (b : Binding) : Bytes :=
  portRewritten (addrRewritten pkt (ihlOf pkt) .dst wg b.src (some k.proto)) (ihlOf pkt) .dst
    k.proto k.port b.sport

theorem inPort_eq {pkt : Bytes} (h : HdrOk pkt) :
    inPort (pkt.getD 9 0) (pkt.drop (ihlOf pkt)) = .ok (inL4 pkt) := by
  unfold inPort inL4
  dsimp only
  by_cases ht : isTcpUdp (pkt.getD 9 0) = true
  · rw [if_pos ht, if_pos ht]
    refine ite_short h fun hl => ?_
    rw [wordAt_l4 hl (by omega)]
    rfl
  rw [if_neg ht, if_neg ht]
  by_cases hi : pkt.getD 9 0 = PROTO_ICMP
  · rw [if_pos hi, if_pos hi]
    refine ite_short h fun hl => ?_
    rw [nth_l4 hl, ok_bind, wordAt_l4 hl (by omega), ok_bind]
    split_ifs <;> rfl
  · rw [if_neg hi, if_neg hi]; rfl

namespace Nat44

@[simp] theorem noteFrag_wgAddr (nat : Nat44) (pkt : Bytes) (host : Ipv4Addr) (now : Instant) :
    (nat.noteFrag pkt host now).wgAddr = nat.wgAddr := by
  unfold noteFrag; split <;> rfl

theorem translateIn_eq (nat : Nat44) (pkt : Bytes) (now : Instant) :
    nat.translateIn pkt now = match nat.inClass pkt with
      | .drop => .ok (.drop, nat, pkt)
      | .fragment orig => .ok (.translate, nat,
          addrRewritten pkt (ihlOf pkt) .dst nat.wgAddr orig none)
      | .icmpError => nat.translateIcmpError pkt (ihlOf pkt) now
      | .forwarded f => .ok (.translate,
          { nat.noteFrag pkt f.host now with
            forwardedIn := min (nat.forwardedIn + 1) 18446744073709551615 },
          addrRewritten pkt (ihlOf pkt) .dst nat.wgAddr f.host (some (pkt.getD 9 0)))
      | .keyed k =>
        match nat.rev.lookup k with
        | none => .ok (.drop, nat, pkt)
        | some b => .ok (.translate,
            ((nat.refresh k now).noteFrag pkt b.src now).closeIf (isRst pkt) k,
            inRewritten nat.wgAddr pkt k b) := by
  unfold translateIn inClass
  rw [Ipv4Hdr.parse_eq, ok_bind]
  by_cases hok : HdrOk pkt
  swap
  · rw [if_neg hok, if_neg fun h => hok h.1]; rfl
  obtain ⟨hl, -, hi, -⟩ := id hok
  rw [if_pos hok]
  dsimp only [hdrOf]
  by_cases hd : addr pkt 16 = nat.wgAddr
  swap
  · rw [if_pos hd, if_neg fun h => hd h.2]; rfl
  have hcl : HdrOk pkt ∧ addr pkt 16 = nat.wgAddr := ⟨hok, hd⟩
  rw [if_neg (not_not.mpr hd), if_pos hcl]
  change (if fragOffsetOf pkt ≠ 0 then _ else _) = _
  by_cases hf : fragOffsetOf pkt ≠ 0
  · rw [if_pos hf, if_pos hf]
    change (match nat.frag.lookup (fragKeyOf pkt) with | none => _ | some (orig, _) => _) = _
    cases nat.frag.lookup (fragKeyOf pkt) with
    | none => rfl
    | some e => dsimp only; rw [rewriteAddr_eq hl, hd]; rfl
  rw [if_neg hf, if_neg hf, sliceFrom_eq hok.2.2.2, ok_bind, inPort_eq hok, ok_bind]
  cases inL4 pkt with
  | drop => rfl
  | icmpError => rfl
  | port p =>
      change (match nat.forwardFor ⟨pkt.getD 9 0, p⟩ with | some f => _ | none => _) = _
      dsimp only
      cases nat.forwardFor ⟨pkt.getD 9 0, p⟩ with
      | some f =>
          dsimp only
          rw [rewriteAddr_eq hl, ok_bind, noteFrag, moreFragmentsOf]
          cases hm : (pkt.getD 6 0 &&& 0x20 != 0) <;> rfl
      | none =>
          dsimp only
          cases hb : nat.rev.lookup ⟨pkt.getD 9 0, p⟩ with
          | none => rfl
          | some b =>
              dsimp only
              have hn : ((nat.refresh ⟨pkt.getD 9 0, p⟩ now).noteFrag pkt b.src now).wgAddr =
                  nat.wgAddr := by rw [noteFrag_wgAddr, refresh_wgAddr]
              change rewriteAddr pkt (ihlOf pkt) .dst
                ((nat.refresh ⟨pkt.getD 9 0, p⟩ now).noteFrag pkt b.src now).wgAddr b.src
                (some (pkt.getD 9 0)) >>= _ = _
              rw [rewriteAddr_eq hl, ok_bind, rewritePort_eq, ok_bind, hasRst_rewritten hi, hn]
              rfl

end Nat44

/-! ### ICMP errors -/

/-- The protocol and source port of the packet an ICMP error quotes, if it carries them; the
identifier, for an echo request. -/
def quoteTarget (pkt : Bytes) : Option RevKey :=
  let inner := pkt.drop (ihlOf pkt + 8)
  let l4 := ihlOf inner
  let proto := inner.getD 9 0
  if HdrOk inner then
    if isTcpUdp proto then
      if inner.length < l4 + 2 then none else some ⟨proto, word inner l4⟩
    else if proto = PROTO_ICMP then
      if inner.length < l4 + 8 then none
      else if inner.getD l4 0 = 8 then some ⟨proto, word inner (l4 + 4)⟩
      else none
    else none
  else none

/-- What an ICMP error quotes, if the quote is of a packet the NAT emitted. -/
def Nat44.quoted (nat : Nat44) (pkt : Bytes) : Option RevKey :=
  if addr (pkt.drop (ihlOf pkt + 8)) 12 = nat.wgAddr then quoteTarget pkt else none

/-- An ICMP error with its quote restored to an endpoint, its checksum computed afresh. -/
def errorRewritten (wg : Ipv4Addr) (pkt : Bytes) (k : RevKey) (host : Ipv4Addr) (hport : UInt16) :
    Bytes :=
  let ihl := ihlOf pkt
  let inner := pkt.drop (ihl + 8)
  let quote := portRewritten (addrRewritten inner (ihlOf inner) .src wg host (some k.proto))
    (ihlOf inner) .src k.proto k.port hport
  let pkt := addrRewritten (pkt.take (ihl + 8) ++ quote) ihl .dst wg host none
  let icmp := splice (splice (pkt.drop ihl) 2 [0]) 3 [0]
  pkt.take ihl ++ splice icmp 2 (beBytes (checksum icmp))

theorem getRange_drop {pkt : Bytes} {q i n : ℕ} (hq : q ≤ pkt.length) :
    getRange pkt (q + i) (q + i + n) =
      if (pkt.drop q).length < i + n then none else some (((pkt.drop q).drop i).take n) := by
  rw [getRange, List.length_drop, List.drop_drop, Nat.add_sub_cancel_left]
  by_cases h : pkt.length - q < i + n
  · rw [if_neg (by omega), if_pos h]
  · rw [if_pos (by omega), if_neg h]

theorem word_take_drop {b : Bytes} {i j n : ℕ} (hj : j + 2 ≤ n) :
    word ((b.drop i).take n) j = word b (i + j) := by
  have e : ∀ k, k < n → ((b.drop i).take n).getD k 0 = b.getD (i + k) 0 := by
    intro k hk
    simp [List.getD_eq_getElem?_getD, hk]
  rw [word, word, e _ (by omega), e _ (by omega), Nat.add_assoc]

theorem quotePort_eq {pkt : Bytes} (hq : ihlOf pkt + 8 ≤ pkt.length)
    (hi : HdrOk (pkt.drop (ihlOf pkt + 8))) :
    quotePort ((pkt.drop (ihlOf pkt + 8)).getD 9 0) pkt
        (ihlOf pkt + 8 + ihlOf (pkt.drop (ihlOf pkt + 8))) =
      .ok ((quoteTarget pkt).map (·.port)) := by
  unfold quotePort quoteTarget
  dsimp only
  rw [if_pos hi, getRange_drop hq, getRange_drop hq]
  generalize pkt.drop (ihlOf pkt + 8) = inner at hi ⊢
  have hlen : ∀ n, ¬ inner.length < ihlOf inner + n →
      ((inner.drop (ihlOf inner)).take n).length = n := by
    intro n h
    rw [List.length_take, List.length_drop]; omega
  by_cases ht : isTcpUdp (inner.getD 9 0) = true
  · rw [if_pos ht, if_pos ht]
    by_cases hl : inner.length < ihlOf inner + 2
    · rw [if_pos hl, if_pos hl]; rfl
    · rw [if_neg hl, if_neg hl]
      dsimp only
      rw [wordAt_eq (by rw [hlen 2 hl]), word_take_drop (by omega)]
      rfl
  rw [if_neg ht, if_neg ht]
  by_cases hp : inner.getD 9 0 = PROTO_ICMP
  · rw [if_pos hp, if_pos hp]
    by_cases hl : inner.length < ihlOf inner + 8
    · rw [if_pos hl, if_pos hl]; rfl
    · have h0 : nth ((inner.drop (ihlOf inner)).take 8) 0 = .ok (inner.getD (ihlOf inner) 0) := by
        rw [nth_eq (by rw [hlen 8 hl]; omega) 0]
        simp [List.getD_eq_getElem?_getD]
      rw [if_neg hl, if_neg hl]
      dsimp only
      rw [h0, ok_bind]
      by_cases he : inner.getD (ihlOf inner) 0 = 8
      · rw [if_pos he, if_pos he, wordAt_eq (by rw [hlen 8 hl]; omega), word_take_drop (by omega)]
        rfl
      · rw [if_neg he, if_neg he]; rfl
  · rw [if_neg hp, if_neg hp]; rfl

theorem quoteTarget_proto {pkt : Bytes} {k : RevKey} (h : quoteTarget pkt = some k) :
    HdrOk (pkt.drop (ihlOf pkt + 8)) ∧ k.proto = (pkt.drop (ihlOf pkt + 8)).getD 9 0 := by
  unfold quoteTarget at h
  dsimp only at h
  split_ifs at h with hi <;> cases h <;> exact ⟨hi, rfl⟩

namespace Nat44

theorem resolveQuote_wgAddr (nat : Nat44) (proto : UInt8) (port : UInt16) (now : Instant) :
    (nat.resolveQuote proto port now).2.wgAddr = nat.wgAddr := by
  unfold resolveQuote
  split
  · rfl
  · split
    · exact refresh_wgAddr _ _ _
    · rfl

theorem translateIcmpError_eq (nat : Nat44) {pkt : Bytes} (now : Instant) (h : HdrOk pkt)
    (hq : ihlOf pkt + 8 ≤ pkt.length) :
    nat.translateIcmpError pkt (ihlOf pkt) now = .ok (match nat.quoted pkt with
      | none => (.drop, nat, pkt)
      | some k =>
        match nat.resolveQuote k.proto k.port now with
        | (none, nat') => (.drop, nat', pkt)
        | (some (host, hport), nat') => (.translate, nat',
            errorRewritten nat.wgAddr pkt k host hport)) := by
  unfold translateIcmpError quoted
  dsimp only
  rw [getFrom, if_pos hq]
  dsimp only
  rw [Ipv4Hdr.parse_eq, ok_bind]
  by_cases hi : HdrOk (pkt.drop (ihlOf pkt + 8))
  swap
  · have hn : quoteTarget pkt = none := by rw [quoteTarget, if_neg hi]
    rw [if_neg hi, hn, ite_self]
    rfl
  rw [if_pos hi]
  dsimp only [hdrOf]
  by_cases hs : addr (pkt.drop (ihlOf pkt + 8)) 12 = nat.wgAddr
  swap
  · rw [if_pos hs, if_neg hs]; rfl
  rw [if_neg (not_not.mpr hs), if_pos hs, quotePort_eq hq hi, ok_bind]
  cases hk : quoteTarget pkt with
  | none => rfl
  | some k =>
      obtain ⟨-, hp⟩ := quoteTarget_proto hk
      dsimp only [Option.map_some]
      rw [← hp]
      have hw := resolveQuote_wgAddr nat k.proto k.port now
      rcases hr : nat.resolveQuote k.proto k.port now with ⟨_ | ⟨host, hport⟩, nat'⟩
      · rfl
      · rw [hr] at hw
        have hl : (pkt.drop (ihlOf pkt + 8)).length = pkt.length - (ihlOf pkt + 8) :=
          List.length_drop
        have hil := hi.1
        have h20 := h.2.2.1
        dsimp only at hw ⊢
        rw [sliceFrom_eq hq, ok_bind, hw, rewriteAddr_eq hil, ok_bind, rewritePort_eq, ok_bind,
          rewriteAddr_eq (by simp; omega), ok_bind, sliceFrom_eq (by simp; omega), ok_bind,
          copyFromSlice_eq (by simp; omega), ok_bind, copyFromSlice_eq (by simp; omega), ok_bind,
          copyFromSlice_eq (by simp; omega), ok_bind]
        rfl

/-! ### Reading the classes -/

/-- The packets that leave through a binding of tuple `key`. -/
theorem outClass_keyed_iff {nat : Nat44} {pkt : Bytes} {key : FwdKey} :
    nat.outClass pkt = .keyed key ↔
      outTuple pkt = some key ∧ routable key.dst = true ∧ key.dst ≠ nat.wgAddr ∧
        nat.forwards key = false := by
  unfold outClass outTuple
  by_cases hok : HdrOk pkt
  swap
  · simp [hok]
  by_cases hf : fragOffsetOf pkt = 0
  swap
  · simp only [hok, hf, ne_eq, not_false_eq_true, if_true, true_and, and_false, if_false]
    split_ifs <;> simp
  simp only [hok, hf, ne_eq, not_true_eq_false, if_false, true_and, and_self, if_true]
  cases outL4 pkt with
  | drop => simp
  | stateless => dsimp only; split_ifs <;> simp
  | ports sport dport =>
      dsimp only
      simp only [Option.some.injEq]
      constructor
      · intro h
        split_ifs at h with hr hw
        cases h
        exact ⟨rfl, hr.1, hr.2, by simpa using hw⟩
      · rintro ⟨rfl, hr, hd, hw⟩
        rw [if_pos ⟨hr, hd⟩, if_neg (Bool.not_eq_true _ ▸ hw)]

/-- The packets that enter through binding `k`. -/
theorem inClass_keyed_iff {nat : Nat44} {pkt : Bytes} {k : RevKey} :
    nat.inClass pkt = .keyed k ↔
      inTarget pkt = some k ∧ addr pkt 16 = nat.wgAddr ∧ nat.forwardFor k = none := by
  unfold inClass inTarget
  by_cases hok : HdrOk pkt
  swap
  · simp [hok]
  by_cases hf : fragOffsetOf pkt = 0
  swap
  · simp only [hok, hf, ne_eq, not_false_eq_true, if_true, true_and, and_false, if_false]
    split
    · split <;> simp
    · simp
  simp only [hok, hf, ne_eq, not_true_eq_false, if_false, true_and, and_self, if_true]
  cases inL4 pkt with
  | drop => simp
  | icmpError => dsimp only; split_ifs <;> simp
  | port p =>
      dsimp only
      simp only [Option.some.injEq]
      constructor
      · intro h
        split_ifs at h with hd
        split at h
        · cases h
        · next hn =>
            cases h
            exact ⟨rfl, hd, hn⟩
      · rintro ⟨rfl, hd, hn⟩
        rw [if_pos hd, hn]

theorem inClass_icmpError_iff {nat : Nat44} {pkt : Bytes} :
    nat.inClass pkt = .icmpError ↔
      HdrOk pkt ∧ addr pkt 16 = nat.wgAddr ∧ fragOffsetOf pkt = 0 ∧ inL4 pkt = .icmpError := by
  unfold inClass
  by_cases hok : HdrOk pkt ∧ addr pkt 16 = nat.wgAddr
  swap
  · rw [if_neg hok]
    exact iff_of_false nofun fun h => hok ⟨h.1, h.2.1⟩
  rw [if_pos hok]
  by_cases hf : fragOffsetOf pkt = 0
  swap
  · rw [if_pos hf]
    refine iff_of_false ?_ fun h => hf h.2.2.1
    split <;> nofun
  rw [if_neg (not_not.mpr hf)]
  cases inL4 pkt with
  | drop => exact iff_of_false nofun fun h => by cases h.2.2.2
  | icmpError => exact iff_of_true rfl ⟨hok.1, hok.2, hf, rfl⟩
  | port p =>
      refine iff_of_false ?_ fun h => by cases h.2.2.2
      dsimp only
      split <;> nofun

theorem inClass_icmpError {nat : Nat44} {pkt : Bytes} (h : nat.inClass pkt = .icmpError) :
    HdrOk pkt ∧ ihlOf pkt + 8 ≤ pkt.length := by
  obtain ⟨hok, -, -, hl⟩ := inClass_icmpError_iff.mp h
  refine ⟨hok, ?_⟩
  by_contra hlt
  have hn : inL4 pkt = .drop := by
    unfold inL4
    dsimp only
    split_ifs <;> first | rfl | omega
  rw [hn] at hl
  cases hl

/-! ### What a call does to the tables -/

/-- The tables, the cursor, the forward and the address: all but the fragment map and the counter
of forwarded packets. -/
def SameTables (nat nat' : Nat44) : Prop :=
  nat'.wgAddr = nat.wgAddr ∧ nat'.fwd = nat.fwd ∧ nat'.rev = nat.rev ∧
    nat'.nextPort = nat.nextPort ∧ nat'.forward = nat.forward

theorem SameTables.rfl {nat : Nat44} : SameTables nat nat :=
  ⟨Eq.refl _, Eq.refl _, Eq.refl _, Eq.refl _, Eq.refl _⟩

theorem noteFrag_sameTables (nat : Nat44) (pkt : Bytes) (host : Ipv4Addr) (now : Instant) :
    SameTables nat (nat.noteFrag pkt host now) := by
  unfold noteFrag; split <;> exact SameTables.rfl

/-- An outbound packet goes through the binding of its tuple, fails to open one, or leaves the NAT
as it was. -/
theorem translateOut_cases {nat nat' : Nat44} {pkt pkt' : Bytes} {now : Instant} {v : Verdict}
    (e : nat.translateOut pkt now = .ok (v, nat', pkt')) :
    ((∀ key, nat.outClass pkt ≠ .keyed key) ∧ nat' = nat) ∨
    (∃ key, nat.outClass pkt = .keyed key ∧ nat.bind key now = (none, nat') ∧
      v = .exhausted ∧ pkt' = pkt) ∨
    (∃ key p nat₁, nat.outClass pkt = .keyed key ∧ nat.bind key now = (some p, nat₁) ∧
      v = .translate ∧ pkt' = outRewritten nat.wgAddr pkt key p ∧
      nat' = (nat₁.refresh ⟨key.proto, p⟩ now).closeIf (isRst pkt) ⟨key.proto, p⟩) := by
  rw [translateOut_eq] at e
  cases hc : nat.outClass pkt with
  | drop => rw [hc] at e; cases e; exact .inl ⟨nofun, rfl⟩
  | stateless => rw [hc] at e; cases e; exact .inl ⟨nofun, rfl⟩
  | forwarded => rw [hc] at e; cases e; exact .inl ⟨nofun, rfl⟩
  | keyed key =>
      rw [hc] at e
      dsimp only at e
      rcases hn : nat.bind key now with ⟨_ | p, nat₁⟩
      · rw [hn] at e; cases e; exact .inr (.inl ⟨key, rfl, hn, rfl, rfl⟩)
      · rw [hn] at e; cases e; exact .inr (.inr ⟨key, p, nat₁, rfl, hn, rfl, rfl, rfl⟩)

theorem resolveQuote_eq (nat : Nat44) (k : RevKey) (now : Instant) :
    nat.resolveQuote k.proto k.port now = match nat.forwardFor k with
      | some f => (some (f.host, f.port), nat)
      | none =>
        match nat.rev.lookup k with
        | some b => (some (b.src, b.sport), nat.refresh k now)
        | none => (none, nat) := rfl

/-- An ICMP error names a binding, which it refreshes, or leaves the NAT as it was. -/
theorem resolveQuote_cases (nat : Nat44) (k : RevKey) (now : Instant) :
    (nat.resolveQuote k.proto k.port now).2 = nat ∨
    (∃ b, nat.forwardFor k = none ∧ nat.rev.lookup k = some b ∧
      (nat.resolveQuote k.proto k.port now).2 = nat.refresh k now) := by
  rw [resolveQuote_eq]
  cases hf : nat.forwardFor k with
  | some f => exact .inl rfl
  | none =>
      dsimp only
      cases hb : nat.rev.lookup k with
      | none => exact .inl rfl
      | some b => exact .inr ⟨b, rfl, rfl, rfl⟩

/-- An inbound packet for a port, by what holds the port. -/
theorem translateIn_target {nat : Nat44} {pkt : Bytes} {k : RevKey} (hk : inTarget pkt = some k)
    (ha : addr pkt 16 = nat.wgAddr) (hf : nat.forwardFor k = none) (now : Instant) :
    nat.translateIn pkt now = match nat.rev.lookup k with
      | none => .ok (.drop, nat, pkt)
      | some b => .ok (.translate,
          ((nat.refresh k now).noteFrag pkt b.src now).closeIf (isRst pkt) k,
          inRewritten nat.wgAddr pkt k b) := by
  rw [translateIn_eq, inClass_keyed_iff.mpr ⟨hk, ha, hf⟩]

/-- An ICMP error about a binding is translated, and refreshes it. -/
theorem translateIn_error {nat : Nat44} {pkt : Bytes} {k : RevKey} {b : Binding}
    (hc : nat.inClass pkt = .icmpError) (hq : nat.quoted pkt = some k)
    (hf : nat.forwardFor k = none) (hb : nat.rev.lookup k = some b) (now : Instant) :
    nat.translateIn pkt now = .ok (.translate, nat.refresh k now,
      errorRewritten nat.wgAddr pkt k b.src b.sport) := by
  obtain ⟨hok, hl⟩ := inClass_icmpError hc
  rw [translateIn_eq, hc]
  dsimp only
  rw [translateIcmpError_eq nat now hok hl, hq]
  dsimp only
  rw [resolveQuote_eq, hf]
  dsimp only
  rw [hb]

/-- An inbound packet goes through the binding of its port, is an ICMP error about one, or leaves
the tables as they were. -/
theorem translateIn_cases {nat nat' : Nat44} {pkt pkt' : Bytes} {now : Instant} {v : Verdict}
    (e : nat.translateIn pkt now = .ok (v, nat', pkt')) :
    SameTables nat nat' ∨
    (∃ k b, nat.inClass pkt = .icmpError ∧ nat.quoted pkt = some k ∧ nat.forwardFor k = none ∧
      nat.rev.lookup k = some b ∧ nat' = nat.refresh k now) ∨
    (∃ k b, nat.inClass pkt = .keyed k ∧ nat.rev.lookup k = some b ∧ v = .translate ∧
      pkt' = inRewritten nat.wgAddr pkt k b ∧
      nat' = ((nat.refresh k now).noteFrag pkt b.src now).closeIf (isRst pkt) k) := by
  rw [translateIn_eq] at e
  cases hc : nat.inClass pkt with
  | drop => rw [hc] at e; cases e; exact .inl SameTables.rfl
  | fragment orig => rw [hc] at e; cases e; exact .inl SameTables.rfl
  | icmpError =>
      obtain ⟨hok, hl⟩ := inClass_icmpError hc
      rw [hc] at e
      dsimp only at e
      rw [translateIcmpError_eq nat now hok hl] at e
      cases hq : nat.quoted pkt with
      | none => rw [hq] at e; cases e; exact .inl SameTables.rfl
      | some k =>
          rw [hq] at e
          dsimp only at e
          have hn' : nat' = (nat.resolveQuote k.proto k.port now).2 := by
            rcases hn : nat.resolveQuote k.proto k.port now with ⟨_ | ⟨host, hport⟩, nat₁⟩ <;>
              rw [hn] at e <;> cases e <;> rfl
          rcases nat.resolveQuote_cases k now with h | ⟨b, hf, hb, h⟩
          · rw [hn', h]; exact .inl SameTables.rfl
          · exact .inr (.inl ⟨k, b, rfl, rfl, hf, hb, hn'.trans h⟩)
  | forwarded f =>
      rw [hc] at e
      cases e
      exact .inl (nat.noteFrag_sameTables pkt f.host now)
  | keyed k =>
      rw [hc] at e
      dsimp only at e
      cases hb : nat.rev.lookup k with
      | none => rw [hb] at e; cases e; exact .inl SameTables.rfl
      | some b => rw [hb] at e; cases e; exact .inr (.inr ⟨k, b, rfl, hb, rfl, rfl, rfl⟩)

/-- No call panics. -/
theorem call_total (nat : Nat44) (op : NatOp) : ∃ out nat', nat.call op = .ok (out, nat') := by
  cases op with
  | setForward host port => exact ⟨_, _, rfl⟩
  | clearForward => exact ⟨_, _, rfl⟩
  | translateOut pkt now =>
      rw [call, translateOut_eq, ok_bind]
      exact ⟨_, _, rfl⟩
  | translateIn pkt now =>
      have h : ∃ r, nat.translateIn pkt now = .ok r := by
        rw [translateIn_eq]
        cases hc : nat.inClass pkt with
        | icmpError =>
            obtain ⟨hok, hl⟩ := inClass_icmpError hc
            exact ⟨_, translateIcmpError_eq nat now hok hl⟩
        | keyed k =>
            dsimp only
            split <;> exact ⟨_, rfl⟩
        | _ => exact ⟨_, rfl⟩
      obtain ⟨r, h⟩ := h
      rw [call, h, ok_bind]
      exact ⟨_, _, rfl⟩
  | expire now => exact ⟨_, _, rfl⟩

end Nat44

end Tunnel.Wg
