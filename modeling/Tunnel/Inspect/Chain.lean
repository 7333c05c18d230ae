import Tunnel.Inspect.Parse

/-!
# Inspect — The chain of extension headers

Where a packet's transport header is: for IPv6 at the end of the chain of extension headers, each of
which says what follows it and, in units of its own, how long it is.

* `Link`, `Chain`: one header of the chain, wholly inside the packet, and what the headers lead to.
  `Link.advances`: a header leads on by eight bytes or more.
* `hopAt`, `chase_succ`: what a turn of the loop of `parse_v6` finds, and what it does with it.
* `chase_ends`: the loop ends where the chain does.
* `parse_finds_transport`: the ports are those of the header there.
-/

namespace Tunnel.Inspect
open Support

/-! ### The chain -/

/-- `pkt[i]`, where the packet has it. -/
def byte (pkt : Bytes) (i : ℕ) : UInt8 := pkt.getD i 0

/-- The length of the extension header of this kind at `off`, if it is one. -/
def headerLength (pkt : Bytes) (kind : UInt8) (off : ℕ) : Option ℕ :=
  -- Hop-by-Hop, Routing, Destination Options: in units of 8 bytes, not counting the first
  if kind = 0 ∨ kind = 43 ∨ kind = 60 then some (((byte pkt (off + 1)).toNat + 1) * 8)
  -- Fragment
  else if kind = 44 then some 8
  -- Authentication Header: in units of 4 bytes, not counting the first two
  else if kind = 51 then some (((byte pkt (off + 1)).toNat + 2) * 4)
  else none

/-- The offset of a fragment in what it is a fragment of, in units of 8 bytes. -/
def fragmentOffset (pkt : Bytes) (off : ℕ) : UInt16 := word pkt (off + 2) >>> 3

/-- A header of this kind at `off`, wholly inside the packet, and what follows it.  A fragment that is
not the first is followed by nothing. -/
inductive Link (pkt : Bytes) (kind : UInt8) (off : ℕ) : UInt8 → ℕ → Prop where
  | mk {len : ℕ} (hlen : headerLength pkt kind off = some len) (hin : off + len ≤ pkt.length)
      (hfirst : kind = 44 → fragmentOffset pkt off = 0) : Link pkt kind off (byte pkt off) (off + len)

/-- The headers from the one of this kind at `off` on lead to another. -/
inductive Chain (pkt : Bytes) : UInt8 → ℕ → UInt8 → ℕ → Prop where
  | refl (kind : UInt8) (off : ℕ) : Chain pkt kind off kind off
  | next {kind kind₁ kind' : UInt8} {off off₁ off' : ℕ} (h : Link pkt kind off kind₁ off₁)
      (t : Chain pkt kind₁ off₁ kind' off') : Chain pkt kind off kind' off'

variable {pkt : Bytes} {kind kind₁ kind₂ next : UInt8} {off off₁ off₂ off' : ℕ}

theorem le_headerLength {len : ℕ} (h : headerLength pkt kind off = some len) : 8 ≤ len := by
  unfold headerLength at h
  split_ifs at h <;> cases h <;> omega

theorem Link.advances (h : Link pkt kind off next off') : off + 8 ≤ off' ∧ off' ≤ pkt.length := by
  cases h with
  | mk hlen hin _ =>
      have hle := le_headerLength hlen
      exact ⟨by omega, hin⟩

theorem Link.unique (h₁ : Link pkt kind off kind₁ off₁) (h₂ : Link pkt kind off kind₂ off₂) :
    kind₁ = kind₂ ∧ off₁ = off₂ := by
  cases h₁ with
  | mk hlen _ _ =>
      cases h₂ with
      | mk hlen' _ _ =>
          rw [hlen] at hlen'
          cases hlen'
          exact ⟨rfl, rfl⟩

/-- A chain stops where no header leads on. -/
def Stops (pkt : Bytes) (kind : UInt8) (off : ℕ) : Prop := ∀ next off', ¬ Link pkt kind off next off'

/-- There is one place where a chain stops. -/
theorem Chain.unique (h₁ : Chain pkt kind off kind₁ off₁) (hs₁ : Stops pkt kind₁ off₁)
    (h₂ : Chain pkt kind off kind₂ off₂) (hs₂ : Stops pkt kind₂ off₂) :
    kind₁ = kind₂ ∧ off₁ = off₂ := by
  induction h₁ with
  | refl =>
      cases h₂ with
      | refl => exact ⟨rfl, rfl⟩
      | next h => exact absurd h (hs₁ _ _)
  | next h _ ih =>
      cases h₂ with
      | refl => exact absurd h (hs₂ _ _)
      | next h' t' =>
          obtain ⟨rfl, rfl⟩ := h.unique h'
          exact ih hs₁ t'

theorem stops_of_headerLength (h : headerLength pkt kind off = none) : Stops pkt kind off := by
  rintro next off' ⟨hlen, -, -⟩
  rw [h] at hlen
  cases hlen

theorem stops_of_fragment (h : fragmentOffset pkt off ≠ 0) : Stops pkt 44 off := by
  rintro next off' ⟨-, -, hfirst⟩
  exact h (hfirst rfl)

/-! ### A turn of the loop -/

/-- What a turn of the loop finds. -/
inductive Hop where
  | on (next : UInt8) (off : ℕ)
  | cut
  | fragment
  | transport

def hopAt (pkt : Bytes) (kind : UInt8) (off : ℕ) : Hop :=
  match headerLength pkt kind off with
  | none => .transport
  | some len =>
    if pkt.length < off + len then .cut
    else if kind = 44 ∧ fragmentOffset pkt off ≠ 0 then .fragment
    else .on (byte pkt off) (off + len)

theorem hopAt_on_iff : hopAt pkt kind off = .on next off' ↔ Link pkt kind off next off' := by
  unfold hopAt
  constructor
  · intro h
    split at h
    · cases h
    · next len hlen =>
        split_ifs at h with hin hfrag
        cases h
        exact .mk hlen (Nat.not_lt.mp hin) fun hk => by_contra fun hf => hfrag ⟨hk, hf⟩
  · rintro ⟨hlen, hin, hfirst⟩
    rw [hlen]
    dsimp only
    rw [if_neg (Nat.not_lt.mpr hin), if_neg fun hf => hf.2 (hfirst hf.1)]

/-- A header that runs off the packet, or leads on. -/
theorem hopAt_of_length {len : ℕ} (hlen : headerLength pkt kind off = some len) (hk : kind ≠ 44) :
    hopAt pkt kind off =
      if pkt.length < off + len then .cut else .on (byte pkt off) (off + len) := by
  rw [hopAt, hlen]
  dsimp only
  rw [if_neg fun h : kind = 44 ∧ _ => hk h.1]

/-- A header whose length is read, in whichever unit. -/
theorem sized_hop {α : Type} {len : ℕ} {f : UInt8 → ℕ} {done : Checked α}
    {go : UInt8 → ℕ → Checked α} (hle : 8 ≤ len) (hf : f (byte pkt (off + 1)) = len) :
    (if pkt.length < off + 8 then done else do
      let b ← nth pkt (off + 1)
      if pkt.length < off + f b then done else go (← nth pkt off) (off + f b)) =
      if pkt.length < off + len then done else go (byte pkt off) (off + len) := by
  by_cases h : pkt.length < off + 8
  · rw [if_pos h, if_pos (by omega)]
  · have hb : f (pkt.getD (off + 1) 0) = len := hf
    rw [if_neg h, nth_eq (by omega) 0, nth_eq (by omega) 0, ok_bind, ok_bind, hb]
    rfl

variable [Entropy]

/-- One turn, and the others. -/
theorem chase_succ (srcIp dstIp : IpAddr) (fuel : ℕ) (ho : off ≤ pkt.length) :
    chase srcIp dstIp pkt (fuel + 1) kind off =
      match hopAt pkt kind off with
      | .on next off' => chase srcIp dstIp pkt fuel next off'
      | .cut => .ok none
      | .fragment => finish srcIp dstIp 44 [] pkt.length
      | .transport => finish srcIp dstIp kind (pkt.drop off) pkt.length := by
  rw [chase]
  by_cases hopts : kind = 0 ∨ kind = 43 ∨ kind = 60
  · have hlen : headerLength pkt kind off = some (((byte pkt (off + 1)).toNat + 1) * 8) :=
      if_pos hopts
    have hk : kind ≠ 44 := by rcases hopts with rfl | rfl | rfl <;> decide
    rw [if_pos hopts, hopAt_of_length hlen hk]
    refine (sized_hop (le_headerLength hlen) (f := fun b => 8 + b.toNat * 8) (by omega)).trans ?_
    split <;> rfl
  rw [if_neg hopts]
  by_cases hfrag : kind = 44
  · have hlen : headerLength pkt kind off = some 8 := by
      rw [headerLength, if_neg hopts, if_pos hfrag]
    rw [if_pos hfrag, hopAt, hlen]
    dsimp only
    by_cases hin : pkt.length < off + 8
    · rw [if_pos hin, if_pos hin]
      rfl
    have hword : word pkt (off + 2) >>> 3 = fragmentOffset pkt off := rfl
    rw [if_neg hin, if_neg hin, wordAt_eq (by omega), ok_bind, nth_eq (by omega) 0, ok_bind, hword]
    by_cases hf : fragmentOffset pkt off = 0
    · rw [if_neg fun h => h hf, if_neg fun h => h.2 hf]
      rfl
    · rw [if_pos hf, if_pos ⟨hfrag, hf⟩]
  rw [if_neg hfrag]
  by_cases hauth : kind = 51
  · have hlen : headerLength pkt kind off = some (((byte pkt (off + 1)).toNat + 2) * 4) := by
      rw [headerLength, if_neg hopts, if_neg hfrag, if_pos hauth]
    rw [if_pos hauth, hopAt_of_length hlen hfrag]
    refine (sized_hop (le_headerLength hlen) (f := fun b => (b.toNat + 2) * 4) rfl).trans ?_
    split <;> rfl
  · have hlen : headerLength pkt kind off = none := by
      rw [headerLength, if_neg hopts, if_neg hfrag, if_neg hauth]
    rw [if_neg hauth, hopAt, hlen, sliceFrom_eq ho, ok_bind]

/-! ### The end of the loop -/

/-- The loop ends where the chain stops: at a header that runs off the packet, at a fragment that is
not the first, or at a header that is no extension. -/
theorem chase_ends (srcIp dstIp : IpAddr) {fuel : ℕ} (kind : UInt8) (ho : off ≤ pkt.length)
    (hf : pkt.length < off + fuel) :
    ∃ kind' off', Chain pkt kind off kind' off' ∧ Stops pkt kind' off' ∧ off' ≤ pkt.length ∧
      chase srcIp dstIp pkt fuel kind off =
        match hopAt pkt kind' off' with
        | .on _ _ => .error .outOfFuel
        | .cut => .ok none
        | .fragment => finish srcIp dstIp 44 [] pkt.length
        | .transport => finish srcIp dstIp kind' (pkt.drop off') pkt.length := by
  induction fuel generalizing kind off with
  | zero => omega
  | succ fuel ih =>
      rw [chase_succ srcIp dstIp fuel ho]
      cases hh : hopAt pkt kind off with
      | cut | fragment | transport =>
          refine ⟨kind, off, .refl kind off, fun next off' h => ?_, ho, by rw [hh]⟩
          rw [← hopAt_on_iff, hh] at h
          cases h
      | on next off₁ =>
          have hlink := hopAt_on_iff.mp hh
          obtain ⟨hadv, hle⟩ := hlink.advances
          obtain ⟨kind', off', hchain, hstops, hle', heq⟩ := ih next hle (by omega)
          exact ⟨kind', off', .next hlink hchain, hstops, hle', heq⟩

/-- A turn that goes on goes on at the next header of the chain, further into the packet. -/
def Advances (srcIp dstIp : IpAddr) (pkt : Bytes) (kind : UInt8) (off : ℕ) : Prop :=
  (∃ r, Returns r ∧ ∀ fuel, chase srcIp dstIp pkt (fuel + 1) kind off = r) ∨
    ∃ next off', Link pkt kind off next off' ∧ off < off' ∧ off' ≤ pkt.length ∧
      ∀ fuel, chase srcIp dstIp pkt (fuel + 1) kind off = chase srcIp dstIp pkt fuel next off'

theorem chase_advances (srcIp dstIp : IpAddr) (kind : UInt8) (ho : off ≤ pkt.length) :
    Advances srcIp dstIp pkt kind off := by
  cases hh : hopAt pkt kind off with
  | cut => exact .inl ⟨_, .ok none, fun fuel => by rw [chase_succ srcIp dstIp fuel ho, hh]⟩
  | fragment =>
      exact .inl ⟨_, returns_finish srcIp dstIp 44 [] pkt.length,
        fun fuel => by rw [chase_succ srcIp dstIp fuel ho, hh]⟩
  | transport =>
      exact .inl ⟨_, returns_finish srcIp dstIp kind (pkt.drop off) pkt.length,
        fun fuel => by rw [chase_succ srcIp dstIp fuel ho, hh]⟩
  | on next off' =>
      have hlink := hopAt_on_iff.mp hh
      obtain ⟨hadv, hle⟩ := hlink.advances
      exact .inr ⟨next, off', hlink, by omega, hle,
        fun fuel => by rw [chase_succ srcIp dstIp fuel ho, hh]⟩

/-! ### The packet -/

/-- The protocol of a packet's transport header, and its offset. -/
inductive TransportAt (pkt : Bytes) : UInt8 → ℕ → Prop where
  | v4 (hversion : byte pkt 0 >>> 4 = 4) (hihl : 20 ≤ (byte pkt 0 &&& 0x0f).toNat * 4)
      (hin : (byte pkt 0 &&& 0x0f).toNat * 4 ≤ pkt.length) :
      TransportAt pkt (byte pkt 9) ((byte pkt 0 &&& 0x0f).toNat * 4)
  | v6 {kind : UInt8} {off : ℕ} (hversion : byte pkt 0 >>> 4 = 6) (hin : 40 ≤ pkt.length)
      (chain : Chain pkt (byte pkt 6) 40 kind off) (hend : headerLength pkt kind off = none) :
      TransportAt pkt kind off

omit [Entropy] in
/-- A packet has one transport header at most. -/
theorem TransportAt.unique {proto₁ proto₂ : UInt8} (h₁ : TransportAt pkt proto₁ off₁)
    (h₂ : TransportAt pkt proto₂ off₂) : proto₁ = proto₂ ∧ off₁ = off₂ := by
  cases h₁ with
  | v4 hv =>
      cases h₂ with
      | v4 => exact ⟨rfl, rfl⟩
      | v6 hv' => rw [hv] at hv'; cases hv'
  | v6 hv _ hchain hend =>
      cases h₂ with
      | v4 hv' => rw [hv] at hv'; cases hv'
      | v6 _ _ hchain' hend' =>
          exact hchain.unique (stops_of_headerLength hend) hchain' (stops_of_headerLength hend')

/-- The chain of an IPv6 packet reaches a fragment that is not the first. -/
structure FragmentAt (pkt : Bytes) (off : ℕ) : Prop where
  version : byte pkt 0 >>> 4 = 6
  header : 40 ≤ pkt.length
  chain : Chain pkt (byte pkt 6) 40 44 off
  inside : off + 8 ≤ pkt.length
  later : fragmentOffset pkt off ≠ 0

/-- What the packet's version makes of it. -/
theorem parse_eq (hlen : 0 < pkt.length) :
    parse pkt = if byte pkt 0 >>> 4 = 4 then parseV4 pkt
      else if byte pkt 0 >>> 4 = 6 then parseV6 pkt else .ok none := by
  have hne : ¬ pkt.isEmpty = true := by simpa using List.length_pos_iff.mp hlen
  rw [parse, if_neg hne, nth_eq hlen 0, ok_bind]
  rfl

theorem parseV6_eq (hlen : 40 ≤ pkt.length) : ∃ srcIp dstIp,
    parseV6 pkt = chase srcIp dstIp pkt (pkt.length + 1) (byte pkt 6) 40 := by
  rw [parseV6, if_neg (Nat.not_lt.mpr hlen), addr6At, addr6At, dif_pos (by omega),
    dif_pos (by omega), ok_bind, ok_bind, nth_eq (by omega) 0, ok_bind]
  exact ⟨_, _, rfl⟩

theorem finish_ports {srcIp dstIp : IpAddr} {proto : UInt8} {len : ℕ} {p : ParsedPacket}
    (hoff : off ≤ pkt.length)
    (h : finish srcIp dstIp proto (pkt.drop off) len = .ok (some p)) (hl : p.l4 = .tcp ∨ p.l4 = .udp) :
    off + 8 ≤ pkt.length ∧ (p.l4 = .tcp ↔ proto = 6) ∧ (p.l4 = .udp ↔ proto = 17) ∧
      p.srcPort = word pkt off ∧ p.dstPort = word pkt (off + 2) := by
  obtain ⟨r, hr, hf⟩ := finish_spec srcIp dstIp proto (pkt.drop off) len
  rw [h] at hr
  cases hr
  have htcp := hf.tcp p rfl
  have hudp := hf.udp p rfl
  have hproto : proto = 6 ∨ proto = 17 := hl.imp htcp.mp hudp.mp
  obtain ⟨hsrc, hdst⟩ := hf.ports p rfl hproto
  rw [word_drop] at hsrc hdst
  have hlong : ¬ ((proto = 6 ∧ (pkt.drop off).length < 20) ∨
      (proto = 17 ∧ (pkt.drop off).length < 8)) := fun hs => by
    have := hf.none_iff.mpr hs
    cases this
  rw [List.length_drop] at hlong
  refine ⟨?_, htcp, hudp, hsrc, hdst⟩
  rcases hproto with rfl | rfl
  · have hlen := not_lt.mp fun h => hlong (.inl ⟨rfl, h⟩)
    omega
  · have hlen := not_lt.mp fun h => hlong (.inr ⟨rfl, h⟩)
    omega

/-- What is reported of a packet is read off its transport header, or is that there is a fragment. -/
theorem parse_finish {p : ParsedPacket} (h : parse pkt = .ok (some p)) :
    0 < pkt.length ∧ ∃ srcIp dstIp, finish srcIp dstIp 44 [] pkt.length = .ok (some p) ∨
      ∃ proto off, TransportAt pkt proto off ∧ off ≤ pkt.length ∧
        finish srcIp dstIp proto (pkt.drop off) pkt.length = .ok (some p) := by
  have hlen : 0 < pkt.length := by
    by_contra hn
    rw [List.length_pos_iff, not_not] at hn
    rw [hn] at h
    cases h
  refine ⟨hlen, ?_⟩
  rw [parse_eq hlen] at h
  split_ifs at h with hv4 hv6
  · unfold parseV4 at h
    split at h
    · cases h
    next h20 =>
    rw [nth_eq hlen 0, ok_bind] at h
    dsimp only at h
    split at h
    · cases h
    next hihl =>
    rw [nth_eq (by omega) 0, ok_bind, addrAt_eq (by omega), addrAt_eq (by omega), ok_bind, ok_bind,
      sliceFrom_eq (by omega), ok_bind] at h
    rw [not_or, Nat.not_lt, Nat.not_lt] at hihl
    exact ⟨_, _, .inr ⟨_, _, .v4 hv4 hihl.1 hihl.2, hihl.2, h⟩⟩
  · by_cases h40 : 40 ≤ pkt.length
    · obtain ⟨srcIp, dstIp, heq⟩ := parseV6_eq h40
      obtain ⟨kind, off, hchain, -, hoff, hends⟩ :=
        @chase_ends pkt 40 _ srcIp dstIp (pkt.length + 1) (byte pkt 6) h40 (by omega)
      rw [heq, hends] at h
      cases hh : hopAt pkt kind off with
      | on | cut => rw [hh] at h; cases h
      | fragment =>
          rw [hh] at h
          exact ⟨_, _, .inl h⟩
      | transport =>
          rw [hh] at h
          have hend : headerLength pkt kind off = none := by
            unfold hopAt at hh
            split at hh
            · next hnone => exact hnone
            · split_ifs at hh
          exact ⟨_, _, .inr ⟨kind, off, .v6 hv6 h40 hchain hend, hoff, h⟩⟩
    · rw [parseV6, if_pos (Nat.lt_of_not_le h40)] at h
      cases h
  · cases h

theorem parse_ports {p : ParsedPacket} (h : parse pkt = .ok (some p))
    (hl : p.l4 = .tcp ∨ p.l4 = .udp) :
    ∃ proto off, TransportAt pkt proto off ∧ off + 8 ≤ pkt.length ∧
      (p.l4 = .tcp ↔ proto = 6) ∧ (p.l4 = .udp ↔ proto = 17) ∧
      p.srcPort = word pkt off ∧ p.dstPort = word pkt (off + 2) := by
  obtain ⟨-, srcIp, dstIp, hfrag | ⟨proto, off, htr, hoff, hf⟩⟩ := parse_finish h
  · -- a fragment is neither TCP nor UDP
    obtain ⟨r, hr, hf⟩ := finish_spec srcIp dstIp 44 [] pkt.length
    rw [hfrag] at hr
    cases hr
    rcases hl with hl | hl
    · exact absurd ((hf.tcp p rfl).mp hl) (by decide)
    · exact absurd ((hf.udp p rfl).mp hl) (by decide)
  · exact ⟨proto, off, htr, finish_ports hoff hf hl⟩

theorem parse_fragment (h : FragmentAt pkt off) :
    ∃ p, parse pkt = .ok (some p) ∧ p.l4.label = "Frag" ∧ p.srcPort = 0 ∧ p.dstPort = 0 := by
  obtain ⟨hv, hin, hchain, hoff, hlater⟩ := h
  have hv4 : ¬ byte pkt 0 >>> 4 = 4 := by
    rw [hv]
    decide
  have hfrag : hopAt pkt 44 off = .fragment := by
    have hlen : headerLength pkt 44 off = some 8 := rfl
    rw [hopAt, hlen]
    dsimp only
    rw [if_neg (Nat.not_lt.mpr hoff), if_pos ⟨rfl, hlater⟩]
  obtain ⟨srcIp, dstIp, heq⟩ := parseV6_eq hin
  obtain ⟨kind', off', hchain', hstops', -, hends⟩ :=
    @chase_ends pkt 40 _ srcIp dstIp (pkt.length + 1) (byte pkt 6) hin (by omega)
  obtain ⟨rfl, rfl⟩ := hchain.unique (stops_of_fragment hlater) hchain' hstops'
  obtain ⟨app, happ⟩ := returns_classified srcIp dstIp (.other 44) 0 0 [] pkt.length
  refine ⟨⟨srcIp, dstIp, 0, 0, .other 44, app, pkt.length⟩, ?_, rfl, rfl, rfl⟩
  rw [parse_eq (by omega), if_neg hv4, if_pos hv, heq, hends, hfrag]
  exact happ

/-- **The transport header is found.**  No packet panics.  Each turn of the loop over the extension
headers ends it or goes on at the next header, further into the packet.  TCP and UDP ports are the
first two words where the packet's transport header is.  A chain that reaches a fragment which is not
the first has no ports. -/
theorem parse_finds_transport (pkt : Bytes) :
    Returns (parse pkt) ∧
      (∀ srcIp dstIp kind off, off ≤ pkt.length → Advances srcIp dstIp pkt kind off) ∧
      (∀ p, parse pkt = .ok (some p) → p.l4 = .tcp ∨ p.l4 = .udp →
        ∃ proto off, TransportAt pkt proto off ∧
          (∀ proto' off', TransportAt pkt proto' off' → proto' = proto ∧ off' = off) ∧
          off + 8 ≤ pkt.length ∧ (p.l4 = .tcp ↔ proto = 6) ∧ (p.l4 = .udp ↔ proto = 17) ∧
          p.srcPort = word pkt off ∧ p.dstPort = word pkt (off + 2)) ∧
      ∀ off, FragmentAt pkt off →
        ∃ p, parse pkt = .ok (some p) ∧ p.l4.label = "Frag" ∧ p.srcPort = 0 ∧ p.dstPort = 0 := by
  refine ⟨returns_parse pkt, fun srcIp dstIp kind _ ho => chase_advances srcIp dstIp kind ho,
    fun p h hl => ?_, fun _ h => parse_fragment h⟩
  obtain ⟨proto, off, hat, hports⟩ := parse_ports h hl
  exact ⟨proto, off, hat, fun _ _ hat' => hat'.unique hat, hports⟩

end Tunnel.Inspect
