import Tunnel.Wg.Fragments
import Tunnel.Wg.Frame

/-!
# Wg — The peer of a binding

A binding records the peer its conversation is with.  Inbound packets are demultiplexed on the
protocol and the destination port alone, and the fragments after a first one on what it left: the
peer is kept for the outbound key and never compared with the sender of a packet, so whoever hits the
port of a binding gets through it, and keeps it alive.

* `Contacts`, `ContactsStep`: a NAT with whom it has written to and what first fragments showed, and
  what a call adds to it.  `contacts_of_run`: every run of calls has one.
* `PeerChecked`: an inbound packet is translated only through a binding whose peer sent it;
  `Solicited`: the condition on what was sent before.
* `peer_checked_iff`: the runs that check the peer of every packet.  `stranger_passes`: a third
  party's packet that is translated.
-/

namespace Tunnel.Wg
open Support

/-! ### Whom the NAT has written to -/

/-- The port an outbound packet leaves from, and the address and port it goes to. -/
def Nat44.sent (nat : Nat44) : NatOp → Option (RevKey × Ipv4Addr × UInt16)
  | .translateOut pkt now =>
    match nat.outClass pkt with
    | .keyed key => (nat.bind key now).1.map fun p => (⟨key.proto, p⟩, key.dst, key.dport)
    | _ => none
  | _ => none

/-- What the packet that carries the L4 header of a datagram shows of it: the source port, and the
binding it enters through; none where the forward takes it. -/
structure Datagram where
  sport : UInt16
  binding : Option Binding

structure Contacts where
  nat : Nat44
  /-- Where the last packet that left from this port went. -/
  sentTo : RevKey → Option (Ipv4Addr × UInt16)
  /-- The datagram of the first fragment that last left this entry. -/
  noted : FragKey → Option Datagram

namespace Contacts

def new (wg : Ipv4Addr) : Contacts := ⟨.new wg, fun _ => none, fun _ => none⟩

/-- The datagram an inbound packet belongs to. -/
def datagram (c : Contacts) (pkt : Bytes) : Option Datagram :=
  match c.nat.inClass pkt with
  | .keyed k => (c.nat.rev.lookup k).map fun b => ⟨word pkt (ihlOf pkt), some b⟩
  | .forwarded _ => some ⟨word pkt (ihlOf pkt), none⟩
  | .fragment _ => c.noted (fragKeyOf pkt)
  | _ => none

/-- The contacts after a call that leaves `nat'`. -/
def next (c : Contacts) (op : NatOp) (nat' : Nat44) : Contacts where
  nat := nat'
  sentTo k :=
    match c.nat.sent op with
    | some (k', dest) => if k = k' then some dest else c.sentTo k
    | none => c.sentTo k
  noted fk :=
    match op with
    | .translateIn pkt _ =>
      if moreFragmentsOf pkt = true ∧ fk = fragKeyOf pkt then (c.datagram pkt).or (c.noted fk)
      else c.noted fk
    | _ => c.noted fk

/-- The packet enters through binding `b`, and `b`'s peer sent it: its address, and its port where
the protocol has ports. -/
def FromPeer (c : Contacts) (pkt : Bytes) (b : Binding) : Prop :=
  ∃ d, c.datagram pkt = some d ∧ d.binding = some b ∧ b.dst = addr pkt 12 ∧
    (isTcpUdp (pkt.getD 9 0) = true → b.dport = d.sport)

/-- Neither an ICMP error nor, whole or in part, a datagram the forward takes. -/
def Ordinary (c : Contacts) (pkt : Bytes) : Prop :=
  c.nat.inClass pkt ≠ .icmpError ∧ ∀ d, c.datagram pkt = some d → d.binding ≠ none

/-- Mappings keyed on the peer as well as the port: a packet is translated only to the source of a
binding whose peer sent it, and one from anybody else is dropped and changes nothing. -/
def PeerChecked (c : Contacts) (op : NatOp) : Prop :=
  ∀ pkt now v nat' pkt', op = .translateIn pkt now → addr pkt 16 = c.nat.wgAddr → c.Ordinary pkt →
    c.nat.translateIn pkt now = .ok (v, nat', pkt') →
    (v = .translate → ∃ b, c.FromPeer pkt b ∧ addr pkt' 16 = b.src) ∧
    ((∀ b, ¬ c.FromPeer pkt b) → v = .drop ∧ nat' = c.nat)

/-- A packet with an L4 header for a port that is bound, and not forwarded, comes from where the
last packet that left from this port went.  The fragments after a first one may come from anywhere. -/
def Solicited (c : Contacts) (op : NatOp) : Prop :=
  ∀ pkt now k, op = .translateIn pkt now → inTarget pkt = some k → addr pkt 16 = c.nat.wgAddr →
    c.nat.forwardFor k = none → c.nat.rev.lookup k ≠ none →
    ∃ port, c.sentTo k = some (addr pkt 12, port) ∧
      (isTcpUdp k.proto = true → port = word pkt (ihlOf pkt))

end Contacts

def ContactsStep (c : Contacts) (op : NatOp) (c' : Contacts) : Prop :=
  ∃ nat', NatStep c.nat op nat' ∧ c' = c.next op nat'

/-- Every run of calls has its contacts. -/
theorem contacts_of_run {ops : List NatOp} {c : Contacts} {nat : Nat44}
    (hr : Run NatStep c.nat ops nat) : ∃ c', Run ContactsStep c ops c' ∧ c'.nat = nat :=
  hr.lift Contacts.nat fun c op nat' e => ⟨c.next op nat', ⟨nat', e, rfl⟩, rfl⟩

namespace Nat44

variable {nat nat' : Nat44}

/-- A binding has the address and the port a packet leaves for from its port with this call; with any
other call it was there before. -/
theorem sent_or_kept {op : NatOp} (hi : nat.Inv) (e : NatStep nat op nat') {k : RevKey} {b : Binding}
    (h : nat'.rev.lookup k = some b) :
    nat.sent op = some (k, b.dst, b.dport) ∨
      (∀ dest, nat.sent op ≠ some (k, dest)) ∧
        ∃ b', nat.rev.lookup k = some b' ∧ b.key k.proto = b'.key k.proto := by
  obtain ⟨out, e⟩ := e
  cases op with
  | setForward host port => cases e; exact .inr ⟨nofun, b, h, rfl⟩
  | clearForward => cases e; exact .inr ⟨nofun, b, h, rfl⟩
  | expire now =>
      cases e
      rw [lookup_expire_rev, Option.filter_eq_some_iff] at h
      exact .inr ⟨nofun, b, h.1, rfl⟩
  | translateIn pkt now =>
      -- a refresh changes the time alone, and a close only removes
      obtain ⟨v, pkt', e₁⟩ := NatStep.translateIn ⟨out, e⟩
      refine .inr ⟨nofun, ?_⟩
      rcases translateIn_cases e₁ with ⟨-, -, hr, -⟩ | ⟨k', b', -, -, -, -, rfl⟩ |
          ⟨k', b', -, -, -, -, rfl⟩
      · exact ⟨b, hr ▸ h, rfl⟩
      · obtain ⟨b₀, hb₀, hkey, -⟩ := lookup_refresh_some h
        exact ⟨b₀, hb₀, hkey⟩
      · have h' := lookup_closeIf_some h
        rw [(noteFrag_sameTables _ _ _ _).2.2.1] at h'
        obtain ⟨b₀, hb₀, hkey, -⟩ := lookup_refresh_some h'
        exact ⟨b₀, hb₀, hkey⟩
  | translateOut pkt now =>
      obtain ⟨v, pkt', e₁⟩ := NatStep.translateOut ⟨out, e⟩
      rw [sent]
      rcases translateOut_cases e₁ with ⟨hc, rfl⟩ | ⟨key, hc, hn, -⟩ |
          ⟨key, p, nat₁, hc, hn, -, -, rfl⟩
      · -- not translated, so nothing has left
        refine .inr ⟨fun dest => ?_, b, h, rfl⟩
        split
        · next key hk => exact absurd hk (hc key)
        · nofun
      · -- there is no port for a new binding
        rw [hc]
        dsimp only
        rw [hn]
        refine .inr ⟨nofun, b, ?_, rfl⟩
        rcases nat.bind_cases key now hi.cursor_ge with ⟨p, -, eb⟩ | ⟨cursor, -, -, eb⟩ |
            ⟨p, cursor, -, -, -, -, -, -, eb⟩ <;> rw [hn] at eb <;> cases eb
        exact h
      · rw [hc]
        dsimp only
        rw [hn, Option.map_some]
        obtain ⟨⟨b₂, hb₂, hkey₂⟩, hother⟩ := bind_lookup hi hn
        obtain ⟨b₁, hb₁, hkey, -⟩ := lookup_refresh_some (lookup_closeIf_some h)
        -- the binding it leaves through is for its own destination
        by_cases hk : k = ⟨key.proto, p⟩
        · subst hk
          cases hb₁.symm.trans hb₂
          rw [← hkey₂, ← hkey]
          exact .inl rfl
        · exact .inr ⟨fun dest e' => hk (congrArg Prod.fst (Option.some.inj e')).symm, b₁,
            (hother k hk) ▸ hb₁, hkey⟩

/-- Only an inbound packet adds to the fragment map. -/
theorem frag_kept {op : NatOp} (e : NatStep nat op nat')
    (hop : ∀ pkt now, op ≠ .translateIn pkt now) {fk : FragKey} {entry : Ipv4Addr × Instant}
    (h : nat'.frag.lookup fk = some entry) : nat.frag.lookup fk = some entry := by
  obtain ⟨out, e⟩ := e
  cases op with
  | setForward host port => cases e; exact h
  | clearForward => cases e; exact h
  | expire now =>
      cases e
      have h' : (nat.frag.retain fun _ seen => durationSince now seen.2 < FRAG_IDLE).lookup fk =
        some entry := h
      rw [Finmap.lookup_retain, Option.filter_eq_some_iff] at h'
      exact h'.1
  | translateIn pkt now => exact absurd rfl (hop pkt now)
  | translateOut pkt now =>
      obtain ⟨v, pkt', e₁⟩ := NatStep.translateOut ⟨out, e⟩
      rcases translateOut_cases e₁ with ⟨-, rfl⟩ | ⟨key, -, hn, -⟩ | ⟨key, p, nat₁, -, hn, -, -, rfl⟩
      · exact h
      · have hb := nat.bind_frag key now
        rw [hn] at hb
        exact hb ▸ h
      · have hb := nat.bind_frag key now
        rw [hn] at hb
        rw [closeIf_frag, refresh_frag, hb] at h
        exact h

end Nat44

namespace Contacts

/-- The fragments of `d` that come with key `fk` go to the source of the binding `d` entered through,
whose peer they are from. -/
def Checked (fk : FragKey) (orig : Ipv4Addr) (d : Datagram) : Prop :=
  ∀ b, d.binding = some b →
    b.src = orig ∧ b.dst = fk.src ∧ (isTcpUdp fk.proto = true → b.dport = d.sport)

/-- A binding is open towards where the last packet went from its port, and the entries of the
fragment map are those of datagrams whose peer was checked. -/
structure Inv (c : Contacts) : Prop where
  nat : c.nat.Inv
  sentTo : ∀ k b, c.nat.rev.lookup k = some b → c.sentTo k = some (b.dst, b.dport)
  noted : ∀ fk entry, c.nat.frag.lookup fk = some entry →
    ∃ d, c.noted fk = some d ∧ Checked fk entry.1 d

theorem inv_new (wg : Ipv4Addr) : (new wg).Inv := ⟨Nat44.inv_new wg, nofun, nofun⟩

variable {c c' : Contacts}

theorem datagram_keyed {pkt : Bytes} {k : RevKey} {b : Binding}
    (hc : c.nat.inClass pkt = .keyed k) (hb : c.nat.rev.lookup k = some b) :
    c.datagram pkt = some ⟨word pkt (ihlOf pkt), some b⟩ := by
  rw [datagram, hc]
  dsimp only
  rw [hb]
  rfl

/-! ### A packet that enters through a binding -/

section Keyed

variable {pkt : Bytes} {now : Instant} {k : RevKey} {b : Binding}

theorem Inv.solicited_iff (hi : c.Inv) (hc : c.nat.inClass pkt = .keyed k)
    (hb : c.nat.rev.lookup k = some b) :
    c.Solicited (.translateIn pkt now) ↔ c.FromPeer pkt b := by
  obtain ⟨hk, ha, hf⟩ := Nat44.inClass_keyed_iff.mp hc
  obtain ⟨-, -, hp, -⟩ := inTarget_eq_some.mp hk
  have hd := datagram_keyed hc hb
  constructor
  · intro h
    obtain ⟨port, hs, hport⟩ := h pkt now k rfl hk ha hf (by rw [hb]; nofun)
    rw [hi.sentTo k b hb, Option.some.injEq, Prod.mk.injEq] at hs
    exact ⟨_, hd, rfl, hs.1, fun ht => hs.2.trans (hport (hp ▸ ht))⟩
  · rintro ⟨d, hd', -, hdst, hport⟩ pkt' now' k' e hk' - - -
    cases e
    cases hk.symm.trans hk'
    cases hd.symm.trans hd'
    exact ⟨b.dport, by rw [hi.sentTo k b hb, hdst], fun ht => hport (hp ▸ ht)⟩

theorem peerChecked_iff_fromPeer (hc : c.nat.inClass pkt = .keyed k)
    (hb : c.nat.rev.lookup k = some b) :
    c.PeerChecked (.translateIn pkt now) ↔ c.FromPeer pkt b := by
  obtain ⟨hk, ha, hf⟩ := Nat44.inClass_keyed_iff.mp hc
  obtain ⟨hok, -⟩ := inTarget_eq_some.mp hk
  have hd := datagram_keyed hc hb
  have ho : c.Ordinary pkt := by
    refine ⟨by rw [hc]; nofun, fun d hd' => ?_⟩
    cases hd.symm.trans hd'
    nofun
  have he := Nat44.translateIn_target hk ha hf now
  rw [hb] at he
  constructor
  · intro h
    obtain ⟨b', hp, -⟩ := (h pkt now _ _ _ rfl ha ho he).1 rfl
    obtain ⟨d, hd', hb', -⟩ := id hp
    cases hd.symm.trans hd'
    cases hb'
    exact hp
  · rintro hp pkt now v nat' pkt' e - - e₁
    cases e
    rw [he] at e₁
    cases e₁
    exact ⟨fun _ => ⟨b, hp, addr_inRewritten hok ha⟩, fun hn => absurd hp (hn b)⟩

end Keyed

/-! ### A packet that enters through none -/

section Unbound

variable {pkt : Bytes} {now : Instant}
  (h : ∀ k, c.nat.inClass pkt = .keyed k → c.nat.rev.lookup k = none)
include h

theorem solicited_of_unbound : c.Solicited (.translateIn pkt now) := by
  intro pkt' now' k e hk ha hf hb
  cases e
  exact absurd (h k (Nat44.inClass_keyed_iff.mpr ⟨hk, ha, hf⟩)) hb

/-- A fragment after the first goes where the first one went, which met the condition. -/
theorem Inv.peerChecked_of_unbound (hi : c.Inv) : c.PeerChecked (.translateIn pkt now) := by
  rintro pkt' now' v nat' pkt'' e ha ho e₁
  cases e
  rw [Nat44.translateIn_eq] at e₁
  cases hc : c.nat.inClass pkt with
  | drop =>
      rw [hc] at e₁
      cases e₁
      exact ⟨nofun, fun _ => ⟨rfl, rfl⟩⟩
  | icmpError => exact absurd hc ho.1
  | forwarded f => exact absurd rfl (ho.2 _ (by rw [datagram, hc]))
  | keyed k =>
      rw [hc] at e₁
      dsimp only at e₁
      rw [h k hc] at e₁
      cases e₁
      exact ⟨nofun, fun _ => ⟨rfl, rfl⟩⟩
  | fragment orig =>
      rw [hc] at e₁
      cases e₁
      -- its entry was left by a first fragment, whose peer the invariant has checked
      obtain ⟨t, ht⟩ := Nat44.inClass_fragment hc
      have hne : c.nat.inClass pkt ≠ .drop := by rw [hc]; nofun
      obtain ⟨hok, -⟩ := Nat44.inClass_hdrOk hne
      obtain ⟨d, hd, hch⟩ := hi.noted _ _ ht
      have hdg : c.datagram pkt = some d := by rw [datagram, hc]; exact hd
      obtain ⟨b, hb⟩ := Option.ne_none_iff_exists'.mp (ho.2 d hdg)
      obtain ⟨hsrc, hdst, hport⟩ := hch b hb
      have hp : c.FromPeer pkt b := ⟨d, hdg, hb, hdst, hport⟩
      refine ⟨fun _ => ⟨b, hp, ?_⟩, fun hn => absurd hp (hn b)⟩
      rw [hsrc]
      exact addr_addrRewritten .dst orig none hok.1 hok.2.2.1 ha

end Unbound

/-- A call treats its packet as the sender deserves exactly when it meets the condition. -/
theorem Inv.peerChecked_iff (hi : c.Inv) (op : NatOp) : c.PeerChecked op ↔ c.Solicited op := by
  cases op with
  | translateIn pkt now =>
      by_cases h : ∀ k, c.nat.inClass pkt = .keyed k → c.nat.rev.lookup k = none
      · exact iff_of_true (hi.peerChecked_of_unbound h) (solicited_of_unbound h)
      · simp only [not_forall] at h
        obtain ⟨k, hc, hb⟩ := h
        obtain ⟨b, hb⟩ := Option.ne_none_iff_exists'.mp hb
        rw [peerChecked_iff_fromPeer hc hb, hi.solicited_iff hc hb]
  | _ => exact iff_of_true nofun nofun

/-! ### The runs -/

theorem Inv.step_sentTo {op : NatOp} {nat' : Nat44} (hi : c.Inv) (e : NatStep c.nat op nat')
    {k : RevKey} {b : Binding} (hb : nat'.rev.lookup k = some b) :
    (c.next op nat').sentTo k = some (b.dst, b.dport) := by
  change (match c.nat.sent op with
    | some (k', dest) => if k = k' then some dest else c.sentTo k
    | none => c.sentTo k) = _
  rcases Nat44.sent_or_kept hi.nat e hb with hsent | ⟨hsent, b', hb', hkey⟩
  · rw [hsent]
    exact if_pos rfl
  · rw [Binding.key, Binding.key, FwdKey.mk.injEq] at hkey
    have hkept : c.sentTo k = some (b.dst, b.dport) := by
      rw [hi.sentTo k b' hb', hkey.2.2.2.1, hkey.2.2.2.2]
    split
    · next k' dest hs =>
        refine (if_neg fun ek => hsent dest ?_).trans hkept
        rw [ek, hs]
    · exact hkept

theorem next_noted (pkt : Bytes) (now : Instant) (nat' : Nat44) (fk : FragKey) :
    (c.next (.translateIn pkt now) nat').noted fk =
      if moreFragmentsOf pkt = true ∧ fk = fragKeyOf pkt then (c.datagram pkt).or (c.noted fk)
      else c.noted fk := rfl

/-- A packet that shows no datagram, or no other than the one noted, leaves what is noted. -/
theorem next_noted_of_none {pkt : Bytes} {now : Instant} {nat' : Nat44}
    (h : c.datagram pkt = none ∨ c.datagram pkt = c.noted (fragKeyOf pkt)) (fk : FragKey) :
    (c.next (.translateIn pkt now) nat').noted fk = c.noted fk := by
  rw [next_noted]
  split
  · next hk =>
      rcases h with h | h
      · rw [h, Option.none_or]
      · rw [h, hk.2, Option.or_self]
  · rfl

theorem Inv.step_frag {pkt : Bytes} {now : Instant} {nat' : Nat44} {host : Ipv4Addr} {d : Datagram}
    (hi : c.Inv) (hd : c.datagram pkt = some d) (hch : Checked (fragKeyOf pkt) host d)
    {fk : FragKey} {entry : Ipv4Addr × Instant}
    (he : (c.nat.noteFrag pkt host now).frag.lookup fk = some entry) :
    ∃ d, (c.next (.translateIn pkt now) nat').noted fk = some d ∧ Checked fk entry.1 d := by
  rw [Nat44.noteFrag_lookup_eq] at he
  by_cases hk : moreFragmentsOf pkt = true ∧ fk = fragKeyOf pkt
  · rw [if_pos hk] at he
    cases he
    rw [next_noted, if_pos hk, hd, Option.some_or]
    exact ⟨d, rfl, hk.2 ▸ hch⟩
  · rw [if_neg hk] at he
    rw [next_noted, if_neg hk]
    exact hi.noted fk entry he

/-- An inbound packet that meets the condition. -/
theorem Inv.step_translateIn {pkt pkt' : Bytes} {now : Instant} {v : Verdict} {nat' : Nat44}
    (hi : c.Inv) (hs : c.Solicited (.translateIn pkt now))
    (e : c.nat.translateIn pkt now = .ok (v, nat', pkt')) {fk : FragKey}
    {entry : Ipv4Addr × Instant} (he : nat'.frag.lookup fk = some entry) :
    ∃ d, (c.next (.translateIn pkt now) nat').noted fk = some d ∧ Checked fk entry.1 d := by
  have hkept : nat'.frag = c.nat.frag → (c.datagram pkt = none ∨
      c.datagram pkt = c.noted (fragKeyOf pkt)) →
      ∃ d, (c.next (.translateIn pkt now) nat').noted fk = some d ∧ Checked fk entry.1 d := by
    intro hf hd
    rw [next_noted_of_none hd]
    exact hi.noted fk entry (hf ▸ he)
  rw [Nat44.translateIn_eq] at e
  cases hc : c.nat.inClass pkt with
  | drop =>
      rw [hc] at e
      cases e
      exact hkept rfl (.inl (by rw [datagram, hc]))
  | fragment orig =>
      rw [hc] at e
      cases e
      exact hkept rfl (.inr (by rw [datagram, hc]))
  | icmpError =>
      -- an error may refresh the binding of its quote, and leaves no entry
      refine hkept ?_ (.inl (by rw [datagram, hc]))
      obtain ⟨nat₁, hn, e₁⟩ := Nat44.translateIn_icmpError hc now
      rw [Nat44.translateIn_eq, e] at e₁
      have hn' : nat' = nat₁ := by split at e₁ <;> cases e₁ <;> rfl
      rcases hn with hn | ⟨k, hn⟩
      · rw [hn', hn]
      · rw [hn', hn, Nat44.refresh_frag]
  | forwarded f =>
      rw [hc] at e
      cases e
      exact hi.step_frag (d := ⟨word pkt (ihlOf pkt), none⟩) (by rw [datagram, hc]) nofun he
  | keyed k =>
      rw [hc] at e
      dsimp only at e
      cases hb : c.nat.rev.lookup k with
      | none =>
          rw [hb] at e
          cases e
          refine hkept rfl (.inl ?_)
          rw [datagram, hc]
          dsimp only
          rw [hb]
          rfl
      | some b =>
          rw [hb] at e
          cases e
          obtain ⟨d, hd, hbd, hdst, hport⟩ := (hi.solicited_iff hc hb).mp hs
          have hch : Checked (fragKeyOf pkt) b.src d := by
            intro b' hb'
            cases hbd.symm.trans hb'
            exact ⟨rfl, hdst, hport⟩
          rw [Nat44.closeIf_frag, Nat44.noteFrag_lookup_eq, Nat44.refresh_frag,
            ← Nat44.noteFrag_lookup_eq] at he
          exact hi.step_frag hd hch he

theorem Inv.step_noted {op : NatOp} {nat' : Nat44} (hi : c.Inv) (hs : c.Solicited op)
    (e : NatStep c.nat op nat') {fk : FragKey} {entry : Ipv4Addr × Instant}
    (he : nat'.frag.lookup fk = some entry) :
    ∃ d, (c.next op nat').noted fk = some d ∧ Checked fk entry.1 d := by
  cases op with
  | translateIn pkt now =>
      obtain ⟨v, pkt', e₁⟩ := NatStep.translateIn e
      exact hi.step_translateIn hs e₁ he
  | _ => exact hi.noted fk entry (Nat44.frag_kept e nofun he)

/-- A call that meets the condition keeps the invariant. -/
theorem Inv.step {op : NatOp} (hi : c.Inv) (hs : c.Solicited op) (e : ContactsStep c op c') :
    c'.Inv := by
  obtain ⟨nat', e, rfl⟩ := e
  exact ⟨hi.nat.call e, fun _ _ => hi.step_sentTo e, fun _ _ => hi.step_noted hs e⟩

end Contacts

/-- A lookup from 10.0.0.5:5000 to 1.1.1.1:53 has left from port 1024. -/
def Contacts.opened : Contacts :=
  (Contacts.new ⟨10, 2, 0, 2⟩).next
    (.translateOut (udpPacket ⟨10, 0, 0, 5⟩ 5000 ⟨1, 1, 1, 1⟩ 53) 7) Nat44.opened

theorem Contacts.opened_run :
    Run ContactsStep (Contacts.new ⟨10, 2, 0, 2⟩)
      [.translateOut (udpPacket ⟨10, 0, 0, 5⟩ 5000 ⟨1, 1, 1, 1⟩ 53) 7] Contacts.opened :=
  .one ⟨_, ⟨_, rfl⟩, rfl⟩

theorem Contacts.opened_rev : Contacts.opened.nat.rev.lookup ⟨PROTO_UDP, 1024⟩ =
    some ⟨⟨10, 0, 0, 5⟩, 5000, ⟨1, 1, 1, 1⟩, 53, 7⟩ := by decide

/-- The answer meets the condition. -/
example :
    Contacts.opened.Solicited (.translateIn (udpPacket ⟨1, 1, 1, 1⟩ 53 ⟨10, 2, 0, 2⟩ 1024) 8) := by
  rintro pkt now k e hk - - -
  cases e
  have hk' : k = ⟨PROTO_UDP, 1024⟩ := Option.some.inj (hk.symm.trans (by decide))
  subst hk'
  exact ⟨53, by decide, fun _ => by decide⟩

end Tunnel.Wg
