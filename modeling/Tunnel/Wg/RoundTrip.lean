import Tunnel.Wg.Forward

/-!
# Wg — Round trip

A conversation that goes out through a binding keeps its external port, and what answers to that
port comes back to its own endpoint, for as long as no RST closes the binding and no sweep finds it
idle, whatever other traffic is translated in between.

* `OnBinding`: the packets that are translated on a binding, told from the wire.
* `Undisturbed`: the steps between which the binding lives, with the time of its last packet.
* `Nat44.Live`: the binding is open in both tables; `Live.call` is its preservation by a step.
* `round_trip`: the law over whole runs.
-/

namespace Tunnel.Wg
open Support

/-- What an ICMP error is about: the tuple half of the packet it quotes, if that packet was sent
from `wg`. -/
def errorTarget (wg : Ipv4Addr) (pkt : Bytes) : Option RevKey :=
  if HdrOk pkt ∧ fragOffsetOf pkt = 0 ∧ addr (pkt.drop (ihlOf pkt + 8)) 12 = wg then
    match inL4 pkt with
    | .icmpError => quoteTarget pkt
    | _ => none
  else none

/-- The packets that go through the binding of `key` on port `p`: outbound packets of its tuple,
inbound packets for its port, and ICMP errors about it. -/
def OnBinding (wg : Ipv4Addr) (key : FwdKey) (p : UInt16) : NatOp → Prop
  | .translateOut pkt _ => outTuple pkt = some key
  | .translateIn pkt _ => addr pkt 16 = wg ∧
      (inTarget pkt = some ⟨key.proto, p⟩ ∨ errorTarget wg pkt = some ⟨key.proto, p⟩)
  | _ => False

instance (wg : Ipv4Addr) (key : FwdKey) (p : UInt16) (op : NatOp) :
    Decidable (OnBinding wg key p op) := by
  cases op <;> unfold OnBinding <;> infer_instance

/-- A TCP packet with RST. -/
def NatOp.isRst : NatOp → Bool
  | .translateOut pkt _ => Wg.isRst pkt
  | .translateIn pkt _ => Wg.isRst pkt
  | _ => false

/-- The time a call is made at. -/
def NatOp.time : NatOp → Instant
  | .translateOut _ now => now
  | .translateIn _ now => now
  | .expire now => now
  | _ => 0

/-- A step of traffic that leaves the binding of `key` on port `p` open: a packet on the binding is
not a RST and moves the time of its last packet, and a sweep runs less than the protocol's idle
time after that. -/
def Undisturbed (wg : Ipv4Addr) (key : FwdKey) (p : UInt16) (s : Nat44 × Instant) (op : NatOp)
    (s' : Nat44 × Instant) : Prop :=
  NatStep s.1 op s'.1 ∧ op.isTraffic = true ∧
    (OnBinding wg key p op → op.isRst = false) ∧
    (∀ now, op = .expire now → durationSince now s.2 < Nat44.idleOf key.proto) ∧
    s'.2 = if OnBinding wg key p op then op.time else s.2

/-- The states a NAT reaches by traffic, its forward absent or set before the first packet. -/
def TrafficReachable (wg : Ipv4Addr) : Nat44 → Prop :=
  Reachable (fun nat => nat = Nat44.new wg ∨ ∃ host port, nat = (Nat44.new wg).setForward host port)
    (Guarded (fun _ op => op.isTraffic = true) NatStep)

namespace Nat44

/-- What a NAT keeps under traffic. -/
structure Sound (wg : Ipv4Addr) (nat : Nat44) : Prop where
  inv : nat.Inv
  unshadowed : nat.Unshadowed
  wgAddr : nat.wgAddr = wg

theorem Sound.call {wg : Ipv4Addr} {nat nat' : Nat44} {op : NatOp} (h : Sound wg nat)
    (ht : op.isTraffic = true) (e : NatStep nat op nat') : Sound wg nat' :=
  have g := call_grows h.inv ht e
  ⟨h.inv.call e, h.unshadowed.grows g, g.wgAddr.trans h.wgAddr⟩

/-- The binding of `key` is open on port `p`, and saw its last packet at `last`. -/
structure Live (nat : Nat44) (key : FwdKey) (p : UInt16) (last : Instant) : Prop where
  fwd : nat.fwd.lookup key = some p
  rev : nat.rev.lookup ⟨key.proto, p⟩ = some ⟨key.src, key.sport, key.dst, key.dport, last⟩

variable {nat : Nat44} {key : FwdKey} {p : UInt16} {last : Instant}

theorem Live.sameTables {nat' : Nat44} (h : nat.Live key p last) (hs : SameTables nat nat') :
    nat'.Live key p last :=
  ⟨hs.2.1 ▸ h.fwd, hs.2.2.1 ▸ h.rev⟩

theorem Live.refresh_self (h : nat.Live key p last) (now : Instant) :
    (nat.refresh ⟨key.proto, p⟩ now).Live key p now where
  fwd := by rw [refresh_fwd]; exact h.fwd
  rev := by rw [lookup_refresh, if_pos rfl, h.rev]; rfl

theorem Live.refresh_other (h : nat.Live key p last) {k : RevKey} (hk : k ≠ ⟨key.proto, p⟩)
    (now : Instant) : (nat.refresh k now).Live key p last where
  fwd := by rw [refresh_fwd]; exact h.fwd
  rev := by rw [lookup_refresh, if_neg (Ne.symm hk)]; exact h.rev

theorem Live.closeIf_other (h : nat.Live key p last) (hi : nat.Inv) {k : RevKey}
    (hk : k ≠ ⟨key.proto, p⟩) (rst : Bool) : (nat.closeIf rst k).Live key p last := by
  unfold Nat44.closeIf
  split
  · refine ⟨(hi.lookup_close_fwd k key p).mpr ⟨h.fwd, Ne.symm hk⟩, ?_⟩
    rw [lookup_close, if_neg (Ne.symm hk)]
    exact h.rev
  · exact h

/-- Opening a binding does not touch another. -/
theorem Live.bind (h : nat.Live key p last) (hi : nat.Inv) (key' : FwdKey) (now : Instant) :
    (nat.bind key' now).2.Live key p last := by
  rcases nat.bind_cases key' now hi.cursor_ge with ⟨p', -, e⟩ | ⟨cursor, -, -, e⟩ |
      ⟨p', cursor, hk, -, -, -, -, hl, e⟩
  · rw [e]; exact h
  · rw [e]; exact ⟨h.fwd, h.rev⟩
  · rw [e]
    have hne : key ≠ key' := fun e => by rw [← e, h.fwd] at hk; cases hk
    have hne' : (⟨key.proto, p⟩ : RevKey) ≠ ⟨key'.proto, p'⟩ := by
      intro e
      rw [← e, h.rev] at hl; cases hl
    refine ⟨?_, ?_⟩
    · exact (Finmap.lookup_insert_of_ne _ hne).trans h.fwd
    · exact (Finmap.lookup_insert_of_ne _ hne').trans h.rev

/-- A packet of the binding's tuple finds it. -/
theorem Live.bind_self (h : nat.Live key p last) (now : Instant) :
    nat.bind key now = (some p, nat) := by
  unfold Nat44.bind
  rw [h.fwd]

theorem Live.carries (h : nat.Live key p last) {pkt : Bytes} (hc : nat.outClass pkt = .keyed key)
    (now : Instant) :
    nat.translateOut pkt now = .ok (.translate,
      (nat.refresh ⟨key.proto, p⟩ now).closeIf (isRst pkt) ⟨key.proto, p⟩,
      outRewritten nat.wgAddr pkt key p) := by
  rw [translateOut_eq, hc]
  dsimp only
  rw [h.bind_self]

/-- A packet of another tuple goes through another binding. -/
theorem bind_port_ne {key' : FwdKey} {p' : UInt16} {nat₁ : Nat44} {now : Instant}
    (h : nat.Live key p last) (hi : nat.Inv) (hne : key' ≠ key)
    (e : nat.bind key' now = (some p', nat₁)) : (⟨key'.proto, p'⟩ : RevKey) ≠ ⟨key.proto, p⟩ := by
  intro he
  rcases nat.bind_cases key' now hi.cursor_ge with ⟨q, hq, e'⟩ | ⟨cursor, -, -, e'⟩ |
      ⟨q, cursor, -, -, -, -, -, hl, e'⟩
  · rw [e'] at e
    cases e
    obtain ⟨b, hb, hbk⟩ := hi.fwd_rev key' p' hq
    rw [he, h.rev] at hb
    cases hb
    have hp := congrArg RevKey.proto he
    dsimp only at hp
    rw [hp] at hbk
    exact hne hbk.symm
  · rw [e'] at e; cases e
  · rw [e'] at e
    cases e
    rw [he, h.rev] at hl
    cases hl

theorem Live.expire (h : nat.Live key p last) (hi : nat.Inv) {now : Instant}
    (hf : durationSince now last < idleOf key.proto) : (nat.expire now).2.Live key p last := by
  have hr : (nat.expire now).2.rev.lookup ⟨key.proto, p⟩ =
      some ⟨key.src, key.sport, key.dst, key.dport, last⟩ := by
    rw [lookup_expire_rev, h.rev]
    simp [fresh, hf]
  refine ⟨(hi.lookup_expire_fwd now key p).mpr ⟨h.fwd, fun b hb => ?_⟩, hr⟩
  rw [h.rev] at hb
  cases hb
  simp [fresh, hf]

/-- An ICMP error about port `k`, told from the wire. -/
theorem errorTarget_iff {wg : Ipv4Addr} (hw : nat.wgAddr = wg) {pkt : Bytes} {k : RevKey} :
    nat.inClass pkt = .icmpError ∧ nat.quoted pkt = some k ↔
      addr pkt 16 = wg ∧ errorTarget wg pkt = some k := by
  subst hw
  rw [inClass_icmpError_iff, quoted, errorTarget]
  by_cases hs : addr (pkt.drop (ihlOf pkt + 8)) 12 = nat.wgAddr
  swap
  · rw [if_neg hs, if_neg fun h => hs h.2.2]
    exact iff_of_false (fun h => by cases h.2) fun h => by cases h.2
  rw [if_pos hs]
  by_cases hok : HdrOk pkt ∧ fragOffsetOf pkt = 0
  swap
  · rw [if_neg fun h => hok ⟨h.1, h.2.1⟩]
    exact iff_of_false (fun h => hok ⟨h.1.1, h.1.2.2.1⟩) fun h => by cases h.2
  rw [if_pos ⟨hok.1, hok.2, hs⟩]
  cases inL4 pkt with
  | drop => exact iff_of_false (fun h => by cases h.1.2.2.2) fun h => by cases h.2
  | icmpError => exact ⟨fun h => ⟨h.1.2.1, h.2⟩, fun h => ⟨⟨hok.1, h.1, hok.2, rfl⟩, h.2⟩⟩
  | port p => exact iff_of_false (fun h => by cases h.1.2.2.2) fun h => by cases h.2

/-- The step lemma for outbound packets. -/
theorem Live.translateOut {wg : Ipv4Addr} {nat' : Nat44} {pkt pkt' : Bytes} {now : Instant}
    {v : Verdict} (h : nat.Live key p last) (hs : Sound wg nat)
    (hr : routable key.dst = true ∧ key.dst ≠ wg) (hf : nat.forwards key = false)
    (hrst : outTuple pkt = some key → isRst pkt = false)
    (e : nat.translateOut pkt now = .ok (v, nat', pkt')) :
    nat'.Live key p (if outTuple pkt = some key then now else last) := by
  have hkey : outTuple pkt = some key → nat.outClass pkt = .keyed key := fun ho =>
    outClass_keyed_iff.mpr ⟨ho, hr.1, hs.wgAddr ▸ hr.2, hf⟩
  have hother : ∀ key', nat.outClass pkt = .keyed key' → key' ≠ key → outTuple pkt ≠ some key := by
      intro key' hc hne ho
      rw [hkey ho] at hc
      cases hc
      exact hne rfl
  rcases translateOut_cases e with ⟨hc, rfl⟩ | ⟨key', hc, hn, -⟩ |
      ⟨key', p', nat₁, hc, hn, -, -, rfl⟩
  · rw [if_neg fun ho => hc key (hkey ho)]
    exact h
  · have hne : key' ≠ key := by
      intro e
      rw [e, h.bind_self] at hn
      cases hn
    have hb := h.bind hs.inv key' now
    rw [hn] at hb
    rw [if_neg (hother key' hc hne)]
    exact hb
  · by_cases hk : key' = key
    · subst hk
      rw [h.bind_self] at hn
      cases hn
      have ho := (outClass_keyed_iff.mp hc).1
      rw [if_pos ho, hrst ho]
      exact h.refresh_self now
    · have hb := h.bind hs.inv key' now
      have hi := hs.inv.bind now (outTuple_icmp (outClass_keyed_iff.mp hc).1)
      have hne := bind_port_ne h hs.inv hk hn
      rw [hn] at hb hi
      rw [if_neg (hother key' hc hk)]
      exact (hb.refresh_other hne now).closeIf_other (hi.refresh _ now) hne _

/-- The step lemma for inbound packets. -/
theorem Live.translateIn {wg : Ipv4Addr} {nat' : Nat44} {pkt pkt' : Bytes} {now : Instant}
    {v : Verdict} (h : nat.Live key p last) (hs : Sound wg nat)
    (hrst : OnBinding wg key p (.translateIn pkt now) → isRst pkt = false)
    (e : nat.translateIn pkt now = .ok (v, nat', pkt')) :
    nat'.Live key p (if OnBinding wg key p (.translateIn pkt now) then now else last) := by
  have hw := hs.wgAddr
  have hff := hs.unshadowed.forwardFor h.rev
  by_cases ho : OnBinding wg key p (.translateIn pkt now)
  · rw [if_pos ho]
    obtain ⟨hd, hk | hk⟩ := id ho
    · rw [hs.unshadowed.delivers hk (hw ▸ hd) h.rev] at e
      cases e
      rw [hrst ho]
      exact (h.refresh_self now).sameTables (noteFrag_sameTables _ _ _ _)
    · obtain ⟨hc, hq⟩ := (errorTarget_iff hw).mpr ⟨hd, hk⟩
      rw [translateIn_error hc hq hff h.rev] at e
      cases e
      exact h.refresh_self now
  · rw [if_neg ho]
    rcases translateIn_cases e with hst | ⟨k, b, hc, hq, -, -, rfl⟩ | ⟨k, b, hc, -, -, -, rfl⟩
    · exact h.sameTables hst
    · refine h.refresh_other (fun e => ho ?_) now
      obtain ⟨hd, hk⟩ := (errorTarget_iff hw).mp ⟨hc, hq⟩
      exact ⟨hd, .inr (e ▸ hk)⟩
    · obtain ⟨hk, hd, -⟩ := inClass_keyed_iff.mp hc
      have hne : k ≠ ⟨key.proto, p⟩ := fun e => ho ⟨hw ▸ hd, .inl (e ▸ hk)⟩
      exact ((h.refresh_other hne now).sameTables (noteFrag_sameTables _ _ _ _)).closeIf_other
        ((hs.inv.refresh k now).noteFrag pkt b.src now) hne _

/-- Traffic that leaves the binding alone keeps it open, with the time of its last packet. -/
theorem Live.call {wg : Ipv4Addr} {nat' : Nat44} {last' : Instant} {op : NatOp}
    (h : nat.Live key p last) (hs : Sound wg nat) (hr : routable key.dst = true ∧ key.dst ≠ wg)
    (hf : nat.forwards key = false) (e : Undisturbed wg key p (nat, last) op (nat', last')) :
    nat'.Live key p last' := by
  obtain ⟨⟨out, e⟩, ht, hrst, hex, hl⟩ := e
  dsimp only at e hrst hex hl
  rw [hl]
  cases op with
  | setForward host port => cases ht
  | clearForward => cases ht
  | translateOut pkt now =>
      obtain ⟨v, pkt', e₁⟩ := NatStep.translateOut ⟨out, e⟩
      exact h.translateOut hs hr hf hrst e₁
  | translateIn pkt now =>
      obtain ⟨v, pkt', e₁⟩ := NatStep.translateIn ⟨out, e⟩
      exact h.translateIn hs hrst e₁
  | expire now =>
      cases e
      rw [if_neg nofun]
      exact h.expire hs.inv (hex now rfl)

theorem forwards_congr {nat' : Nat44} (h : nat'.forward = nat.forward) (key : FwdKey) :
    nat'.forwards key = nat.forwards key := by
  rw [forwards, forwards, h]

/-- A run of such steps. -/
theorem Live.run {wg : Ipv4Addr} {ops : List NatOp} {nat' : Nat44} {last' : Instant}
    (h : nat.Live key p last) (hs : Sound wg nat) (hr : routable key.dst = true ∧ key.dst ≠ wg)
    (hf : nat.forwards key = false) (e : Run (Undisturbed wg key p) (nat, last) ops (nat', last')) :
    nat'.Live key p last' ∧ Sound wg nat' ∧ nat'.forwards key = false := by
  refine e.invariant (I := fun s => s.1.Live key p s.2 ∧ Sound wg s.1 ∧ s.1.forwards key = false)
    (fun s op s' ⟨h, hs, hf⟩ e => ⟨h.call hs hr hf e, hs.call e.2.1 e.1, ?_⟩) ⟨h, hs, hf⟩
  rw [forwards_congr (call_grows hs.inv e.2.1 e.1).forward, hf]

end Nat44

theorem TrafficReachable.sound {wg : Ipv4Addr} {nat : Nat44} (h : TrafficReachable wg nat) :
    Nat44.Sound wg nat := by
  refine Reachable.invariant (I := Nat44.Sound wg) ?_ (fun _ _ _ h e => h.call e.2 e.1) h
  rintro _ (rfl | ⟨host, port, rfl⟩)
  · exact ⟨Nat44.inv_new wg, Nat44.unshadowed_new wg, rfl⟩
  · exact ⟨(Nat44.inv_new wg).congr rfl rfl rfl, fun _ _ _ _ => rfl, rfl⟩

/-- A packet with a tuple that is translated, but not by the forward, goes through a binding. -/
theorem Nat44.keyed_of_translate {nat nat' : Nat44} {pkt pkt' : Bytes} {key : FwdKey}
    {now : Instant} (hk : outTuple pkt = some key) (hf : nat.forwards key = false)
    (e : nat.translateOut pkt now = .ok (.translate, nat', pkt')) :
    nat.outClass pkt = .keyed key := by
  obtain ⟨-, -, -, -, hd, -⟩ := outTuple_eq_some.mp hk
  by_cases hr : routable key.dst = true ∧ key.dst ≠ nat.wgAddr
  · exact outClass_keyed_iff.mpr ⟨hk, hr.1, hr.2, hf⟩
  · have hc : nat.outClass pkt = .drop := by
      unfold Nat44.outClass
      rw [if_neg fun h => hr (hd ▸ h.2)]
    rw [translateOut_eq, hc] at e
    cases e

/-- A binding opened or found by a packet of its tuple is live. -/
theorem Nat44.live_of_bind {nat nat₁ : Nat44} {key : FwdKey} {p : UInt16} {now : Instant}
    (hi : nat.Inv) (e : nat.bind key now = (some p, nat₁)) :
    (nat₁.refresh ⟨key.proto, p⟩ now).Live key p now := by
  suffices h : ∃ last, nat₁.Live key p last from h.choose_spec.refresh_self now
  rcases nat.bind_cases key now hi.cursor_ge with ⟨q, hq, e'⟩ | ⟨cursor, -, -, e'⟩ |
      ⟨q, cursor, -, -, -, -, -, -, e'⟩ <;> rw [e'] at e <;> cases e
  · obtain ⟨b, hb, he⟩ := hi.fwd_rev key p hq
    refine ⟨b.last, hq, hb.trans ?_⟩
    rw [← he]
    rfl
  · exact ⟨now, Finmap.lookup_insert _, Finmap.lookup_insert _⟩

/-- An outbound packet that goes through a binding leaves it open on the port it was given. -/
theorem Nat44.live_of_translateOut {wg : Ipv4Addr} {nat nat' : Nat44} {pkt pkt' : Bytes}
    {key : FwdKey} {now : Instant} {p : UInt16} (hs : Nat44.Sound wg nat)
    (hk : outTuple pkt = some key) (hf : nat.forwards key = false) (hrst : isRst pkt = false)
    (e : nat.translateOut pkt now = .ok (.translate, nat', pkt'))
    (hp : outTuple pkt' = some { key with src := wg, sport := p }) : nat'.Live key p now := by
  have hkey := keyed_of_translate hk hf e
  rcases translateOut_cases e with ⟨hc, -⟩ | ⟨key', -, -, hv, -⟩ |
      ⟨key', q, nat₁, hc, hn, -, hpkt, hn'⟩
  · exact absurd hkey (hc key)
  · cases hv
  · rw [hkey] at hc
    cases hc
    rw [hpkt, outTuple_outRewritten _ _ hk] at hp
    cases congrArg (Option.map FwdKey.sport) hp
    rw [hn', hrst]
    exact live_of_bind hs.inv hn

/-- A conversation keeps its port, and the answers to that port come back to it. -/
theorem round_trip {wg : Ipv4Addr} {nat₀ nat₁ nat₂ : Nat44} {pkt pkt' : Bytes} {key : FwdKey}
    {p : UInt16} {now last : Instant} {ops : List NatOp} (h₀ : TrafficReachable wg nat₀)
    (hk : outTuple pkt = some key) (hf : nat₀.forwards key = false) (hrst : isRst pkt = false)
    (e : nat₀.translateOut pkt now = .ok (.translate, nat₁, pkt'))
    (hp : outTuple pkt' = some { key with src := wg, sport := p })
    (hrun : Run (Undisturbed wg key p) (nat₁, now) ops (nat₂, last)) :
    (∀ out t, outTuple out = some key → ∃ nat₃ out',
      nat₂.translateOut out t = .ok (.translate, nat₃, out') ∧
        outTuple out' = some { key with src := wg, sport := p }) ∧
    (∀ reply t, inTarget reply = some ⟨key.proto, p⟩ → addr reply 16 = wg → ∃ nat₃ reply',
      nat₂.translateIn reply t = .ok (.translate, nat₃, reply') ∧
        addr reply' 16 = key.src ∧ inTarget reply' = some ⟨key.proto, key.sport⟩) := by
  have hs := h₀.sound
  have hkeyed := Nat44.keyed_of_translate hk hf e
  obtain ⟨-, hr, hd, -⟩ := Nat44.outClass_keyed_iff.mp hkeyed
  have hcall : NatStep nat₀ (.translateOut pkt now) nat₁ := ⟨some (.translate, pkt'), by
    rw [Nat44.call, e]; rfl⟩
  have hf₁ : nat₁.forwards key = false := by
    rw [Nat44.forwards_congr (Nat44.call_grows hs.inv rfl hcall).forward, hf]
  obtain ⟨hl, hs₂, hf₂⟩ := (Nat44.live_of_translateOut hs hk hf hrst e hp).run (hs.call rfl hcall)
    ⟨hr, hs.wgAddr ▸ hd⟩ hf₁ hrun
  refine ⟨fun out t ho => ?_, fun reply t ht ha => ?_⟩
  · have hc : nat₂.outClass out = .keyed key :=
      Nat44.outClass_keyed_iff.mpr ⟨ho, hr, hs₂.wgAddr.trans hs.wgAddr.symm ▸ hd, hf₂⟩
    exact ⟨_, _, hl.carries hc t, hs₂.wgAddr ▸ outTuple_outRewritten _ p ho⟩
  · have ha' : addr reply 16 = nat₂.wgAddr := ha.trans hs₂.wgAddr.symm
    exact ⟨_, _, hs₂.unshadowed.delivers ht ha' hl.rev t,
      addr_inRewritten (inTarget_eq_some.mp ht).1 ha', inTarget_inRewritten _ _ ht⟩

/-- The tuple of the one binding of `Nat44.opened`. -/
def lookupKey : FwdKey := ⟨PROTO_UDP, ⟨10, 0, 0, 5⟩, 5000, ⟨1, 1, 1, 1⟩, 53⟩

/-- Another flow's packet and a sweep pass between a lookup and its answer. -/
theorem round_trip_lookup :
    ∃ nat₂ nat₃ reply',
      Run (Undisturbed ⟨10, 2, 0, 2⟩ lookupKey 1024) (Nat44.opened, 7)
        [.translateOut (udpPacket ⟨10, 0, 0, 5⟩ 5001 ⟨1, 1, 1, 1⟩ 53) 8, .expire 9] (nat₂, 7) ∧
      nat₂.translateIn (udpPacket ⟨1, 1, 1, 1⟩ 53 ⟨10, 2, 0, 2⟩ 1024) 10 =
        .ok (.translate, nat₃, reply') ∧
      addr reply' 16 = ⟨10, 0, 0, 5⟩ ∧ inTarget reply' = some ⟨PROTO_UDP, 5000⟩ := by
  have hother : Undisturbed ⟨10, 2, 0, 2⟩ lookupKey 1024 (Nat44.opened, 7)
      (.translateOut (udpPacket ⟨10, 0, 0, 5⟩ 5001 ⟨1, 1, 1, 1⟩ 53) 8)
      (Nat44.opened.after [.translateOut (udpPacket ⟨10, 0, 0, 5⟩ 5001 ⟨1, 1, 1, 1⟩ 53) 8], 7) :=
    ⟨⟨_, rfl⟩, rfl, by decide, nofun, by decide⟩
  have hsweep : ∀ nat, Undisturbed ⟨10, 2, 0, 2⟩ lookupKey 1024 (nat, 7) (.expire 9)
      ((nat.expire 9).2, 7) := fun nat =>
    ⟨⟨_, rfl⟩, rfl, nofun, fun now h => by
      cases h
      change durationSince 9 7 < Nat44.idleOf PROTO_UDP
      decide, (if_neg nofun).symm⟩
  have hrun := Run.more hother (Run.one (hsweep _))
  have hout : (Nat44.new ⟨10, 2, 0, 2⟩).translateOut
      (udpPacket ⟨10, 0, 0, 5⟩ 5000 ⟨1, 1, 1, 1⟩ 53) 7 = .ok (.translate, Nat44.opened,
        outRewritten ⟨10, 2, 0, 2⟩ (udpPacket ⟨10, 0, 0, 5⟩ 5000 ⟨1, 1, 1, 1⟩ 53) lookupKey 1024) :=
    rfl
  obtain ⟨nat₃, reply', e, ha, ht⟩ := (round_trip (Reachable.of_start (.inl rfl)) (by decide)
    (by decide) (by decide) hout (by decide) hrun).2
    (udpPacket ⟨1, 1, 1, 1⟩ 53 ⟨10, 2, 0, 2⟩ 1024) 10 (by decide) (by decide)
  exact ⟨_, nat₃, reply', hrun, e, ha, ht⟩

end Tunnel.Wg
