import Tunnel.Wg.Invariant

/-!
# Wg — The forwarded port

The allocator never hands out the forwarded number, so no binding opened while a forward is set can
be shadowed by it.  `setForward` does not look at the bindings there are: a lease that arrives, or
changes, in the middle of a session may name the port of one.

* `call_rev`: what a packet or a sweep can add to the binding table.
* `unshadowed_iff`: the runs that never shadow a binding are the runs whose every lease names a
  port no TCP or UDP binding holds.
* `forward_shadows`: a run that does.
-/

namespace Tunnel.Wg
open Support

/-- A packet or a sweep: any call but the two that change the forward. -/
def NatOp.isTraffic : NatOp → Bool
  | .setForward _ _ => false
  | .clearForward => false
  | _ => true

namespace Nat44

/-- No TCP or UDP binding holds the forwarded port. -/
def Unshadowed (nat : Nat44) : Prop :=
  ∀ f, nat.forward = some f → ∀ proto, isTcpUdp proto = true →
    nat.rev.lookup ⟨proto, f.port⟩ = none

/-- A lease, if this call is one, names a port that no TCP or UDP binding holds. -/
def PortFree (nat : Nat44) : NatOp → Prop
  | .setForward _ port => ∀ proto, isTcpUdp proto = true → nat.rev.lookup ⟨proto, port⟩ = none
  | _ => True

/-- The bindings of `nat'` were in `nat`, up to their times, or are on ports that are not
reserved; the forward and the address stay. -/
structure Grows (nat nat' : Nat44) : Prop where
  wgAddr : nat'.wgAddr = nat.wgAddr
  forward : nat'.forward = nat.forward
  rev : ∀ k b, nat'.rev.lookup k = some b →
    (∃ b', nat.rev.lookup k = some b') ∨ nat.reserved k.proto k.port = false

theorem Grows.refl (nat : Nat44) : Grows nat nat := ⟨rfl, rfl, fun _ b h => .inl ⟨b, h⟩⟩

theorem Grows.shrink {nat nat₁ nat₂ : Nat44} (h : Grows nat nat₁) (hw : nat₂.wgAddr = nat₁.wgAddr)
    (hf : nat₂.forward = nat₁.forward)
    (hr : ∀ k b, nat₂.rev.lookup k = some b → ∃ b', nat₁.rev.lookup k = some b') :
    Grows nat nat₂ := by
  refine ⟨hw.trans h.wgAddr, hf.trans h.forward, fun k b hb => ?_⟩
  obtain ⟨b', hb'⟩ := hr k b hb
  exact h.rev k b' hb'

theorem Grows.refresh {nat nat₁ : Nat44} (h : Grows nat nat₁) (k : RevKey) (now : Instant) :
    Grows nat (nat₁.refresh k now) :=
  h.shrink (refresh_wgAddr _ _ _) (refresh_forward _ _ _) fun j b hb => by
    obtain ⟨b', hb', -⟩ := lookup_refresh_some hb
    exact ⟨b', hb'⟩

theorem Grows.closeIf {nat nat₁ : Nat44} (h : Grows nat nat₁) (rst : Bool) (k : RevKey) :
    Grows nat (nat₁.closeIf rst k) := by
  unfold Nat44.closeIf
  split
  · refine h.shrink (close_wgAddr _ _ _) (close_forward _ _ _) fun j b hb => ?_
    rw [lookup_close] at hb
    split at hb
    · cases hb
    · exact ⟨b, hb⟩
  · exact h

theorem Grows.sameTables {nat nat₁ nat₂ : Nat44} (h : Grows nat nat₁)
    (hs : SameTables nat₁ nat₂) : Grows nat nat₂ :=
  h.shrink hs.1 hs.2.2.2.2 fun _ b hb => ⟨b, hs.2.2.1 ▸ hb⟩

theorem grows_bind {nat : Nat44} (h : nat.Inv) (key : FwdKey) (now : Instant) :
    Grows nat (nat.bind key now).2 := by
  rcases nat.bind_cases key now h.cursor_ge with ⟨p, -, e⟩ | ⟨cursor, -, -, e⟩ |
      ⟨p, cursor, -, -, -, -, hr, -, e⟩
  · rw [e]; exact Grows.refl nat
  · rw [e]; exact (Grows.refl nat).shrink rfl rfl fun _ b hb => ⟨b, hb⟩
  · rw [e]
    refine ⟨rfl, rfl, fun k b hb => ?_⟩
    simp only [Finmap.lookup_insert_eq] at hb
    split at hb
    · next e => subst e; exact .inr hr
    · exact .inl ⟨b, hb⟩

/-- What a packet or a sweep can add to the binding table. -/
theorem call_grows {nat nat' : Nat44} {op : NatOp} (h : nat.Inv) (ht : op.isTraffic = true)
    (e : NatStep nat op nat') : Grows nat nat' := by
  obtain ⟨out, e⟩ := e
  cases op with
  | setForward host port => cases ht
  | clearForward => cases ht
  | translateOut pkt now =>
      obtain ⟨v, pkt', e₁⟩ := NatStep.translateOut ⟨out, e⟩
      rcases translateOut_cases e₁ with ⟨-, rfl⟩ | ⟨key, -, hn, -⟩ |
          ⟨key, p, nat₁, -, hn, -, -, rfl⟩
      · exact Grows.refl _
      · have hb := grows_bind h key now
        rwa [hn] at hb
      · have hb := grows_bind h key now
        rw [hn] at hb
        exact (hb.refresh _ now).closeIf _ _
  | translateIn pkt now =>
      obtain ⟨v, pkt', e₁⟩ := NatStep.translateIn ⟨out, e⟩
      rcases translateIn_cases e₁ with hs | ⟨k, b, -, -, -, -, rfl⟩ | ⟨k, b, -, -, -, -, rfl⟩
      · exact (Grows.refl nat).sameTables hs
      · exact (Grows.refl nat).refresh k now
      · exact (((Grows.refl nat).refresh k now).sameTables
          (noteFrag_sameTables _ pkt b.src now)).closeIf _ _
  | expire now =>
      cases e
      refine (Grows.refl nat).shrink rfl rfl fun k b hb => ⟨b, ?_⟩
      rw [lookup_expire_rev, Option.filter_eq_some_iff] at hb
      exact hb.1

theorem unshadowed_new (wg : Ipv4Addr) : (new wg).Unshadowed := fun f hf => by cases hf

/-- Traffic opens no binding on the forwarded port. -/
theorem Unshadowed.grows {nat nat' : Nat44} (h : nat.Unshadowed) (g : Grows nat nat') :
    nat'.Unshadowed := by
  intro f hf proto hp
  rw [g.forward] at hf
  cases hb : nat'.rev.lookup ⟨proto, f.port⟩ with
  | none => rfl
  | some b =>
      rcases g.rev _ b hb with ⟨b', hb'⟩ | hr
      · rw [h f hf proto hp] at hb'
        cases hb'
      · simp [reserved, hp, hf] at hr

/-- A call keeps the forward off the bindings exactly when a lease in it is on a free port. -/
theorem Unshadowed.call_iff {nat nat' : Nat44} {op : NatOp} (hi : nat.Inv) (h : nat.Unshadowed)
    (e : NatStep nat op nat') : nat'.Unshadowed ↔ nat.PortFree op := by
  have ht : op.isTraffic = true → (nat'.Unshadowed ↔ True) := fun ht =>
    iff_true_intro (h.grows (call_grows hi ht e))
  cases op with
  | setForward host port =>
      obtain ⟨out, e⟩ := e
      cases e
      exact ⟨fun h => h ⟨host, port⟩ rfl, fun h f hf => by cases hf; exact h⟩
  | clearForward =>
      obtain ⟨out, e⟩ := e
      cases e
      exact iff_true_intro fun f hf => by cases hf
  | translateOut pkt now => exact ht rfl
  | translateIn pkt now => exact ht rfl
  | expire now => exact ht rfl

theorem Unshadowed.forwardFor {nat : Nat44} (h : nat.Unshadowed) {k : RevKey} {b : Binding}
    (hb : nat.rev.lookup k = some b) : nat.forwardFor k = none := by
  unfold Nat44.forwardFor
  rw [Option.filter_eq_none_iff]
  intro f hf hk
  simp only [Bool.and_eq_true, beq_iff_eq] at hk
  have := h f hf k.proto hk.1
  rw [← hk.2] at this
  cases hb.symm.trans this

/-- An inbound packet for a binding that is not shadowed is delivered to the binding's source. -/
theorem Unshadowed.delivers {nat : Nat44} (h : nat.Unshadowed) {pkt : Bytes} {k : RevKey}
    {b : Binding} (hk : inTarget pkt = some k) (ha : addr pkt 16 = nat.wgAddr)
    (hb : nat.rev.lookup k = some b) (now : Instant) :
    nat.translateIn pkt now = .ok (.translate,
      ((nat.refresh k now).noteFrag pkt b.src now).closeIf (isRst pkt) k,
      inRewritten nat.wgAddr pkt k b) := by
  rw [translateIn_target hk ha (h.forwardFor hb), hb]

end Nat44

/-- The runs in which the forward never shadows a binding are the runs whose every lease names a
port that is free at the time; wherever such a run arrives, a packet for a binding is delivered to
the binding's own source. -/
theorem unshadowed_iff (wg : Ipv4Addr) (ops : List NatOp) (nat : Nat44) :
    (Run (Keeping Nat44.Unshadowed NatStep) (Nat44.new wg) ops nat ↔
      Run (Guarded Nat44.PortFree NatStep) (Nat44.new wg) ops nat) ∧
    (Run (Guarded Nat44.PortFree NatStep) (Nat44.new wg) ops nat →
      nat.Unshadowed ∧ ∀ pkt k b now, inTarget pkt = some k → addr pkt 16 = nat.wgAddr →
        nat.rev.lookup k = some b →
        ∃ nat' pkt', nat.translateIn pkt now = .ok (.translate, nat', pkt') ∧
          addr pkt' 16 = b.src) := by
  have hiff : Run (Keeping Nat44.Unshadowed NatStep) (Nat44.new wg) ops nat ↔
      Run (Guarded Nat44.PortFree NatStep) (Nat44.new wg) ops nat :=
    Run.keeping_iff_guarded (I := Nat44.Inv) (fun _ _ _ => Nat44.Inv.call)
      (fun _ _ _ hi h e => h.call_iff hi e)
      (Nat44.inv_new wg) (Nat44.unshadowed_new wg)
  refine ⟨hiff, fun h => ?_⟩
  have hu : nat.Unshadowed :=
    (hiff.mpr h).invariant (I := Nat44.Unshadowed) (fun _ _ _ _ h => h.2) (Nat44.unshadowed_new wg)
  refine ⟨hu, fun pkt k b now hk ha hb => ⟨_, _, hu.delivers hk ha hb now, ?_⟩⟩
  exact addr_inRewritten (inTarget_eq_some.mp hk).1 ha

/-- A binding opens on port 1024, and then the lease for 1024 arrives. -/
def Nat44.shadowed : Nat44 :=
  (Nat44.new ⟨10, 2, 0, 2⟩).after
    [.translateOut (udpPacket ⟨10, 0, 0, 5⟩ 5000 ⟨1, 1, 1, 1⟩ 53) 7,
      .setForward ⟨10, 0, 0, 9⟩ 1024]

/-- The forward shadows the binding, and the answer to it goes to the forward's host. -/
theorem forward_shadows :
    NatReachable ⟨10, 2, 0, 2⟩ Nat44.shadowed ∧ ¬ Nat44.shadowed.Unshadowed ∧
      (Nat44.shadowed.rev.lookup ⟨PROTO_UDP, 1024⟩).map (·.src) = some ⟨10, 0, 0, 5⟩ ∧
      (Nat44.shadowed.translateIn (udpPacket ⟨1, 1, 1, 1⟩ 53 ⟨10, 2, 0, 2⟩ 1024) 8).toOption.map
        (fun r => (r.1, addr r.2.2 16)) = some (.translate, ⟨10, 0, 0, 9⟩) := by
  have hb : (Nat44.shadowed.rev.lookup ⟨PROTO_UDP, 1024⟩).map (·.src) = some ⟨10, 0, 0, 5⟩ := by
    decide
  refine ⟨⟨_, _, rfl, Nat44.run_after _ _⟩, fun h => ?_, hb, by decide⟩
  rw [h ⟨⟨10, 0, 0, 9⟩, 1024⟩ (by decide) PROTO_UDP (by decide)] at hb
  cases hb

end Tunnel.Wg
