import Tunnel.Support.Runs
import Tunnel.Wg.Tuple

/-!
# Wg — The binding tables

The invariant of the two hash maps, over every sequence of calls: they are inverse to each other,
within their bound, and name only ports of the dynamic range.

* `Nat44.Inv`: the invariant.  `Inv.call` is its preservation by one call, assembled from one lemma
  per primitive change of the tables (`Inv.bind`, `Inv.refresh`, `Inv.close`, `Inv.expire`, …).
* `scanPorts_spec`: what the allocator finds.
* `NatReachable.inv`: the invariant holds in every reachable state.
-/

namespace Tunnel.Wg
open Support

/-- The driver calls `nat` and finds it in the state `nat'`. -/
def NatStep (nat : Nat44) (op : NatOp) (nat' : Nat44) : Prop :=
  ∃ out, nat.call op = .ok (out, nat')

/-- The states a NAT reaches from `new wg` by any calls in any order. -/
def NatReachable (wg : Ipv4Addr) : Nat44 → Prop := Reachable (· = Nat44.new wg) NatStep

theorem NatStep.translateOut {nat nat' : Nat44} {pkt : Bytes} {now : Instant}
    (e : NatStep nat (.translateOut pkt now) nat') :
    ∃ v pkt', nat.translateOut pkt now = .ok (v, nat', pkt') := by
  obtain ⟨out, e⟩ := e
  obtain ⟨⟨v, nat₁, pkt'⟩, e₁, e₂⟩ := bind_eq_ok.mp e
  cases e₂
  exact ⟨v, pkt', e₁⟩

theorem NatStep.translateIn {nat nat' : Nat44} {pkt : Bytes} {now : Instant}
    (e : NatStep nat (.translateIn pkt now) nat') :
    ∃ v pkt', nat.translateIn pkt now = .ok (v, nat', pkt') := by
  obtain ⟨out, e⟩ := e
  obtain ⟨⟨v, nat₁, pkt'⟩, e₁, e₂⟩ := bind_eq_ok.mp e
  cases e₂
  exact ⟨v, pkt', e₁⟩

namespace Nat44

/-- The state after a sequence of calls. -/
def after (nat : Nat44) : List NatOp → Nat44
  | [] => nat
  | op :: ops =>
    match nat.call op with
    | .ok (_, nat) => nat.after ops
    | .error _ => nat

/-- Every sequence of calls has a run. -/
theorem run_after (nat : Nat44) (ops : List NatOp) : Run NatStep nat ops (nat.after ops) := by
  induction ops generalizing nat with
  | nil => exact .refl nat
  | cons op ops ih =>
      obtain ⟨out, nat', h⟩ := nat.call_total op
      rw [after, h]
      exact .more ⟨out, h⟩ (ih nat')

/-- The tables' representation invariant. -/
structure Inv (nat : Nat44) : Prop where
  /-- An outbound entry names a binding with its tuple. -/
  fwd_rev : ∀ key p, nat.fwd.lookup key = some p →
    ∃ b, nat.rev.lookup ⟨key.proto, p⟩ = some b ∧ b.key key.proto = key
  /-- A binding's tuple is mapped to its port. -/
  rev_fwd : ∀ proto p b, nat.rev.lookup ⟨proto, p⟩ = some b →
    nat.fwd.lookup (b.key proto) = some p
  icmp_dport : ∀ p b, nat.rev.lookup ⟨PROTO_ICMP, p⟩ = some b → b.dport = 0
  size_le : nat.rev.size ≤ MAX_BINDINGS
  port_ge : ∀ k b, nat.rev.lookup k = some b → PORT_LO ≤ k.port
  cursor_ge : PORT_LO ≤ nat.nextPort

theorem inv_new (wg : Ipv4Addr) : (new wg).Inv where
  fwd_rev key p h := by cases h
  rev_fwd proto p b h := by cases h
  icmp_dport p b h := by cases h
  size_le := Nat.zero_le _
  port_ge k b h := by cases h
  cursor_ge := UInt16.le_refl _

/-- The two tables have equally many entries. -/
theorem Inv.size_eq {nat : Nat44} (h : nat.Inv) : nat.fwd.size = nat.rev.size :=
  Finmap.size_eq_of_inverse (fun key p => ⟨key.proto, p⟩) (fun k b => b.key k.proto)
    (fun key p hp => h.fwd_rev key p hp)
    (fun k b hb => ⟨k.port, h.rev_fwd k.proto k.port b hb, rfl⟩)

/-- The invariant is about the tables and the cursor alone. -/
theorem Inv.congr {nat nat' : Nat44} (h : nat.Inv) (hf : nat'.fwd = nat.fwd)
    (hr : nat'.rev = nat.rev) (hn : nat'.nextPort = nat.nextPort) : nat'.Inv where
  fwd_rev := hf ▸ hr ▸ h.fwd_rev
  rev_fwd := hf ▸ hr ▸ h.rev_fwd
  icmp_dport := hr ▸ h.icmp_dport
  size_le := hr ▸ h.size_le
  port_ge := hr ▸ h.port_ge
  cursor_ge := hn ▸ h.cursor_ge

/-! ### The allocator -/

theorem cursorAfter_ge {port : UInt16} (h : PORT_LO ≤ port) : PORT_LO ≤ cursorAfter port := by
  unfold cursorAfter
  split
  · exact UInt16.le_refl _
  · next hh =>
      rw [UInt16.le_iff_toNat_le] at h ⊢
      have hlt : port.toNat < 65535 := by
        simpa [PORT_HI, UInt16.le_iff_toNat_le] using hh
      rw [UInt16.toNat_add]
      simp only [UInt16.reduceToNat]
      omega

/-- The scan returns a port of the range that is neither reserved nor in use, and leaves the cursor
in the range. -/
theorem scanPorts_spec (nat : Nat44) (proto : UInt8) (n : ℕ) {cursor : UInt16}
    (h : PORT_LO ≤ cursor) :
    PORT_LO ≤ (nat.scanPorts proto n cursor).2 ∧
      ∀ p, (nat.scanPorts proto n cursor).1 = some p →
        PORT_LO ≤ p ∧ nat.reserved proto p = false ∧ nat.rev.lookup ⟨proto, p⟩ = none := by
  induction n generalizing cursor with
  | zero => exact ⟨h, fun p hp => by cases hp⟩
  | succ n ih =>
      rw [scanPorts]
      split
      · next hc =>
          simp only [Bool.and_eq_true, Bool.not_eq_true', Option.isNone_iff_eq_none] at hc
          exact ⟨cursorAfter_ge h, fun p hp => by cases hp; exact ⟨h, hc⟩⟩
      · exact ih (cursorAfter_ge h)

/-- An allocation changes the cursor alone. -/
theorem allocPort_spec (nat : Nat44) (proto : UInt8) (h : PORT_LO ≤ nat.nextPort) :
    ∃ cursor, (nat.allocPort proto).2 = { nat with nextPort := cursor } ∧ PORT_LO ≤ cursor ∧
      ∀ p, (nat.allocPort proto).1 = some p →
        nat.rev.size < MAX_BINDINGS ∧ PORT_LO ≤ p ∧ nat.reserved proto p = false ∧
          nat.rev.lookup ⟨proto, p⟩ = none := by
  unfold allocPort
  split
  · exact ⟨nat.nextPort, rfl, h, fun p hp => by cases hp⟩
  · next hs =>
      obtain ⟨hc, hp⟩ := nat.scanPorts_spec proto span h
      exact ⟨_, rfl, hc, fun p hp' => ⟨Nat.lt_of_not_le hs, hp p hp'⟩⟩

/-- What `bind` does: return the port of a binding there is, fail and move the cursor, or open a
binding on a port that was free. -/
theorem bind_cases (nat : Nat44) (key : FwdKey) (now : Instant) (h : PORT_LO ≤ nat.nextPort) :
    (∃ p, nat.fwd.lookup key = some p ∧ nat.bind key now = (some p, nat)) ∨
    (∃ cursor, nat.fwd.lookup key = none ∧ PORT_LO ≤ cursor ∧
      nat.bind key now = (none, { nat with nextPort := cursor })) ∨
    (∃ p cursor, nat.fwd.lookup key = none ∧ PORT_LO ≤ cursor ∧ nat.rev.size < MAX_BINDINGS ∧
      PORT_LO ≤ p ∧ nat.reserved key.proto p = false ∧ nat.rev.lookup ⟨key.proto, p⟩ = none ∧
      nat.bind key now = (some p, { nat with
        nextPort := cursor
        fwd := nat.fwd.insert key p
        rev := nat.rev.insert ⟨key.proto, p⟩ ⟨key.src, key.sport, key.dst, key.dport, now⟩ })) := by
  unfold bind
  cases hk : nat.fwd.lookup key with
  | some p => exact .inl ⟨p, rfl, rfl⟩
  | none =>
      obtain ⟨cursor, he, hc, hp⟩ := nat.allocPort_spec key.proto h
      rcases ha : nat.allocPort key.proto with ⟨_ | p, nat'⟩
      · rw [ha] at he
        exact .inr (.inl ⟨cursor, rfl, hc, by dsimp only at he ⊢; rw [he]⟩)
      · rw [ha] at he hp
        obtain ⟨hs, hp, hr, hl⟩ := hp p rfl
        exact .inr (.inr ⟨p, cursor, rfl, hc, hs, hp, hr, hl, by dsimp only at he ⊢; rw [he]⟩)

/-! ### The primitive changes -/

/-- A binding opened on a free port. -/
theorem Inv.open {nat : Nat44} (h : nat.Inv) {key : FwdKey} {p cursor : UInt16} {now : Instant}
    (hk : nat.fwd.lookup key = none) (hc : PORT_LO ≤ cursor) (hs : nat.rev.size < MAX_BINDINGS)
    (hp : PORT_LO ≤ p) (hr : nat.rev.lookup ⟨key.proto, p⟩ = none)
    (hi : key.proto = PROTO_ICMP → key.dport = 0) :
    Inv { nat with
      nextPort := cursor
      fwd := nat.fwd.insert key p
      rev := nat.rev.insert ⟨key.proto, p⟩ ⟨key.src, key.sport, key.dst, key.dport, now⟩ } where
  fwd_rev key' p' h' := by
    simp only [Finmap.lookup_insert_eq] at h' ⊢
    by_cases e : key' = key
    · subst e
      rw [if_pos rfl] at h'
      cases h'
      exact ⟨_, if_pos rfl, rfl⟩
    · rw [if_neg e] at h'
      obtain ⟨b, hb, he⟩ := h.fwd_rev key' p' h'
      have hne : (⟨key'.proto, p'⟩ : RevKey) ≠ ⟨key.proto, p⟩ := by
        intro e
        rw [e, hr] at hb; cases hb
      exact ⟨b, by rw [if_neg hne, hb], he⟩
  rev_fwd proto p' b h' := by
    simp only [Finmap.lookup_insert_eq] at h' ⊢
    by_cases e : (⟨proto, p'⟩ : RevKey) = ⟨key.proto, p⟩
    · rw [if_pos e] at h'
      cases h'
      cases e
      exact if_pos rfl
    · rw [if_neg e] at h'
      have hb := h.rev_fwd proto p' b h'
      have hne : b.key proto ≠ key := fun e => by rw [e, hk] at hb; cases hb
      rw [if_neg hne, hb]
  icmp_dport p' b h' := by
    simp only [Finmap.lookup_insert_eq] at h'
    split at h'
    · next e =>
        cases h'
        exact hi (congrArg RevKey.proto e).symm
    · exact h.icmp_dport p' b h'
  size_le := by
    change (nat.rev.insert _ _).size ≤ MAX_BINDINGS
    rw [Finmap.size_insert_of_lookup_none _ hr]
    exact hs
  port_ge k b h' := by
    simp only [Finmap.lookup_insert_eq] at h'
    split at h'
    · next e => rw [e]; exact hp
    · exact h.port_ge k b h'
  cursor_ge := hc

theorem Inv.bind {nat : Nat44} (h : nat.Inv) {key : FwdKey} (now : Instant)
    (hi : key.proto = PROTO_ICMP → key.dport = 0) : (nat.bind key now).2.Inv := by
  rcases nat.bind_cases key now h.cursor_ge with ⟨p, -, e⟩ | ⟨cursor, -, hc, e⟩ |
      ⟨p, cursor, hk, hc, hs, hp, -, hr, e⟩
  · rw [e]; exact h
  · rw [e]
    exact ⟨h.fwd_rev, h.rev_fwd, h.icmp_dport, h.size_le, h.port_ge, hc⟩
  · rw [e]; exact h.open hk hc hs hp hr hi

/-- A packet leaves through the binding of its tuple, and the other bindings stay. -/
theorem bind_lookup {nat nat' : Nat44} (hi : nat.Inv) {key : FwdKey} {p : UInt16} {now : Instant}
    (e : nat.bind key now = (some p, nat')) :
    (∃ b, nat'.rev.lookup ⟨key.proto, p⟩ = some b ∧ b.key key.proto = key) ∧
      ∀ k, k ≠ ⟨key.proto, p⟩ → nat'.rev.lookup k = nat.rev.lookup k := by
  rcases nat.bind_cases key now hi.cursor_ge with ⟨q, hq, e'⟩ | ⟨cursor, -, -, e'⟩ |
      ⟨q, cursor, -, -, -, -, -, -, e'⟩ <;> rw [e] at e' <;> cases e'
  · exact ⟨hi.fwd_rev key p hq, fun _ _ => rfl⟩
  · exact ⟨⟨_, Finmap.lookup_insert _, rfl⟩, fun _ hne => Finmap.lookup_insert_of_ne _ hne⟩

theorem lookup_refresh (nat : Nat44) (k j : RevKey) (now : Instant) :
    (nat.refresh k now).rev.lookup j =
      if j = k then (nat.rev.lookup k).map fun b => { b with last := now }
      else nat.rev.lookup j := by
  unfold refresh
  cases hk : nat.rev.lookup k with
  | none =>
      dsimp only
      split
      · next e => rw [e, hk]; rfl
      · rfl
  | some b => exact Finmap.lookup_insert_eq _ _ _ _

@[simp] theorem refresh_fwd (nat : Nat44) (k : RevKey) (now : Instant) :
    (nat.refresh k now).fwd = nat.fwd := by
  unfold refresh; split <;> rfl

@[simp] theorem refresh_forward (nat : Nat44) (k : RevKey) (now : Instant) :
    (nat.refresh k now).forward = nat.forward := by
  unfold refresh; split <;> rfl

@[simp] theorem refresh_nextPort (nat : Nat44) (k : RevKey) (now : Instant) :
    (nat.refresh k now).nextPort = nat.nextPort := by
  unfold refresh; split <;> rfl

theorem refresh_size (nat : Nat44) (k : RevKey) (now : Instant) :
    (nat.refresh k now).rev.size = nat.rev.size := by
  unfold refresh
  split
  · next b hb => exact Finmap.size_insert_of_lookup_some hb
  · rfl

/-- A refreshed table holds the same bindings, up to their times. -/
theorem lookup_refresh_some {nat : Nat44} {k j : RevKey} {now : Instant} {b : Binding}
    (h : (nat.refresh k now).rev.lookup j = some b) :
    ∃ b', nat.rev.lookup j = some b' ∧ b.key j.proto = b'.key j.proto ∧ b.dport = b'.dport := by
  rw [lookup_refresh] at h
  split at h
  · next e =>
      obtain ⟨b', hb', rfl⟩ := Option.map_eq_some_iff.mp h
      exact ⟨b', e ▸ hb', rfl, rfl⟩
  · exact ⟨b, h, rfl, rfl⟩

theorem Inv.refresh {nat : Nat44} (h : nat.Inv) (k : RevKey) (now : Instant) :
    (nat.refresh k now).Inv where
  fwd_rev key p h' := by
    rw [refresh_fwd] at h'
    obtain ⟨b, hb, he⟩ := h.fwd_rev key p h'
    rw [lookup_refresh]
    split
    · next e => exact ⟨{ b with last := now }, by rw [← e, hb]; rfl, he⟩
    · exact ⟨b, hb, he⟩
  rev_fwd proto p b h' := by
    obtain ⟨b', hb', e, -⟩ := lookup_refresh_some h'
    rw [refresh_fwd, e]
    exact h.rev_fwd proto p b' hb'
  icmp_dport p b h' := by
    obtain ⟨b', hb', -, e⟩ := lookup_refresh_some h'
    rw [e]
    exact h.icmp_dport p b' hb'
  size_le := by rw [refresh_size]; exact h.size_le
  port_ge j b h' := by
    obtain ⟨b', hb', -⟩ := lookup_refresh_some h'
    exact h.port_ge j b' hb'
  cursor_ge := by rw [refresh_nextPort]; exact h.cursor_ge

theorem lookup_close (nat : Nat44) (k j : RevKey) :
    (nat.close k.proto k.port).rev.lookup j = if j = k then none else nat.rev.lookup j := by
  unfold close
  cases hk : nat.rev.lookup k with
  | none =>
      dsimp only
      split
      · next e => rw [e, hk]
      · rfl
  | some b => exact Finmap.lookup_erase_eq _ _ _

theorem lookup_closeIf_some {nat : Nat44} {rst : Bool} {k j : RevKey} {b : Binding}
    (h : (nat.closeIf rst k).rev.lookup j = some b) : nat.rev.lookup j = some b := by
  unfold closeIf at h
  split at h
  · rw [lookup_close] at h
    split at h
    · cases h
    · exact h
  · exact h

/-- A binding closed is gone from both tables, and no other is. -/
theorem Inv.lookup_close_fwd {nat : Nat44} (h : nat.Inv) (k : RevKey) (key : FwdKey)
    (p : UInt16) :
    (nat.close k.proto k.port).fwd.lookup key = some p ↔
      nat.fwd.lookup key = some p ∧ (⟨key.proto, p⟩ : RevKey) ≠ k := by
  unfold close
  cases hk : nat.rev.lookup k with
  | none =>
      refine ⟨fun hf => ⟨hf, fun e => ?_⟩, And.left⟩
      obtain ⟨b, hb, -⟩ := h.fwd_rev key p hf
      rw [e, hk] at hb
      cases hb
  | some b =>
      have hb := h.rev_fwd k.proto k.port b hk
      dsimp only
      rw [Finmap.lookup_erase_eq]
      by_cases e : key = b.key k.proto
      · subst e
        refine iff_of_false (by simp) fun ⟨hf, hne⟩ => hne ?_
        rw [hb] at hf
        cases hf
        rfl
      · rw [if_neg e]
        refine ⟨fun hf => ⟨hf, fun e' => e ?_⟩, And.left⟩
        obtain ⟨b', hb', he⟩ := h.fwd_rev key p hf
        subst e'
        rw [hk] at hb'
        cases hb'
        exact he.symm

theorem close_nextPort (nat : Nat44) (proto : UInt8) (port : UInt16) :
    (nat.close proto port).nextPort = nat.nextPort := by
  unfold close; split <;> rfl

@[simp] theorem close_forward (nat : Nat44) (proto : UInt8) (port : UInt16) :
    (nat.close proto port).forward = nat.forward := by
  unfold close; split <;> rfl

@[simp] theorem close_wgAddr (nat : Nat44) (proto : UInt8) (port : UInt16) :
    (nat.close proto port).wgAddr = nat.wgAddr := by
  unfold close; split <;> rfl

theorem close_size_le (nat : Nat44) (proto : UInt8) (port : UInt16) :
    (nat.close proto port).rev.size ≤ nat.rev.size := by
  unfold close
  split
  · exact Finmap.size_erase_le _ _
  · exact Nat.le_refl _

/-- Both tables restricted to a set of bindings, which is what a close and a sweep leave. -/
theorem Inv.restrict {nat nat' : Nat44} (h : nat.Inv) (keep : RevKey → Binding → Prop)
    (hr : ∀ j b, nat'.rev.lookup j = some b ↔ nat.rev.lookup j = some b ∧ keep j b)
    (hf : ∀ key p, nat'.fwd.lookup key = some p ↔ nat.fwd.lookup key = some p ∧
      ∀ b, nat.rev.lookup ⟨key.proto, p⟩ = some b → keep ⟨key.proto, p⟩ b)
    (hs : nat'.rev.size ≤ nat.rev.size) (hn : nat'.nextPort = nat.nextPort) : nat'.Inv where
  fwd_rev key p h' := by
    obtain ⟨hk, hkeep⟩ := (hf key p).mp h'
    obtain ⟨b, hb, he⟩ := h.fwd_rev key p hk
    exact ⟨b, (hr _ b).mpr ⟨hb, hkeep b hb⟩, he⟩
  rev_fwd proto p b h' := by
    obtain ⟨hb, hk⟩ := (hr _ b).mp h'
    refine (hf _ p).mpr ⟨h.rev_fwd proto p b hb, fun b' hb' => ?_⟩
    change nat.rev.lookup ⟨proto, p⟩ = some b' at hb'
    rw [hb] at hb'
    cases hb'
    exact hk
  icmp_dport p b h' := h.icmp_dport p b ((hr _ b).mp h').1
  size_le := Nat.le_trans hs h.size_le
  port_ge k b h' := h.port_ge k b ((hr k b).mp h').1
  cursor_ge := hn ▸ h.cursor_ge

theorem Inv.close {nat : Nat44} (h : nat.Inv) (k : RevKey) : (nat.close k.proto k.port).Inv := by
  refine h.restrict (fun j _ => j ≠ k) (fun j b => ?_) (fun key p => ?_)
    (close_size_le _ _ _) (close_nextPort _ _ _)
  · rw [lookup_close]
    by_cases e : j = k <;> simp [e]
  · rw [h.lookup_close_fwd k key]
    refine and_congr_right fun hf => ?_
    obtain ⟨b, hb, -⟩ := h.fwd_rev key p hf
    simp [hb]

theorem Inv.closeIf {nat : Nat44} (h : nat.Inv) (rst : Bool) (k : RevKey) :
    (nat.closeIf rst k).Inv := by
  unfold Nat44.closeIf
  split
  · exact h.close k
  · exact h

theorem Inv.noteFrag {nat : Nat44} (h : nat.Inv) (pkt : Bytes) (host : Ipv4Addr)
    (now : Instant) : (nat.noteFrag pkt host now).Inv := by
  obtain ⟨-, hf, hr, hn, -⟩ := nat.noteFrag_sameTables pkt host now
  exact h.congr hf hr hn

/-- The sweep's two tables: the bindings that are fresh, and the tuples of those. -/
theorem lookup_expire_rev (nat : Nat44) (now : Instant) (k : RevKey) :
    (nat.expire now).2.rev.lookup k = (nat.rev.lookup k).filter (fresh now k) :=
  Finmap.lookup_retain _ _ _

theorem Inv.lookup_expire_fwd {nat : Nat44} (h : nat.Inv) (now : Instant) (key : FwdKey)
    (p : UInt16) :
    (nat.expire now).2.fwd.lookup key = some p ↔ nat.fwd.lookup key = some p ∧
      ∀ b, nat.rev.lookup ⟨key.proto, p⟩ = some b → fresh now ⟨key.proto, p⟩ b = true := by
  have hmem : ∀ key, key ∈ ((nat.rev.retain fun k b => !fresh now k b).entries.map
      fun e => e.2.key e.1.proto) ↔
      ∃ k b, nat.rev.lookup k = some b ∧ fresh now k b = false ∧ b.key k.proto = key := by
    intro key
    simp only [Multiset.mem_map, Sigma.exists]
    refine exists_congr fun k => exists_congr fun b => ?_
    rw [← Finmap.lookup_eq_some_iff_mem, Finmap.lookup_retain, Option.filter_eq_some_iff]
    simp [and_assoc]
  change (nat.fwd.eraseAll _).lookup key = some p ↔ _
  rw [Finmap.lookup_eraseAll]
  split
  · next hm =>
      obtain ⟨k, b, hb, hfr, rfl⟩ := (hmem key).mp hm
      refine iff_of_false (by simp) fun ⟨hf, hk⟩ => ?_
      rw [h.rev_fwd k.proto k.port b hb] at hf
      cases hf
      have hf' : fresh now k b = true := hk b hb
      rw [hfr] at hf'
      cases hf'
  · next hm =>
      refine ⟨fun hf => ⟨hf, fun b hb => ?_⟩, And.left⟩
      by_contra hfr
      obtain ⟨b', hb', he⟩ := h.fwd_rev key p hf
      rw [hb] at hb'
      cases hb'
      exact hm ((hmem key).mpr ⟨_, b, hb, by simpa using hfr, he⟩)

theorem Inv.expire {nat : Nat44} (h : nat.Inv) (now : Instant) : (nat.expire now).2.Inv :=
  h.restrict (fun k b => fresh now k b = true)
    (fun j b => by rw [lookup_expire_rev, Option.filter_eq_some_iff])
    (fun key p => h.lookup_expire_fwd now key p) (Finmap.size_retain_le _ _) rfl

/-! ### The calls -/

theorem outTuple_icmp {pkt : Bytes} {key : FwdKey} (h : outTuple pkt = some key)
    (hp : key.proto = PROTO_ICMP) : key.dport = 0 := by
  obtain ⟨-, -, hp', -, -, hl⟩ := outTuple_eq_some.mp h
  obtain ⟨-, ⟨ht, -⟩ | ⟨-, -, -, hd⟩⟩ := outL4_ports_iff.mp hl
  · exact absurd hp (ne_icmp_of_isTcpUdp (hp' ▸ ht))
  · exact hd.symm

theorem Inv.translateOut {nat nat' : Nat44} {pkt pkt' : Bytes} {now : Instant} {v : Verdict}
    (h : nat.Inv) (e : nat.translateOut pkt now = .ok (v, nat', pkt')) : nat'.Inv := by
  have hb : ∀ key, nat.outClass pkt = .keyed key → (nat.bind key now).2.Inv := fun key hc =>
    h.bind now (outTuple_icmp (outClass_keyed_iff.mp hc).1)
  rcases translateOut_cases e with ⟨-, rfl⟩ | ⟨key, hc, hn, -⟩ | ⟨key, p, nat₁, hc, hn, -, -, rfl⟩
  · exact h
  · have := hb key hc
    rwa [hn] at this
  · have := hb key hc
    rw [hn] at this
    exact (this.refresh _ now).closeIf _ _

theorem Inv.translateIn {nat nat' : Nat44} {pkt pkt' : Bytes} {now : Instant} {v : Verdict}
    (h : nat.Inv) (e : nat.translateIn pkt now = .ok (v, nat', pkt')) : nat'.Inv := by
  rcases translateIn_cases e with ⟨-, hf, hr, hn, -⟩ | ⟨k, b, -, -, -, -, rfl⟩ |
      ⟨k, b, -, -, -, -, rfl⟩
  · exact h.congr hf hr hn
  · exact h.refresh k now
  · exact ((h.refresh k now).noteFrag pkt b.src now).closeIf _ _

theorem Inv.call {nat nat' : Nat44} {op : NatOp} (h : nat.Inv) (e : NatStep nat op nat') :
    nat'.Inv := by
  obtain ⟨out, e⟩ := e
  cases op with
  | setForward host port => cases e; exact h.congr rfl rfl rfl
  | clearForward => cases e; exact h.congr rfl rfl rfl
  | translateOut pkt now =>
      obtain ⟨v, pkt', e₁⟩ := NatStep.translateOut ⟨out, e⟩
      exact h.translateOut e₁
  | translateIn pkt now =>
      obtain ⟨v, pkt', e₁⟩ := NatStep.translateIn ⟨out, e⟩
      exact h.translateIn e₁
  | expire now => cases e; exact h.expire now

end Nat44

theorem NatReachable.inv {wg : Ipv4Addr} {nat : Nat44} (h : NatReachable wg nat) : nat.Inv :=
  have hnew : ∀ nat, nat = Nat44.new wg → nat.Inv := fun _ e => e ▸ Nat44.inv_new wg
  Reachable.invariant hnew (fun _ _ _ => Nat44.Inv.call) h

/-- The two tables are exact inverses, no two conversations of a protocol share a port, and sizes,
ports and cursor keep within their bounds. -/
theorem tables_exact {wg : Ipv4Addr} {nat : Nat44} (h : NatReachable wg nat) :
    (∀ key p, nat.fwd.lookup key = some p ↔
      ∃ b, nat.rev.lookup ⟨key.proto, p⟩ = some b ∧ b.key key.proto = key) ∧
    (∀ p b, nat.rev.lookup ⟨PROTO_ICMP, p⟩ = some b → b.dport = 0) ∧
    (∀ key key' p, key.proto = key'.proto → nat.fwd.lookup key = some p →
      nat.fwd.lookup key' = some p → key = key') ∧
    nat.fwd.size = nat.rev.size ∧ nat.rev.size ≤ MAX_BINDINGS ∧
    (∀ key p, nat.fwd.lookup key = some p → 1024 ≤ p.toNat ∧ p.toNat ≤ 65535) ∧
    (∀ k b, nat.rev.lookup k = some b → 1024 ≤ k.port.toNat ∧ k.port.toNat ≤ 65535) ∧
    1024 ≤ nat.nextPort.toNat ∧ nat.nextPort.toNat ≤ 65535 := by
  have hi := h.inv
  have hle : ∀ p : UInt16, p.toNat ≤ 65535 := fun p => Nat.le_of_lt_succ p.toNat_lt
  have hge : ∀ {p : UInt16}, PORT_LO ≤ p → 1024 ≤ p.toNat := fun h => UInt16.le_iff_toNat_le.mp h
  refine ⟨fun key p => ⟨hi.fwd_rev key p, ?_⟩, hi.icmp_dport, ?_, hi.size_eq, hi.size_le, ?_, ?_,
    hge hi.cursor_ge, hle _⟩
  · rintro ⟨b, hb, he⟩
    exact he ▸ hi.rev_fwd key.proto p b hb
  · intro key key' p hp h₁ h₂
    obtain ⟨b₁, hb₁, e₁⟩ := hi.fwd_rev key p h₁
    obtain ⟨b₂, hb₂, e₂⟩ := hi.fwd_rev key' p h₂
    rw [hp, hb₂] at hb₁
    cases hb₁
    rw [← e₁, ← e₂, hp]
  · intro key p hp
    obtain ⟨b, hb, -⟩ := hi.fwd_rev key p hp
    exact ⟨hge (hi.port_ge _ b hb), hle p⟩
  · intro k b hb
    exact ⟨hge (hi.port_ge k b hb), hle _⟩

/-- A UDP packet without payload, its checksum disabled. -/
def udpPacket (src : Ipv4Addr) (sport : UInt16) (dst : Ipv4Addr) (dport : UInt16) : Bytes :=
  [0x45, 0, 0, 28, 0, 0, 0, 0, 64, PROTO_UDP, 0, 0] ++ src.octets ++ dst.octets ++
    beBytes sport ++ beBytes dport ++ [0, 8, 0, 0]

/-- A NAT that has opened one binding. -/
def Nat44.opened : Nat44 :=
  (Nat44.new ⟨10, 2, 0, 2⟩).after
    [.translateOut (udpPacket ⟨10, 0, 0, 5⟩ 5000 ⟨1, 1, 1, 1⟩ 53) 7]

theorem Nat44.opened_reachable : NatReachable ⟨10, 2, 0, 2⟩ Nat44.opened :=
  ⟨_, _, rfl, Nat44.run_after _ _⟩

theorem tables_exact_opened :
    Nat44.opened.rev.size = 1 ∧ Nat44.opened.fwd.size = Nat44.opened.rev.size ∧
      Nat44.opened.fwd.lookup ⟨PROTO_UDP, ⟨10, 0, 0, 5⟩, 5000, ⟨1, 1, 1, 1⟩, 53⟩ = some 1024 :=
  have h := tables_exact Nat44.opened_reachable
  ⟨by decide, h.2.2.2.1, (h.1 _ _).mpr ⟨⟨⟨10, 0, 0, 5⟩, 5000, ⟨1, 1, 1, 1⟩, 53, 7⟩, by decide, rfl⟩⟩

end Tunnel.Wg
