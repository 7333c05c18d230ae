import Tunnel.Wg.Restore

/-!
# Wg — The rewrite of a payload

What the rewrite of one side does behind the IPv4 header, as an operation on the L4 bytes alone, and
what it does to the first bytes of them.

* `payload_sideRewritten`: the payload of a rewritten packet.
* `l4Rewritten_take`: a prefix with the checksum field is rewritten as it is in the whole.
* `l4Rewritten_short_iff`: one without it is, exactly when the field would be left as it is.
-/

namespace Tunnel.Wg
open Support

/-- The L4 bytes of a packet. -/
def payload (pkt : Bytes) : Bytes := pkt.drop (ihlOf pkt)

/-- The rewrite of one side of a packet, behind its header. -/
def l4Rewritten (side : Side) (proto : UInt8) (old new : Ipv4Addr) (p q : UInt16) (l4 : Bytes) :
    Bytes :=
  portRewritten (if old = new then l4 else l4Patched l4 0 proto (patch32 · old new)) 0 side proto
    p q

/-! ### Overwrites -/

section Overwrites

variable {b : Bytes} {i j : ℕ}

/-- A word written over itself. -/
theorem splice_word_self (h : i + 2 ≤ b.length) : splice b i (beBytes (word b i)) = b := by
  have e : b.drop i = beBytes (word b i) ++ b.drop (i + 2) := by
    rw [word, beBytes_be16, List.drop_eq_getElem_cons (by omega),
      List.drop_eq_getElem_cons (by omega), List.getD_eq_getElem _ _ (by omega),
      List.getD_eq_getElem _ _ (by omega)]
    rfl
  rw [splice_eq (by simpa using h), length_beBytes, List.append_assoc, ← e, List.take_append_drop]

/-- Words written at different places, in either order. -/
theorem splice_comm {xs ys : Bytes} (h : i + xs.length ≤ j ∨ j + ys.length ≤ i) :
    splice (splice b i xs) j ys = splice (splice b j ys) i xs := by
  refine List.ext_getElem (by simp) fun k hk _ => ?_
  have e : (splice (splice b i xs) j ys).getD k 0 = (splice (splice b j ys) i xs).getD k 0 := by
    simp only [getD_splice, length_splice]
    split_ifs <;> first | rfl | omega
  rwa [List.getD_eq_getElem _ _ hk, List.getD_eq_getElem _ _ (by simpa using hk)] at e

end Overwrites

variable {side : Side} {proto : UInt8} {old new : Ipv4Addr} {p q : UInt16} {off : ℕ} {l4 : Bytes}

/-! ### Behind the header -/

theorem drop_l4Patched (pkt : Bytes) (ihl : ℕ) (proto : UInt8) (patch : UInt16 → UInt16)
    (h : ihl ≤ pkt.length) :
    (l4Patched pkt ihl proto patch).drop ihl = l4Patched (pkt.drop ihl) 0 proto patch := by
  unfold l4Patched
  cases l4CsumOffset proto with
  | none => rfl
  | some off =>
      dsimp only
      rw [Nat.zero_add, word_drop, List.length_drop]
      by_cases hc : pkt.length < ihl + off + 2 ∨ (proto = PROTO_UDP ∧ word pkt (ihl + off) = 0)
      · rw [if_pos hc, if_pos (hc.imp (by omega) id)]
      · rw [if_neg hc, if_neg (mt (Or.imp (by omega) id) hc), drop_splice (by omega),
          Nat.add_sub_cancel_left]

theorem drop_portRewritten (pkt : Bytes) (ihl : ℕ) (ht : isTcpUdp proto = true)
    (h : ihl ≤ pkt.length) :
    (portRewritten pkt ihl side proto p q).drop ihl =
      portRewritten (pkt.drop ihl) 0 side proto p q := by
  unfold portRewritten
  split
  · rfl
  · by_cases hl : pkt.length < ihl + 4
    · rw [if_pos hl, if_pos (by rw [List.length_drop]; omega)]
    · rw [if_neg hl, if_neg (by rw [List.length_drop]; omega),
        drop_l4Patched _ _ _ _ (by rw [length_splice]; omega), drop_splice (by omega),
        Nat.add_sub_cancel_left, Nat.zero_add]

/-- Behind the header, a rewrite of one side is the rewrite of the payload. -/
theorem payload_sideRewritten {pkt : Bytes} (hok : HdrOk pkt) (ht : isTcpUdp proto = true) :
    payload (sideRewritten side pkt old new proto p q) =
      l4Rewritten side proto old new p q (payload pkt) := by
  obtain ⟨hl, -, hi, hle⟩ := hok
  have haddr : (addrRewritten pkt (ihlOf pkt) side old new (some proto)).drop (ihlOf pkt) =
      if old = new then payload pkt else l4Patched (payload pkt) 0 proto (patch32 · old new) := by
    unfold addrRewritten
    split
    · rfl
    · have hs := side.addr_le
      dsimp only
      rw [drop_l4Patched _ _ _ _ (by rw [length_hdrPatched, length_splice]; exact hle), hdrPatched,
        drop_splice_of_le (by rw [length_beBytes]; omega),
        drop_splice_of_le (by rw [Ipv4Addr.length_octets]; omega)]
      rfl
  rw [payload, ihlOf_sideRewritten hi, sideRewritten,
    drop_portRewritten _ _ ht (by rw [length_addrRewritten]; exact hle), haddr]
  rfl

/-- An address rewrite without the L4 checksum leaves what is behind the header. -/
theorem drop_addrRewritten {pkt : Bytes} {ihl : ℕ} (hi : 20 ≤ ihl) :
    (addrRewritten pkt ihl side old new none).drop ihl = pkt.drop ihl := by
  have hs := side.addr_le
  rw [addrRewritten]
  split
  · rfl
  · dsimp only
    rw [hdrPatched, drop_splice_of_le (by rw [length_beBytes]; omega),
      drop_splice_of_le (by rw [Ipv4Addr.length_octets]; omega)]

theorem payload_addrRewritten {pkt : Bytes} (hok : HdrOk pkt) :
    payload (addrRewritten pkt (ihlOf pkt) side old new none) = payload pkt := by
  have hi := hok.2.2.1
  have hs' := side.le_addr
  have h0 : (addrRewritten pkt (ihlOf pkt) side old new none).getD 0 0 = pkt.getD 0 0 :=
    getD_addrRewritten (by omega) (by omega) nofun
  rw [payload, ihlOf, h0, ← ihlOf, drop_addrRewritten hi, payload]

/-! ### Prefixes -/

/-- The rewrite of the port alone. -/
def portWritten (side : Side) (p q : UInt16) (l4 : Bytes) : Bytes :=
  if p = q then l4 else splice l4 side.port (beBytes q)

@[simp] theorem length_l4Rewritten :
    (l4Rewritten side proto old new p q l4).length = l4.length := by
  rw [l4Rewritten, length_portRewritten]
  split <;> simp

@[simp] theorem length_portWritten : (portWritten side p q l4).length = l4.length := by
  unfold portWritten
  split <;> simp

theorem l4Patched_take {patch : UInt16 → UInt16} {m : ℕ} (ho : l4CsumOffset proto = some off)
    (hm : off + 2 ≤ m) (hl : m ≤ l4.length) :
    l4Patched (l4.take m) 0 proto patch = (l4Patched l4 0 proto patch).take m := by
  unfold l4Patched
  rw [ho]
  dsimp only
  rw [Nat.zero_add, word_take hm, List.length_take, Nat.min_eq_left hl]
  by_cases hc : proto = PROTO_UDP ∧ word l4 off = 0
  · rw [if_pos (.inr hc), if_pos (.inr hc)]
  · have hn : ∀ k, off + 2 ≤ k → ¬ (k < off + 2 ∨ (proto = PROTO_UDP ∧ word l4 off = 0)) :=
      fun k hk h => h.elim (by omega) hc
    rw [if_neg (hn m hm), if_neg (hn _ (by omega)), take_splice]

theorem l4Patched_drop {patch : UInt16 → UInt16} {m : ℕ} (ho : l4CsumOffset proto = some off)
    (hm : off + 2 ≤ m) : (l4Patched l4 0 proto patch).drop m = l4.drop m := by
  unfold l4Patched
  rw [ho]
  dsimp only
  split
  · rfl
  · rw [drop_splice_of_le (by rw [length_beBytes]; omega)]

/-- A prefix that holds the checksum is rewritten as in the whole, and what follows is left alone. -/
theorem l4Rewritten_take (ho : l4CsumOffset proto = some off) {m : ℕ} (hm : off + 2 ≤ m)
    (hl : m ≤ l4.length) :
    l4Rewritten side proto old new p q (l4.take m) ++ l4.drop m =
      l4Rewritten side proto old new p q l4 := by
  obtain ⟨-, hoff, ht⟩ := csumOffset_spec ho
  have hs := side.port_le
  have haddr : (if old = new then l4.take m else l4Patched (l4.take m) 0 proto (patch32 · old new)) =
      (if old = new then l4 else l4Patched l4 0 proto (patch32 · old new)).take m := by
    split
    · rfl
    · exact l4Patched_take ho hm hl
  have hdrop : l4.drop m =
      (if old = new then l4 else l4Patched l4 0 proto (patch32 · old new)).drop m := by
    split
    · rfl
    · exact (l4Patched_drop ho hm).symm
  have hlen : (if old = new then l4 else l4Patched l4 0 proto (patch32 · old new)).length =
      l4.length := by
    split <;> simp
  rw [l4Rewritten, l4Rewritten, haddr, hdrop]
  generalize (if old = new then l4 else l4Patched l4 0 proto (patch32 · old new)) = b at hlen ⊢
  unfold portRewritten
  split
  · rw [List.take_append_drop]
  · have hd : (l4Patched (splice b (0 + side.port) (beBytes q)) 0 proto (patch16 · p q)).drop m =
        b.drop m :=
      (l4Patched_drop ho hm).trans (drop_splice_of_le (by rw [length_beBytes]; omega))
    rw [List.length_take, if_neg (by omega), if_neg (by omega), ← take_splice,
      l4Patched_take ho hm (by rw [length_splice]; omega), ← hd, List.take_append_drop]

/-- A prefix without the checksum has only its port written. -/
theorem l4Rewritten_short (ho : l4CsumOffset proto = some off) {m : ℕ} (hm : m < off + 2)
    (h4 : 4 ≤ m) (hl : m ≤ l4.length) :
    l4Rewritten side proto old new p q (l4.take m) ++ l4.drop m = portWritten side p q l4 := by
  obtain ⟨-, -, ht⟩ := csumOffset_spec ho
  have hs := side.port_le
  have hcut : ∀ (b : Bytes) (patch : UInt16 → UInt16), b.length = m →
      l4Patched b 0 proto patch = b := by
    intro b patch hb
    unfold l4Patched
    rw [ho]
    exact if_pos (.inl (by omega))
  have hlen : (l4.take m).length = m := by rw [List.length_take, Nat.min_eq_left hl]
  rw [l4Rewritten, hcut _ _ hlen, ite_self, portRewritten, portWritten]
  split
  · exact List.take_append_drop m l4
  · have hd : (splice l4 side.port (beBytes q)).drop m = l4.drop m :=
      drop_splice_of_le (by rw [length_beBytes]; omega)
    rw [hlen, if_neg (by omega), hcut _ _ (by rw [length_splice, hlen]), Nat.zero_add,
      ← take_splice, ← hd, List.take_append_drop]

/-- A patch writes the checksum field, and nothing else. -/
theorem l4Patched_eq_splice {patch : UInt16 → UInt16} (ho : l4CsumOffset proto = some off)
    (hl : off + 2 ≤ l4.length) :
    ∃ w, l4Patched l4 0 proto patch = splice l4 off (beBytes w) := by
  unfold l4Patched
  rw [ho]
  dsimp only
  rw [Nat.zero_add]
  split
  · exact ⟨word l4 off, (splice_word_self hl).symm⟩
  · exact ⟨_, rfl⟩

/-- A rewrite writes the port and the checksum field. -/
theorem l4Rewritten_eq_splice (ho : l4CsumOffset proto = some off) (hl : off + 2 ≤ l4.length) :
    l4Rewritten side proto old new p q l4 =
      splice (portWritten side p q l4) off
        (beBytes (word (l4Rewritten side proto old new p q l4) off)) := by
  obtain ⟨-, hoff, ht⟩ := csumOffset_spec ho
  have hs := side.port_le
  obtain ⟨w, hw⟩ : ∃ w, l4Rewritten side proto old new p q l4 =
      splice (portWritten side p q l4) off (beBytes w) := by
    obtain ⟨w₁, h₁⟩ : ∃ w, (if old = new then l4 else l4Patched l4 0 proto (patch32 · old new)) =
        splice l4 off (beBytes w) := by
      split
      · exact ⟨word l4 off, (splice_word_self hl).symm⟩
      · exact l4Patched_eq_splice ho hl
    rw [l4Rewritten, h₁, portRewritten, portWritten]
    split
    · exact ⟨w₁, rfl⟩
    · have hl' : off + 2 ≤ (splice (splice l4 off (beBytes w₁)) side.port (beBytes q)).length := by
        rw [length_splice, length_splice]
        exact hl
      rw [length_splice, if_neg (by omega), Nat.zero_add]
      obtain ⟨w₂, h₂⟩ := l4Patched_eq_splice ho hl'
      refine ⟨w₂, h₂.trans ?_⟩
      rw [splice_comm (i := off) (j := side.port) (.inr (by rw [length_beBytes]; omega)),
        splice_splice (by rw [length_beBytes, length_beBytes])
          (by rw [length_splice, length_beBytes]; exact hl)]
  rw [hw, word_splice_self _ (by rw [length_portWritten]; exact hl)]

/-- A prefix without the checksum is rewritten as in the whole exactly when the field would be left
as it is. -/
theorem l4Rewritten_short_iff (ho : l4CsumOffset proto = some off) {m : ℕ} (hm : m < off + 2)
    (h4 : 4 ≤ m) (hl : off + 2 ≤ l4.length) :
    l4Rewritten side proto old new p q (l4.take m) ++ l4.drop m =
        l4Rewritten side proto old new p q l4 ↔
      word (l4Rewritten side proto old new p q l4) off = word l4 off := by
  have hs := side.port_le
  obtain ⟨-, hoff, -⟩ := csumOffset_spec ho
  have hw : word (portWritten side p q l4) off = word l4 off := by
    unfold portWritten
    split
    · rfl
    · exact word_splice_of_disjoint (.inr (by rw [length_beBytes]; omega))
  rw [l4Rewritten_short ho hm h4 (by omega)]
  constructor
  · intro e
    rw [← e, hw]
  · intro e
    have hself : splice (portWritten side p q l4) off (beBytes (word (portWritten side p q l4) off)) =
        portWritten side p q l4 := splice_word_self (by rw [length_portWritten]; exact hl)
    rw [l4Rewritten_eq_splice ho hl, e, ← hw, hself]

end Tunnel.Wg
