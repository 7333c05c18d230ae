import Tunnel.Wg.Packet

/-!
# Wg — What the rewrites compute

`rewriteAddr` and `rewritePort` on a packet that carries its IPv4 header: neither panics, and each
is a fixed number of overwrites (`addrRewritten`, `portRewritten`).  A rewrite keeps the packet's
length and every byte outside the field it replaces and the checksums that cover it.

* `rewriteAddr_eq`, `rewritePort_eq`: the rewrites, as those overwrites.
* `getD_addrRewritten`, `getD_portRewritten`: the frame of each.
* `addr_addrRewritten`, `word_portRewritten`: the field each replaces.
-/

namespace Tunnel.Wg
open Support

/-! ### The overwrites -/

/-- The header checksum field, patched for an address change. -/
def hdrPatched (pkt : Bytes) (old new : Ipv4Addr) : Bytes :=
  splice pkt 10 (beBytes (patch32 (word pkt 10) old new))

/-- The value `storeL4Csum` writes. -/
def l4Stored (proto : UInt8) (value : UInt16) : UInt16 :=
  if value = 0 ∧ proto = PROTO_UDP then 0xffff else value

/-- The L4 checksum field, patched if the packet carries one that is in use. -/
def l4Patched (pkt : Bytes) (ihl : ℕ) (proto : UInt8) (patch : UInt16 → UInt16) : Bytes :=
  match l4CsumOffset proto with
  | none => pkt
  | some off =>
    if pkt.length < ihl + off + 2 ∨ (proto = PROTO_UDP ∧ word pkt (ihl + off) = 0) then pkt
    else splice pkt (ihl + off) (beBytes (l4Stored proto (patch (word pkt (ihl + off)))))

/-- The ICMP identifier and checksum fields, rewritten. -/
def idPatched (pkt : Bytes) (ihl : ℕ) (old new : UInt16) : Bytes :=
  if pkt.length < ihl + 8 then pkt
  else splice (splice pkt (ihl + 4) (beBytes new)) (ihl + 2)
    (beBytes (patch16 (word pkt (ihl + 2)) old new))

def addrRewritten (pkt : Bytes) (ihl : ℕ) (side : Side) (old new : Ipv4Addr) (l4 : Option UInt8) :
    Bytes :=
  if old = new then pkt
  else
    let pkt := hdrPatched (splice pkt side.addr new.octets) old new
    match l4 with
    | some proto => l4Patched pkt ihl proto (patch32 · old new)
    | none => pkt

def portRewritten (pkt : Bytes) (ihl : ℕ) (side : Side) (proto : UInt8) (old new : UInt16) :
    Bytes :=
  if old = new then pkt
  else if isTcpUdp proto then
    if pkt.length < ihl + 4 then pkt
    else l4Patched (splice pkt (ihl + side.port) (beBytes new)) ihl proto (patch16 · old new)
  else if proto = PROTO_ICMP then idPatched pkt ihl old new
  else pkt

/-! ### The rewrites compute them -/

theorem patchL4_eq (pkt : Bytes) (ihl : ℕ) (proto : UInt8) (patch : UInt16 → UInt16) :
    patchL4 pkt ihl proto patch = .ok (l4Patched pkt ihl proto patch) := by
  unfold patchL4 l4Patched
  cases l4CsumOffset proto with
  | none => rfl
  | some off =>
      dsimp only
      by_cases h₁ : pkt.length < ihl + off + 2
      · rw [if_pos h₁, if_pos (Or.inl h₁)]
        rfl
      rw [if_neg h₁, wordAt_eq (by omega), ok_bind]
      by_cases h₂ : proto = PROTO_UDP ∧ word pkt (ihl + off) = 0
      · rw [if_pos h₂, if_pos (Or.inr h₂)]
        rfl
      · rw [if_neg h₂, if_neg (by tauto), storeL4Csum, copyFromSlice_eq (by
          rw [length_beBytes]; omega)]
        rfl

theorem patchIcmpId_eq (pkt : Bytes) (ihl : ℕ) (old new : UInt16) :
    patchIcmpId pkt ihl old new = .ok (idPatched pkt ihl old new) := by
  unfold patchIcmpId idPatched
  by_cases h : pkt.length < ihl + 8
  · rw [if_pos h, if_pos h]; rfl
  · have hl : (splice pkt (ihl + 4) (beBytes new)).length = pkt.length := length_splice _ _ _
    rw [if_neg h, if_neg h, copyFromSlice_eq (by rw [length_beBytes]; omega), ok_bind]
    dsimp only
    rw [wordAt_eq (by omega), ok_bind, copyFromSlice_eq (by rw [length_beBytes]; omega),
      word_splice_of_disjoint (Or.inl (by omega))]

theorem Side.addr_le (side : Side) : side.addr ≤ 16 := by cases side <;> decide

theorem Side.le_addr (side : Side) : 12 ≤ side.addr := by cases side <;> decide

theorem Side.port_le (side : Side) : side.port ≤ 2 := by cases side <;> decide

theorem rewriteAddr_eq {pkt : Bytes} (h : 20 ≤ pkt.length) (ihl : ℕ) (side : Side)
    (old new : Ipv4Addr) (l4 : Option UInt8) :
    rewriteAddr pkt ihl side old new l4 = .ok (addrRewritten pkt ihl side old new l4) := by
  unfold rewriteAddr addrRewritten
  by_cases he : old = new
  · rw [if_pos he, if_pos he]; rfl
  · have hs := side.addr_le
    have hl : (splice pkt side.addr new.octets).length = pkt.length := length_splice _ _ _
    rw [if_neg he, if_neg he, copyFromSlice_eq (by rw [Ipv4Addr.length_octets]; omega), ok_bind,
      patchHdrCsum, wordAt_eq (by omega), ok_bind,
      copyFromSlice_eq (by rw [length_beBytes]; omega), ok_bind]
    cases l4 with
    | none => rfl
    | some proto => exact patchL4_eq _ _ _ _

theorem rewritePort_eq (pkt : Bytes) (ihl : ℕ) (side : Side) (proto : UInt8) (old new : UInt16) :
    rewritePort pkt ihl side proto old new = .ok (portRewritten pkt ihl side proto old new) := by
  unfold rewritePort portRewritten
  by_cases he : old = new
  · rw [if_pos he, if_pos he]; rfl
  rw [if_neg he, if_neg he]
  by_cases ht : isTcpUdp proto = true
  · rw [if_pos ht, if_pos ht]
    by_cases hl : pkt.length < ihl + 4
    · rw [if_pos hl, if_pos hl]; rfl
    · have hs := side.port_le
      rw [if_neg hl, if_neg hl, copyFromSlice_eq (by rw [length_beBytes]; omega), ok_bind]
      exact patchL4_eq _ _ _ _
  rw [if_neg ht, if_neg ht]
  by_cases hi : proto = PROTO_ICMP
  · rw [if_pos hi, if_pos hi]
    exact patchIcmpId_eq _ _ _ _
  · rw [if_neg hi, if_neg hi]; rfl

/-! ### Frames -/

@[simp] theorem length_hdrPatched (pkt : Bytes) (old new : Ipv4Addr) :
    (hdrPatched pkt old new).length = pkt.length := length_splice _ _ _

@[simp] theorem length_l4Patched (pkt : Bytes) (ihl : ℕ) (proto : UInt8)
    (patch : UInt16 → UInt16) : (l4Patched pkt ihl proto patch).length = pkt.length := by
  unfold l4Patched
  split
  · rfl
  · split
    · rfl
    · exact length_splice _ _ _

@[simp] theorem length_idPatched (pkt : Bytes) (ihl : ℕ) (old new : UInt16) :
    (idPatched pkt ihl old new).length = pkt.length := by
  unfold idPatched
  split
  · rfl
  · rw [length_splice, length_splice]

@[simp] theorem length_addrRewritten (pkt : Bytes) (ihl : ℕ) (side : Side) (old new : Ipv4Addr)
    (l4 : Option UInt8) : (addrRewritten pkt ihl side old new l4).length = pkt.length := by
  unfold addrRewritten
  split
  · rfl
  · cases l4 <;> simp

@[simp] theorem length_portRewritten (pkt : Bytes) (ihl : ℕ) (side : Side) (proto : UInt8)
    (old new : UInt16) : (portRewritten pkt ihl side proto old new).length = pkt.length := by
  unfold portRewritten
  split
  · rfl
  split
  · split
    · rfl
    · simp
  · split
    · exact length_idPatched _ _ _ _
    · rfl

theorem getD_splice_of_not {b ys : Bytes} {i j : ℕ} (h : j < i ∨ i + ys.length ≤ j) :
    (splice b i ys).getD j 0 = b.getD j 0 := by
  rw [getD_splice, if_neg (by omega)]

theorem getD_l4Patched {pkt : Bytes} {ihl : ℕ} {proto : UInt8} {patch : UInt16 → UInt16} {j : ℕ}
    (h : ∀ off, l4CsumOffset proto = some off → j < ihl + off ∨ ihl + off + 2 ≤ j) :
    (l4Patched pkt ihl proto patch).getD j 0 = pkt.getD j 0 := by
  unfold l4Patched
  cases hp : l4CsumOffset proto with
  | none => rfl
  | some off =>
      dsimp only
      split
      · rfl
      · exact getD_splice_of_not (h off hp)

/-- An address rewrite touches its address, the header checksum and the L4 checksum. -/
theorem getD_addrRewritten {pkt : Bytes} {ihl : ℕ} {side : Side} {old new : Ipv4Addr}
    {l4 : Option UInt8} {j : ℕ} (ha : j < side.addr ∨ side.addr + 4 ≤ j) (hc : j < 10 ∨ 12 ≤ j)
    (h : ∀ proto off, l4 = some proto → l4CsumOffset proto = some off →
      j < ihl + off ∨ ihl + off + 2 ≤ j) :
    (addrRewritten pkt ihl side old new l4).getD j 0 = pkt.getD j 0 := by
  have hp : (hdrPatched (splice pkt side.addr new.octets) old new).getD j 0 = pkt.getD j 0 := by
    rw [hdrPatched, getD_splice_of_not hc, getD_splice_of_not ha]
  unfold addrRewritten
  split
  · rfl
  · cases l4 with
    | none => exact hp
    | some proto => exact (getD_l4Patched (h proto · rfl)).trans hp

/-- A port rewrite touches its port and the L4 checksum; for ICMP, the identifier and the
checksum. -/
theorem getD_portRewritten {pkt : Bytes} {ihl : ℕ} {side : Side} {proto : UInt8}
    {old new : UInt16} {j : ℕ}
    (hp : isTcpUdp proto = true → j < ihl + side.port ∨ ihl + side.port + 2 ≤ j)
    (hc : ∀ off, l4CsumOffset proto = some off → j < ihl + off ∨ ihl + off + 2 ≤ j)
    (hi : proto = PROTO_ICMP → j < ihl + 2 ∨ ihl + 6 ≤ j) :
    (portRewritten pkt ihl side proto old new).getD j 0 = pkt.getD j 0 := by
  unfold portRewritten
  split
  · rfl
  split
  · next ht =>
      split
      · rfl
      · rw [getD_l4Patched hc, getD_splice_of_not (hp ht)]
  · split
    · next hic =>
        rw [idPatched]
        split
        · rfl
        · have h' := hi hic
          rw [getD_splice_of_not (by rw [length_beBytes]; omega),
            getD_splice_of_not (by rw [length_beBytes]; omega)]
    · rfl

theorem l4CsumOffset_le {proto : UInt8} {off : ℕ} (h : l4CsumOffset proto = some off) :
    6 ≤ off := by
  unfold l4CsumOffset at h
  split at h
  · cases h; decide
  · split at h
    · cases h; decide
    · cases h

theorem addr_congr {a b : Bytes} {i : ℕ} (h : ∀ k, k < 4 → a.getD (i + k) 0 = b.getD (i + k) 0) :
    addr a i = addr b i := by
  have h₀ := h 0 (by omega)
  rw [Nat.add_zero] at h₀
  rw [addr, addr, h₀, h 1 (by omega), h 2 (by omega), h 3 (by omega)]

theorem word_congr {a b : Bytes} {i : ℕ} (h₀ : a.getD i 0 = b.getD i 0)
    (h₁ : a.getD (i + 1) 0 = b.getD (i + 1) 0) : word a i = word b i := by
  rw [word, word, h₀, h₁]

/-! ### The fields -/

/-- An address rewrite leaves the new address in its field. -/
theorem addr_addrRewritten {pkt : Bytes} {ihl : ℕ} (side : Side) {old : Ipv4Addr}
    (new : Ipv4Addr) (l4 : Option UInt8) (hl : 20 ≤ pkt.length) (hi : 20 ≤ ihl)
    (ho : addr pkt side.addr = old) :
    addr (addrRewritten pkt ihl side old new l4) side.addr = new := by
  have hs := side.addr_le
  have hs' := side.le_addr
  have hp : addr (hdrPatched (splice pkt side.addr new.octets) old new) side.addr = new := by
    rw [hdrPatched, addr_splice_of_disjoint (by rw [length_beBytes]; omega),
      addr_splice_self _ (by omega)]
  unfold addrRewritten
  split
  · next he => rw [ho, he]
  · cases l4 with
    | none => exact hp
    | some proto =>
        refine (addr_congr fun k hk => getD_l4Patched fun off ho => ?_).trans hp
        have := l4CsumOffset_le ho
        omega

/-- An address rewrite leaves the words of the L4 header's first six bytes alone. -/
theorem word_addrRewritten {pkt : Bytes} {ihl : ℕ} {side : Side} {old new : Ipv4Addr}
    {l4 : Option UInt8} {k : ℕ} (hi : 20 ≤ ihl) (hk : k ≤ 4) :
    word (addrRewritten pkt ihl side old new l4) (ihl + k) = word pkt (ihl + k) := by
  have hs := side.addr_le
  have e : ∀ m, m ≤ 5 → (addrRewritten pkt ihl side old new l4).getD (ihl + m) 0 =
      pkt.getD (ihl + m) 0 := fun m hm =>
    getD_addrRewritten (by omega) (by omega) fun proto off _ ho => by
      have := l4CsumOffset_le ho
      omega
  exact word_congr (e k (by omega)) (by rw [Nat.add_assoc]; exact e (k + 1) (by omega))

/-- A port rewrite leaves the new port in its field. -/
theorem word_portRewritten {pkt : Bytes} {ihl : ℕ} (side : Side) {proto : UInt8} {old : UInt16}
    (new : UInt16) (ht : isTcpUdp proto = true) (hl : ihl + 4 ≤ pkt.length)
    (ho : word pkt (ihl + side.port) = old) :
    word (portRewritten pkt ihl side proto old new) (ihl + side.port) = new := by
  have hs := side.port_le
  unfold portRewritten
  split
  · next he => rw [ho, he]
  rw [if_neg (by omega)]
  have e : ∀ j, j < ihl + 6 → ∀ b, (l4Patched b ihl proto (patch16 · old new)).getD j 0 =
      b.getD j 0 := fun j hj b => getD_l4Patched fun off ho => by
    have := l4CsumOffset_le ho
    omega
  rw [word_congr (e _ (by omega) _) (e _ (by omega) _), word_splice_self _ (by omega)]

/-- An identifier rewrite leaves the new identifier in its field. -/
theorem id_portRewritten {pkt : Bytes} {ihl : ℕ} (side : Side) {old : UInt16}
    (new : UInt16) (hl : ihl + 8 ≤ pkt.length) (ho : word pkt (ihl + 4) = old) :
    word (portRewritten pkt ihl side PROTO_ICMP old new) (ihl + 4) = new := by
  unfold portRewritten
  split
  · next he => rw [ho, he]
  rw [if_neg (by decide), if_pos rfl, idPatched, if_neg (by omega),
    word_splice_of_disjoint (by rw [length_beBytes]; omega), word_splice_self _ (by omega)]

/-- A port rewrite leaves the IPv4 header alone. -/
theorem addr_portRewritten {pkt : Bytes} {ihl : ℕ} {side : Side} {proto : UInt8}
    {old new : UInt16} {i : ℕ} (h : i + 4 ≤ ihl) :
    addr (portRewritten pkt ihl side proto old new) i = addr pkt i :=
  addr_congr fun k hk => getD_portRewritten (fun _ => by omega)
    (fun off ho => by have := l4CsumOffset_le ho; omega) fun _ => by omega

end Tunnel.Wg
