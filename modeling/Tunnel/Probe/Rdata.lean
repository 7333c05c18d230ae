import Tunnel.Probe.Legal
import Tunnel.Probe.Response

/-!
# Probe — Names in record data

The data of six types of record is a name or two and some numbers, which fit the record or do not:
up to a root label, or past a first pointer, they are its bytes and no others (`Fits`).  A name is
read from the whole message, so that its pointers may lead anywhere in it, and what is read may be
longer than the record or shorter.

* `readNameFrom_local`: what is read depends on the bytes a name reaches alone.
* `readName_inPlace`: and, where the name is in a record, on the record and what its pointer reaches.
* `rdata_confined`: a record that does not fit is shown as malformed exactly where it does not decode
  either, but for a name that looks like a malformed record; and records with the same bytes that
  fit, whose pointers reach the same, are shown alike, wherever they are.
* `rdata_unconfined`: a name server whose name runs into the next record.
-/

namespace Tunnel.Probe
open Support Text

/-! ### Where a name stands -/

/-- The bytes a name holds where it stands: up to its root label, or past its first pointer, and the
offset that points to. -/
inductive InPlace (buf : Bytes) : ℕ → ℕ → Option ℕ → Prop where
  | root {pos : ℕ} (h : buf[pos]? = some 0) : InPlace buf pos (pos + 1) none
  | label {pos next : ℕ} {len : UInt8} {target : Option ℕ} (h : buf[pos]? = some len)
      (hlen : 1 ≤ len.toNat ∧ len.toNat ≤ 63) (rest : InPlace buf (pos + 1 + len.toNat) next target) :
      InPlace buf pos next target
  | pointer {pos : ℕ} {hi lo : UInt8} (h : buf[pos]? = some hi) (hhi : 192 ≤ hi.toNat)
      (hlo : buf[pos + 1]? = some lo) :
      InPlace buf pos (pos + 2) (some ((hi.toNat - 192) * 256 + lo.toNat))

/-- NS, CNAME, PTR and DNAME: the data is a name. -/
def nameKinds : List UInt16 := [2, 5, 12, 39]

/-- The names of a record and its numbers are its bytes and no others; and the pointers in it. -/
inductive Fits (rdata : Bytes) : UInt16 → List (Option ℕ) → Prop where
  | name {kind : UInt16} {target : Option ℕ} (hkind : kind ∈ nameKinds)
      (h : InPlace rdata 0 rdata.length target) : Fits rdata kind [target]
  | mx {target : Option ℕ} (h : InPlace rdata 2 rdata.length target) : Fits rdata 15 [target]
  | soa {afterM afterR : ℕ} {target target' : Option ℕ} (hm : InPlace rdata 0 afterM target)
      (hr : InPlace rdata afterM afterR target') (hlen : afterR + 20 = rdata.length) :
      Fits rdata 6 [target, target']

/-- The offsets that are looked at for a name. -/
inductive Reach (buf : Bytes) : ℕ → ℕ → Prop where
  | here {pos : ℕ} : Reach buf pos pos
  | byte {pos i : ℕ} {len : UInt8} (h : buf[pos]? = some len)
      (hlen : 1 ≤ len.toNat ∧ len.toNat ≤ 63) (hi : pos < i ∧ i ≤ pos + len.toNat) : Reach buf pos i
  | rest {pos i : ℕ} {len : UInt8} (h : buf[pos]? = some len)
      (hlen : 1 ≤ len.toNat ∧ len.toNat ≤ 63) (hi : Reach buf (pos + 1 + len.toNat) i) :
      Reach buf pos i
  | low {pos : ℕ} {hi : UInt8} (h : buf[pos]? = some hi) (hhi : 192 ≤ hi.toNat) :
      Reach buf pos (pos + 1)
  | target {pos i : ℕ} {hi lo : UInt8} (h : buf[pos]? = some hi) (hhi : 192 ≤ hi.toNat)
      (hlo : buf[pos + 1]? = some lo) (hi : Reach buf ((hi.toNat - 192) * 256 + lo.toNat) i) :
      Reach buf pos i

/-- Two messages have the same at all that is reached from an offset, their ends included. -/
def AgreeFrom (msg₁ msg₂ : Bytes) (pos : ℕ) : Prop :=
  ∀ i, Reach msg₁ pos i → msg₁[i]? = msg₂[i]?

/-! ### What a name is read from -/

variable {buf msg₁ msg₂ rdata : Bytes} {pos next fuel jumps : ℕ} {out : Text} {resume : Option ℕ}

theorem getRange_congr {α : Type} {xs ys : List α} {i j : ℕ}
    (h : ∀ k, i ≤ k → k < j → xs[k]? = ys[k]?) (hij : i < j) : getRange xs i j = getRange ys i j := by
  have hlen : ∀ {xs ys : List α}, (∀ k, i ≤ k → k < j → xs[k]? = ys[k]?) → j ≤ xs.length →
      j ≤ ys.length := by
    intro xs ys h hj
    have hlast := h (j - 1) (by omega) (by omega)
    rw [List.getElem?_eq_getElem (by omega : j - 1 < xs.length)] at hlast
    have := (List.getElem?_eq_some_iff.mp hlast.symm).1
    omega
  have hiff : i ≤ j ∧ j ≤ xs.length ↔ i ≤ j ∧ j ≤ ys.length :=
    and_congr_right fun _ => ⟨hlen h, hlen fun k hk hkj => (h k hk hkj).symm⟩
  have hsame : (xs.drop i).take (j - i) = (ys.drop i).take (j - i) := by
    refine List.ext_getElem? fun k => ?_
    by_cases hk : k < j - i
    · rw [List.getElem?_take_of_lt hk, List.getElem?_take_of_lt hk, List.getElem?_drop,
        List.getElem?_drop, h (i + k) (by omega) (by omega)]
    · rw [List.getElem?_take_eq_none (by omega), List.getElem?_take_eq_none (by omega)]
  unfold getRange
  rw [hsame]
  exact if_congr hiff rfl rfl

/-- What is found is found in the bytes that are looked at. -/
theorem turnAt_local (h : AgreeFrom msg₁ msg₂ pos) : turnAt msg₁ pos = turnAt msg₂ pos := by
  rw [turnAt, turnAt, ← h pos .here]
  cases hb : msg₁[pos]? with
  | none => rfl
  | some len =>
      dsimp only
      refine if_ctx_congr Iff.rfl (fun hkind => ?_) fun _ => ?_
      · refine if_ctx_congr Iff.rfl (fun _ => rfl) fun hz => ?_
        have hlen : 1 ≤ len.toNat ∧ len.toNat ≤ 63 :=
          ⟨Nat.pos_of_ne_zero fun h0 => hz (UInt8.toNat_inj.mp h0), (kind_label_iff len).mp hkind⟩
        rw [getRange_congr (fun k hk hkj => h k (.byte hb hlen ⟨by omega, by omega⟩)) (by omega)]
      · refine if_ctx_congr Iff.rfl (fun hkind => ?_) fun _ => rfl
        rw [h (pos + 1) (.low hb ((kind_pointer_iff len).mp hkind))]

/-- A name is read from what it reaches. -/
theorem readNameFrom_local (h : AgreeFrom msg₁ msg₂ pos) :
    readNameFrom msg₁ fuel out pos jumps resume = readNameFrom msg₂ fuel out pos jumps resume := by
  induction fuel generalizing out pos jumps resume with
  | zero => rfl
  | succ fuel ih =>
      rw [readNameFrom_succ, readNameFrom_succ, ← turnAt_local h]
      cases ht : turnAt msg₁ pos with
      | root => rfl
      | fail e => rfl
      | label label =>
          obtain ⟨len, hb, hlen, hlength⟩ := of_turnAt_label ht
          dsimp only
          rw [ih fun i hi => h i (.rest hb hlen (hlength ▸ hi))]
      | pointer target =>
          obtain ⟨hi, lo, hb, hhi, hlo, rfl⟩ := of_turnAt_pointer ht
          have htarget : AgreeFrom msg₁ msg₂ ((hi.toNat - 192) * 256 + lo.toNat) :=
            fun i hr => h i (.target hb hhi hlo hr)
          have hend : msg₁.length ≤ (hi.toNat - 192) * 256 + lo.toNat ↔
              msg₂.length ≤ (hi.toNat - 192) * 256 + lo.toNat := by
            rw [← List.getElem?_eq_none_iff, ← List.getElem?_eq_none_iff, htarget _ .here]
          simp only [hend, ih htarget]

/-- More turns change nothing. -/
theorem readNameFrom_add {r : Except Text (Text × ℕ)}
    (h : readNameFrom buf fuel out pos jumps resume = .ok r) (k : ℕ) :
    readNameFrom buf (fuel + k) out pos jumps resume = .ok r := by
  induction fuel generalizing out pos jumps resume with
  | zero => cases h
  | succ fuel ih =>
      rw [readNameFrom_succ] at h
      rw [Nat.add_right_comm, readNameFrom_succ]
      cases ht : turnAt buf pos with
      | root | fail e => rwa [ht] at h
      | label label =>
          rw [ht] at h
          dsimp only at h ⊢
          split_ifs at h ⊢
          · exact h
          · exact ih h
      | pointer target =>
          rw [ht] at h
          dsimp only at h ⊢
          split_ifs at h ⊢
          · exact h
          · exact h
          · exact ih h

/-- A text, or why there is none, with an offset. -/
def withNext (next : ℕ) (r : Except Text Text) : Except Text (Text × ℕ) := r.map (·, next)

/-- Once a pointer is followed, the offset past the name is settled. -/
theorem readNameFrom_resumed (buf : Bytes) (fuel : ℕ) (out : Text) (pos jumps : ℕ) :
    ∃ r : Checked (Except Text Text), ∀ next,
      readNameFrom buf fuel out pos jumps (some next) = r.map (withNext next) := by
  induction fuel generalizing out pos jumps with
  | zero => exact ⟨.error .outOfFuel, fun _ => rfl⟩
  | succ fuel ih =>
      simp only [readNameFrom_succ]
      cases turnAt buf pos with
      | root => exact ⟨.ok (.ok (if out.isEmpty then ['.'] else out)), fun _ => rfl⟩
      | fail e => exact ⟨.ok (.error e), fun _ => rfl⟩
      | label label =>
          dsimp only
          split_ifs
          · exact ⟨.ok (.error _), fun _ => rfl⟩
          · exact ih ..
      | pointer target =>
          dsimp only
          split_ifs
          · exact ⟨.ok (.error _), fun _ => rfl⟩
          · exact ⟨.ok (.error _), fun _ => rfl⟩
          · exact ih ..

/-! ### A name in a record -/

theorem getElem?_of_getRange {α : Type} {xs ys : List α} {i j k : ℕ}
    (h : getRange xs i j = some ys) (hk : k < ys.length) : xs[i + k]? = ys[k]? := by
  have hlen := (length_of_getRange h).2.2
  unfold getRange at h
  split at h
  · cases h
    rw [List.getElem?_take_of_lt (by omega), List.getElem?_drop]
  · cases h

theorem lt_of_getRange_eq_none {α : Type} {xs : List α} {i j : ℕ} (hij : i ≤ j)
    (h : getRange xs i j = none) : xs.length < j := by
  unfold getRange at h
  split at h
  · cases h
  · next hrange => omega

/-- A range in a record, and in the message. -/
theorem getRange_of_getRange {α : Type} {xs ys : List α} {off i j : ℕ}
    (h : getRange xs off (off + ys.length) = some ys) (hij : i ≤ j) (hj : j ≤ ys.length) :
    getRange xs (off + i) (off + j) = getRange ys i j := by
  have hle := (length_of_getRange h).2.1
  have hys : ys = (xs.drop off).take ys.length := by
    unfold getRange at h
    rw [if_pos ⟨by omega, hle⟩, Nat.add_sub_cancel_left] at h
    exact (Option.some.inj h).symm
  unfold getRange
  rw [if_pos ⟨by omega, by omega⟩, if_pos ⟨hij, hj⟩]
  congr 1
  conv_rhs => rw [hys]
  rw [List.drop_take, List.drop_drop, List.take_take, Nat.add_sub_add_left,
    Nat.min_eq_left (by omega)]

theorem InPlace.bounds {target : Option ℕ} (h : InPlace buf pos next target) :
    pos < next ∧ next ≤ buf.length := by
  induction h with
  | root hb =>
      obtain ⟨hlt, -⟩ := List.getElem?_eq_some_iff.mp hb
      exact ⟨Nat.lt_succ_self _, hlt⟩
  | label _ _ _ ih => exact ⟨by omega, ih.2⟩
  | pointer _ _ hlo =>
      obtain ⟨hlt, -⟩ := List.getElem?_eq_some_iff.mp hlo
      exact ⟨by omega, hlt⟩

/-- The label that comes next in a record is the one that comes next in the message. -/
theorem turnAt_record {msg : Bytes} {off : ℕ} {len : UInt8} {label : Bytes}
    (hs : getRange msg off (off + rdata.length) = some rdata) (hb : rdata[pos]? = some len)
    (hlen : 1 ≤ len.toNat ∧ len.toNat ≤ 63)
    (hlabel : getRange rdata (pos + 1) (pos + 1 + len.toNat) = some label) :
    turnAt msg (off + pos) = .label label := by
  obtain ⟨hpos, -⟩ := List.getElem?_eq_some_iff.mp hb
  have hle := (length_of_getRange hlabel).2.1
  refine turnAt_label ((getElem?_of_getRange hs hpos).trans hb) hlen ?_
  rw [← hlabel, ← getRange_of_getRange hs (by omega) hle, Nat.add_assoc off pos 1,
    Nat.add_assoc off (pos + 1)]

section Record

variable {off₁ off₂ : ℕ} {target : Option ℕ}

/-- A name that stands in a record is read from the record, and from what its pointer reaches. -/
theorem readNameFrom_inPlace (h : InPlace rdata pos next target)
    (hs₁ : getRange msg₁ off₁ (off₁ + rdata.length) = some rdata)
    (hs₂ : getRange msg₂ off₂ (off₂ + rdata.length) = some rdata)
    (hagree : ∀ t ∈ target, AgreeFrom msg₁ msg₂ t) (fuel : ℕ) (out : Text) (jumps : ℕ) :
    ∃ r : Checked (Except Text Text),
      readNameFrom msg₁ fuel out (off₁ + pos) jumps none = r.map (withNext (off₁ + next)) ∧
      readNameFrom msg₂ fuel out (off₂ + pos) jumps none = r.map (withNext (off₂ + next)) := by
  induction h generalizing fuel out jumps with
  | root hb =>
      obtain ⟨hpos, -⟩ := List.getElem?_eq_some_iff.mp hb
      cases fuel with
      | zero => exact ⟨.error .outOfFuel, rfl, rfl⟩
      | succ fuel =>
          rw [readNameFrom_succ, readNameFrom_succ,
            turnAt_root ((getElem?_of_getRange hs₁ hpos).trans hb),
            turnAt_root ((getElem?_of_getRange hs₂ hpos).trans hb)]
          exact ⟨.ok (.ok (if out.isEmpty then ['.'] else out)), rfl, rfl⟩
  | @label pos next len target hb hlen rest ih =>
      have hrest := rest.bounds
      obtain ⟨label, hlabel⟩ : ∃ label, getRange rdata (pos + 1) (pos + 1 + len.toNat) = some label :=
        ⟨_, if_pos ⟨by omega, by omega⟩⟩
      have hlength := (length_of_getRange hlabel).2.2
      cases fuel with
      | zero => exact ⟨.error .outOfFuel, rfl, rfl⟩
      | succ fuel =>
          rw [readNameFrom_succ, readNameFrom_succ, turnAt_record hs₁ hb hlen hlabel,
            turnAt_record hs₂ hb hlen hlabel]
          dsimp only
          split_ifs
          · exact ⟨.ok (.error _), rfl, rfl⟩
          · have hnext : ∀ off, off + pos + 1 + label.length = off + (pos + 1 + len.toNat) := by
              omega
            rw [hnext off₁, hnext off₂]
            exact ih hagree fuel _ jumps
  | @pointer pos hi lo hb hhi hlo =>
      obtain ⟨hpos, -⟩ := List.getElem?_eq_some_iff.mp hlo
      have htarget : AgreeFrom msg₁ msg₂ ((hi.toNat - 192) * 256 + lo.toNat) := hagree _ rfl
      have hend : msg₁.length ≤ (hi.toNat - 192) * 256 + lo.toNat ↔
          msg₂.length ≤ (hi.toNat - 192) * 256 + lo.toNat := by
        rw [← List.getElem?_eq_none_iff, ← List.getElem?_eq_none_iff, htarget _ .here]
      cases fuel with
      | zero => exact ⟨.error .outOfFuel, rfl, rfl⟩
      | succ fuel =>
          rw [readNameFrom_succ, readNameFrom_succ,
            turnAt_pointer ((getElem?_of_getRange hs₁ (by omega)).trans hb) hhi
              ((getElem?_of_getRange hs₁ hpos).trans hlo),
            turnAt_pointer ((getElem?_of_getRange hs₂ (by omega)).trans hb) hhi
              ((getElem?_of_getRange hs₂ hpos).trans hlo)]
          simp only [hend, readNameFrom_local htarget]
          split_ifs
          · exact ⟨.ok (.error _), rfl, rfl⟩
          · exact ⟨.ok (.error _), rfl, rfl⟩
          · obtain ⟨r, hr⟩ := readNameFrom_resumed msg₂ fuel out
              ((hi.toNat - 192) * 256 + lo.toNat) (jumps + 1)
            exact ⟨r, hr _, hr _⟩

theorem readName_inPlace (h : InPlace rdata pos next target)
    (hs₁ : getRange msg₁ off₁ (off₁ + rdata.length) = some rdata)
    (hs₂ : getRange msg₂ off₂ (off₂ + rdata.length) = some rdata)
    (hagree : ∀ t ∈ target, AgreeFrom msg₁ msg₂ t) :
    ∃ r : Except Text Text, readName msg₁ (off₁ + pos) = .ok (withNext (off₁ + next) r) ∧
      readName msg₂ (off₂ + pos) = .ok (withNext (off₂ + next) r) := by
  obtain ⟨r₁, hr₁⟩ := returns_readName msg₁ (off₁ + pos)
  obtain ⟨r₂, hr₂⟩ := returns_readName msg₂ (off₂ + pos)
  have hfuel₁ := readNameFrom_add hr₁ ((MAX_NAME_JUMPS + 2) * (msg₂.length + 1))
  have hfuel₂ := readNameFrom_add hr₂ ((MAX_NAME_JUMPS + 2) * (msg₁.length + 1))
  rw [Nat.add_comm ((MAX_NAME_JUMPS + 2) * (msg₂.length + 1))] at hfuel₂
  obtain ⟨r, h₁, h₂⟩ := readNameFrom_inPlace h hs₁ hs₂ hagree
    ((MAX_NAME_JUMPS + 2) * (msg₁.length + 1) + (MAX_NAME_JUMPS + 2) * (msg₂.length + 1)) [] 0
  rw [hfuel₁] at h₁
  rw [hfuel₂] at h₂
  cases r with
  | error e => cases h₁
  | ok r =>
      refine ⟨r, hr₁.trans ?_, hr₂.trans ?_⟩
      · exact h₁
      · exact h₂

end Record

/-! ### Records that fit -/

theorem readU32_record {msg : Bytes} {off i : ℕ}
    (hs : getRange msg off (off + rdata.length) = some rdata) (hi : i + 4 ≤ rdata.length) :
    readU32 msg (off + i) = readU32 rdata i := by
  rw [readU32, readU32, ← getRange_of_getRange hs (by omega) hi, Nat.add_assoc]

theorem rdataText_name {kind : UInt16} (h : kind ∈ nameKinds) (msg : Bytes) (off : ℕ)
    (rdata : Bytes) : rdataText msg off rdata kind = renderName msg off := by
  simp only [nameKinds, List.mem_cons, List.not_mem_nil, or_false] at h
  rcases h with rfl | rfl | rfl | rfl <;> rfl

section Fits

variable {off₁ off₂ : ℕ} {kind : UInt16} {targets : List (Option ℕ)}

/-- The data of a record that fits is the record's, and what its pointers reach. -/
theorem rdataText_agree (h : Fits rdata kind targets)
    (hs₁ : getRange msg₁ off₁ (off₁ + rdata.length) = some rdata)
    (hs₂ : getRange msg₂ off₂ (off₂ + rdata.length) = some rdata)
    (hagree : ∀ target ∈ targets, ∀ t ∈ target, AgreeFrom msg₁ msg₂ t) :
    rdataText msg₁ off₁ rdata kind = rdataText msg₂ off₂ rdata kind := by
  cases h with
  | @name _ target hkind h =>
      obtain ⟨r, h₁, h₂⟩ := readName_inPlace h hs₁ hs₂ (hagree target (by simp))
      rw [rdataText_name hkind, rdataText_name hkind, renderName, renderName]
      rw [Nat.add_zero] at h₁ h₂
      rw [h₁, h₂]
      cases r <;> rfl
  | @mx target h =>
      obtain ⟨r, h₁, h₂⟩ := readName_inPlace h hs₁ hs₂ (hagree target (by simp))
      change renderMx msg₁ off₁ rdata = renderMx msg₂ off₂ rdata
      obtain ⟨pref, hpref⟩ := returns_readU16 rdata 0
      rw [renderMx, renderMx, h₁, h₂, hpref]
      cases pref <;> cases r <;> rfl
  | @soa afterM afterR target target' hm hr hlen =>
      obtain ⟨m, hm₁, hm₂⟩ := readName_inPlace hm hs₁ hs₂ (hagree target (by simp))
      obtain ⟨r, hr₁, hr₂⟩ := readName_inPlace hr hs₁ hs₂ (hagree target' (by simp))
      have hsoa : renderSoa msg₁ off₁ = renderSoa msg₂ off₂ := by
        rw [Nat.add_zero] at hm₁ hm₂
        rw [renderSoa, renderSoa, hm₁, hm₂]
        cases m with
        | error e => rfl
        | ok m =>
            change (readName msg₁ (off₁ + afterM) >>= _) = (readName msg₂ (off₂ + afterM) >>= _)
            rw [hr₁, hr₂]
            cases r with
            | error e => rfl
            | ok r =>
                have hnum : ∀ k ≤ 16, readU32 msg₁ (off₁ + afterR + k) =
                    readU32 msg₂ (off₂ + afterR + k) := by
                  intro k hk
                  rw [Nat.add_assoc, Nat.add_assoc, readU32_record hs₁ (by omega),
                    readU32_record hs₂ (by omega)]
                simp only [withNext, Except.map, ok_bind, hnum 4 (by decide), hnum 8 (by decide),
                  hnum 12 (by decide), hnum 16 (by decide)]
                have hserial := hnum 0 (by decide)
                rw [Nat.add_zero, Nat.add_zero] at hserial
                rw [hserial]
      change (renderSoa msg₁ off₁ >>= _) = (renderSoa msg₂ off₂ >>= _)
      rw [hsoa]

end Fits

/-! ### Records that are shown as malformed -/

theorem hex2_spec : ∀ b, (hex2 b).length = 2 ∧ ' ' ∉ hex2 b :=
  forall_byte (by decide +kernel)

theorem space_notMem_malformed (rdata : Bytes) : ' ' ∉ malformed rdata := by
  have hhead : ' ' ∉ hexHead rdata := by
    intro h
    rcases List.mem_append.mp h with h | h
    · obtain ⟨b, -, hb⟩ := List.mem_flatMap.mp h
      exact (hex2_spec b).2 hb
    · split at h
      · exact absurd h (by decide)
      · cases h
  rw [malformed]
  split
  · decide
  · rw [List.mem_append, not_or]
    exact ⟨by decide, hhead⟩

theorem length_malformed_lt (rdata : Bytes) : (malformed rdata).length < MAX_RDATA_CHARS := by
  have hhex : ∀ bytes : Bytes, (bytes.flatMap hex2).length = 2 * bytes.length := by
    intro bytes
    induction bytes with
    | nil => rfl
    | cons b bytes ih =>
        rw [List.flatMap_cons, List.length_append, ih, (hex2_spec b).1, List.length_cons]
        omega
  have hhead : (hexHead rdata).length ≤ 65 := by
    have htake := List.length_take_le 32 rdata
    have hcut : (if 32 < rdata.length then ['…'] else ([] : Text)).length ≤ 1 := by
      split <;> simp
    rw [hexHead, List.length_append, hhex]
    omega
  rw [malformed]
  split
  · decide
  · rw [List.length_append]
    change 2 + _ < 240
    omega

/-- No other text is cut to what a malformed record is shown as. -/
theorem clampText_eq_malformed {text : Text} {rdata : Bytes} :
    clampText text = clampText (malformed rdata) ↔ text = malformed rdata := by
  refine ⟨fun h => ?_, fun h => by rw [h]⟩
  have hlen := length_malformed_lt rdata
  have hmal : clampText (malformed rdata) = malformed rdata := if_pos hlen.le
  rw [hmal] at h
  by_cases ht : text.length ≤ MAX_RDATA_CHARS
  · rwa [clampText, clampTo, if_pos ht] at h
  · -- a text that was cut is longer
    have hcut : (clampText text).length = MAX_RDATA_CHARS := by
      rw [clampText, clampTo, if_neg ht, List.length_append, List.length_take,
        Nat.min_eq_left (by omega)]
      rfl
    rw [h] at hcut
    omega

theorem space_mem_of_turnAt {e : Text} (h : turnAt buf pos = .fail e) : ' ' ∈ e := by
  have hall : ∀ e ∈ [lit "truncated name", lit "truncated label",
      lit "truncated compression pointer", lit "reserved label type in name"], ' ' ∈ e := by decide
  exact hall e (fail_of_turnAt h)

/-- Each error of the decoder is a sentence. -/
theorem space_mem_of_readNameFrom {e : Text}
    (h : readNameFrom buf fuel out pos jumps resume = .ok (.error e)) : ' ' ∈ e := by
  induction fuel generalizing out pos jumps resume with
  | zero => cases h
  | succ fuel ih =>
      rw [readNameFrom_succ] at h
      cases ht : turnAt buf pos with
      | root => rw [ht] at h; cases h
      | fail e' =>
          rw [ht] at h
          cases h
          exact space_mem_of_turnAt ht
      | label label =>
          rw [ht] at h
          dsimp only at h
          split at h
          · cases h
            decide
          · exact ih h
      | pointer target =>
          rw [ht] at h
          dsimp only at h
          split at h
          · cases h
            decide
          · split at h
            · cases h
              decide
            · exact ih h

/-- A name is read, or there is none to be read. -/
theorem readName_cases (buf : Bytes) (pos : ℕ) :
    (∃ labels next, readName buf pos = .ok (.ok (dotted labels, next)) ∧
      Readable buf pos labels next) ∨
    ∃ e, readName buf pos = .ok (.error e) ∧ ' ' ∈ e ∧
      ∀ labels next, ¬ Readable buf pos labels next := by
  obtain ⟨r, hr⟩ := returns_readName buf pos
  cases r with
  | ok read =>
      obtain ⟨text, next⟩ := read
      obtain ⟨labels, hread, rfl⟩ := readName_iff.mp hr
      exact .inl ⟨labels, next, hr, hread⟩
  | error e =>
      refine .inr ⟨e, hr, space_mem_of_readNameFrom hr, fun labels next hread => ?_⟩
      have hok := readName_iff.mpr ⟨labels, hread, rfl⟩
      rw [hr] at hok
      cases hok

theorem readU16_cases (buf : Bytes) (pos : ℕ) :
    (∃ n, readU16 buf pos = .ok (.ok n) ∧ pos + 2 ≤ buf.length) ∨
    ∃ e, readU16 buf pos = .ok (.error e) ∧ buf.length < pos + 2 := by
  rw [readU16]
  cases hb : getRange buf pos (pos + 2) with
  | none => exact .inr ⟨_, rfl, lt_of_getRange_eq_none (by omega) hb⟩
  | some b =>
      obtain ⟨-, hle, hlen⟩ := length_of_getRange hb
      obtain ⟨n, hn⟩ : Returns (wordAt b 0) := Returns.wordAt (by omega)
      refine .inl ⟨n, ?_, hle⟩
      dsimp only
      rw [hn]
      rfl

theorem readU32_cases (buf : Bytes) (pos : ℕ) :
    (∃ n, readU32 buf pos = .ok (.ok n) ∧ pos + 4 ≤ buf.length) ∨
    ∃ e, readU32 buf pos = .ok (.error e) ∧ buf.length < pos + 4 := by
  rw [readU32]
  cases hb : getRange buf pos (pos + 4) with
  | none => exact .inr ⟨_, rfl, lt_of_getRange_eq_none (by omega) hb⟩
  | some b =>
      obtain ⟨-, hle, hlen⟩ := length_of_getRange hb
      obtain ⟨hi, hhi⟩ : Returns (wordAt b 0) := Returns.wordAt (by omega)
      obtain ⟨lo, hlo⟩ : Returns (wordAt b 2) := Returns.wordAt (by omega)
      refine .inl ⟨be32 hi lo, ?_, hle⟩
      dsimp only
      rw [hhi, hlo]
      rfl

/-! ### Records that do not fit -/

/-- What an MX record holds is there, in the record or past it. -/
def DecodesMx (msg : Bytes) (off : ℕ) (rdata : Bytes) : Prop :=
  2 ≤ rdata.length ∧ ∃ labels next, Readable msg (off + 2) labels next

/-- What an SOA record holds is there, in the record or past it. -/
def DecodesSoa (msg : Bytes) (off : ℕ) : Prop :=
  ∃ mname afterM rname afterR, Readable msg off mname afterM ∧ Readable msg afterM rname afterR ∧
    afterR + 20 ≤ msg.length

/-- What a record should hold is not there either; or it is a name, with the text of a malformed
record. -/
def Unread (msg : Bytes) (off : ℕ) (rdata : Bytes) (kind : UInt16) : Prop :=
  kind = 15 ∧ ¬ DecodesMx msg off rdata ∨ kind = 6 ∧ ¬ DecodesSoa msg off ∨
    kind ∈ nameKinds ∧ ∃ labels next, Readable msg off labels next ∧ dotted labels = malformed rdata

section Malformed

variable {msg : Bytes} {off : ℕ} {kind : UInt16}

theorem renderName_malformed : renderName msg off = .ok (malformed rdata) ↔
    ∃ labels next, Readable msg off labels next ∧ dotted labels = malformed rdata := by
  rw [renderName]
  rcases readName_cases msg off with ⟨labels, next, hread, hr⟩ | ⟨e, hread, he, hnone⟩
  · rw [hread]
    constructor
    · intro h
      exact ⟨labels, next, hr, Except.ok.inj h⟩
    · rintro ⟨labels', next', hr', htext⟩
      obtain ⟨rfl, -⟩ := hr.unique hr'
      exact congrArg _ htext
  · rw [hread]
    constructor
    · intro h
      have hmem : ' ' ∈ malformed rdata := by
        rw [← Except.ok.inj h]
        simp [he]
      exact absurd hmem (space_notMem_malformed rdata)
    · rintro ⟨labels, next, hr, -⟩
      exact absurd hr (hnone labels next)

theorem renderMx_malformed : renderMx msg off rdata = .ok (malformed rdata) ↔
    ¬ DecodesMx msg off rdata := by
  rw [renderMx]
  rcases readU16_cases rdata 0 with ⟨pref, hpref, hlen⟩ | ⟨e, hpref, hlen⟩
  · rcases readName_cases msg (off + 2) with ⟨labels, next, hread, hr⟩ | ⟨e, hread, -, hnone⟩
    · rw [hpref, hread]
      refine iff_of_false (fun h => ?_) fun hd => hd ⟨hlen, labels, next, hr⟩
      have hmem : ' ' ∈ malformed rdata := by
        rw [← Except.ok.inj h]
        simp
      exact space_notMem_malformed rdata hmem
    · rw [hpref, hread]
      refine iff_of_true rfl fun hd => ?_
      obtain ⟨-, labels, next, hr⟩ := hd
      exact hnone labels next hr
  · obtain ⟨r, hread⟩ := returns_readName msg (off + 2)
    rw [hpref, hread]
    refine iff_of_true (by cases r <;> rfl) fun hd => ?_
    have := hd.1
    omega

/-- A zone's record is rendered exactly when it decodes, and its parts are set apart. -/
theorem renderSoa_cases (msg : Bytes) (off : ℕ) :
    (∃ text, renderSoa msg off = .ok (some text) ∧ ' ' ∈ text ∧ DecodesSoa msg off) ∨
      renderSoa msg off = .ok none ∧ ¬ DecodesSoa msg off := by
  rw [renderSoa]
  rcases readName_cases msg off with ⟨m, afterM, hm, hmr⟩ | ⟨e, hm, -, hnone⟩
  · rw [hm]
    dsimp only [ok_bind]
    rcases readName_cases msg afterM with ⟨r, afterR, hr, hrr⟩ | ⟨e, hr, -, hnone⟩
    · rw [hr]
      dsimp only [ok_bind]
      have hdec : DecodesSoa msg off ↔ afterR + 20 ≤ msg.length := by
        constructor
        · rintro ⟨m', a, r', b, hm', hr', hlen⟩
          obtain ⟨-, rfl⟩ := hmr.unique hm'
          obtain ⟨-, rfl⟩ := hrr.unique hr'
          exact hlen
        · exact fun hlen => ⟨m, afterM, r, afterR, hmr, hrr, hlen⟩
      rw [hdec]
      rcases readU32_cases msg afterR with ⟨serial, h, -⟩ | ⟨e, h, hlen⟩
      swap; · exact .inr ⟨by rw [h]; rfl, by omega⟩
      rw [h]
      dsimp only [ok_bind]
      rcases readU32_cases msg (afterR + 4) with ⟨refresh, h, -⟩ | ⟨e, h, hlen⟩
      swap; · exact .inr ⟨by rw [h]; rfl, by omega⟩
      rw [h]
      dsimp only [ok_bind]
      rcases readU32_cases msg (afterR + 8) with ⟨retry, h, -⟩ | ⟨e, h, hlen⟩
      swap; · exact .inr ⟨by rw [h]; rfl, by omega⟩
      rw [h]
      dsimp only [ok_bind]
      rcases readU32_cases msg (afterR + 12) with ⟨expire, h, -⟩ | ⟨e, h, hlen⟩
      swap; · exact .inr ⟨by rw [h]; rfl, by omega⟩
      rw [h]
      dsimp only [ok_bind]
      rcases readU32_cases msg (afterR + 16) with ⟨minimum, h, hlen⟩ | ⟨e, h, hlen⟩
      swap; · exact .inr ⟨by rw [h]; rfl, by omega⟩
      rw [h]
      exact .inl ⟨_, rfl, by simp [join], hlen⟩
    · refine .inr ⟨by rw [hr]; rfl, ?_⟩
      rintro ⟨m', a, r', b, hm', hr', -⟩
      obtain ⟨-, rfl⟩ := hmr.unique hm'
      exact hnone r' b hr'
  · refine .inr ⟨by rw [hm]; rfl, ?_⟩
    rintro ⟨m', a, r', b, hm', -⟩
    exact hnone m' a hm'

theorem rdataText_malformed (hkind : kind ∈ nameKinds ∨ kind = 15 ∨ kind = 6) :
    rdataText msg off rdata kind = .ok (malformed rdata) ↔ Unread msg off rdata kind := by
  rcases hkind with hname | rfl | rfl
  · have h15 : kind ≠ 15 := by rintro rfl; exact absurd hname (by decide)
    have h6 : kind ≠ 6 := by rintro rfl; exact absurd hname (by decide)
    rw [rdataText_name hname, renderName_malformed]
    simp [Unread, h15, h6, hname]
  · have hmx : rdataText msg off rdata 15 = renderMx msg off rdata := rfl
    have h15 : (15 : UInt16) ∉ nameKinds := by decide
    rw [hmx, renderMx_malformed]
    simp [Unread, h15]
  · have hsoa : rdataText msg off rdata 6 =
        (renderSoa msg off >>= fun text => return text.getD (malformed rdata)) := rfl
    have h6 : (6 : UInt16) ∉ nameKinds := by decide
    rw [hsoa]
    rcases renderSoa_cases msg off with ⟨text, h, hspace, hdec⟩ | ⟨h, hdec⟩
    · rw [h]
      refine iff_of_false (fun he => ?_) (by simp [Unread, h6, hdec])
      exact space_notMem_malformed rdata (Except.ok.inj he ▸ hspace)
    · rw [h]
      exact iff_of_true rfl (by simp [Unread, hdec])

/-- A record is shown as malformed when its data is. -/
theorem renderRdata_malformed : renderRdata msg off rdata kind = .ok (clampText (malformed rdata)) ↔
    rdataText msg off rdata kind = .ok (malformed rdata) := by
  obtain ⟨text, htext⟩ := returns_rdataText msg off rdata kind
  rw [renderRdata, htext]
  simp only [ok_bind, pure_eq_ok, Except.ok.injEq]
  exact clampText_eq_malformed

end Malformed

/-! ### Records of a response -/

/-- The answer is a record of the message, rendered. -/
def Rendered (msg : Bytes) (a : Answer) : Prop :=
  ∃ off rdata kind, getRange msg off (off + rdata.length) = some rdata ∧ a.kind = typeName kind ∧
    renderRdata msg off rdata kind = .ok a.data

theorem Answer.IsRead.rendered {msg : Bytes} {a : Answer} (h : a.IsRead msg) : Rendered msg a := by
  obtain ⟨_, _, off, rdata, kind, -, hs, hkind, hdata⟩ := h
  exact ⟨off, rdata, kind, hs, hkind, hdata⟩

/-- The types of record whose data is names and numbers. -/
def namedKinds : List UInt16 := nameKinds ++ [15, 6]

/-- **Record data.**  What is shown of a response is its records, rendered.  A record of a type with
names that does not fit its data is shown as malformed if what it should hold is not there either, or
it is a name that looks so, and only then.  Another record of the same bytes, for which this holds
too, is shown alike, wherever it is and whatever follows, when what the pointers reach is the same. -/
theorem rdata_confined (msg : Bytes) (off : ℕ) (rdata : Bytes) (kind : UInt16)
    (hkind : kind ∈ namedKinds) (hs : getRange msg off (off + rdata.length) = some rdata) :
    (∀ (query : Bytes) (parsed : Parsed), parseResponse msg query = .ok (.ok parsed) →
      ∀ a ∈ parsed.answers, Rendered msg a) ∧
    ((¬ (∃ targets, Fits rdata kind targets) →
        renderRdata msg off rdata kind = .ok (clampText (malformed rdata))) ↔
      (∃ targets, Fits rdata kind targets) ∨ Unread msg off rdata kind) ∧
    ∀ (msg' : Bytes) (off' : ℕ), getRange msg' off' (off' + rdata.length) = some rdata →
      ((∃ targets, Fits rdata kind targets) ∨
        Unread msg off rdata kind ∧ Unread msg' off' rdata kind) →
      (∀ targets, Fits rdata kind targets → ∀ target ∈ targets, ∀ t ∈ target,
        AgreeFrom msg msg' t) →
      renderRdata msg off rdata kind = renderRdata msg' off' rdata kind := by
  have hkinds : kind ∈ nameKinds ∨ kind = 15 ∨ kind = 6 := by
    simpa [namedKinds] using hkind
  have hshown : ∀ {msg : Bytes} {off : ℕ},
      renderRdata msg off rdata kind = .ok (clampText (malformed rdata)) ↔
        Unread msg off rdata kind :=
    renderRdata_malformed.trans (rdataText_malformed hkinds)
  refine ⟨fun query parsed h a ha => ((isRead_parseResponse h).2 a ha).rendered, ?_,
    fun msg' off' hs' hmeets hagree => ?_⟩
  · rw [hshown]
    exact or_iff_not_imp_left.symm
  · rcases hmeets with ⟨targets, hfits⟩ | ⟨h, h'⟩
    · rw [renderRdata, renderRdata, rdataText_agree hfits hs hs' (hagree targets hfits)]
    · rw [hshown.mpr h, hshown.mpr h']

/-- A mail exchange: preference 10, and the host `m` of the name at offset 1. -/
def exchange : Bytes := [0, 10, 1, 0x6d, 0xc0, 1]

theorem fits_exchange {targets : List (Option ℕ)} (h : Fits exchange 15 targets) :
    targets = [some 1] := by
  generalize hkind : (15 : UInt16) = kind at h
  cases h with
  | name hnamed => exact absurd (hkind ▸ hnamed) (by decide)
  | soa => exact absurd hkind (by decide)
  | mx h =>
      cases h with
      | label hb _ rest =>
          cases hb
          cases rest with
          | label hb hlen =>
              cases hb
              exact absurd hlen (by decide)
          | pointer hb _ hlo =>
              cases hb
              cases hlo
              rfl

/-- The name `a` is all that is read from offset 1 on. -/
theorem agreeFrom_exchange : AgreeFrom ([9, 1, 0x61, 0] ++ exchange ++ [7])
    ([5, 1, 0x61, 0, 3] ++ exchange ++ [1, 0x62, 0]) 1 := by
  intro i hi
  cases hi with
  | here => rfl
  | byte hb _ hi =>
      cases hb
      obtain rfl : i = 2 := by
        have : (1 : UInt8).toNat = 1 := rfl
        omega
      rfl
  | rest hb _ hi =>
      cases hb
      -- the root, which ends the name
      cases hi with
      | here => rfl
      | byte hb hlen | rest hb hlen =>
          cases hb
          exact absurd hlen (by decide)
      | low hb hhi | target hb hhi =>
          cases hb
          exact absurd hhi (by decide)
  | low hb hhi | target hb hhi =>
      cases hb
      exact absurd hhi (by decide)

/-- The exchange, behind a name `a` at offset 1 and with other bytes before, between and after. -/
theorem rdata_confined_mx :
    renderRdata ([9, 1, 0x61, 0] ++ exchange ++ [7]) 4 exchange 15 = .ok (lit "10 m.a") ∧
    renderRdata ([9, 1, 0x61, 0] ++ exchange ++ [7]) 4 exchange 15 =
      renderRdata ([5, 1, 0x61, 0, 3] ++ exchange ++ [1, 0x62, 0]) 5 exchange 15 := by
  have hfits : Fits exchange 15 [some 1] := by
    refine .mx (.label (show exchange[2]? = some 1 from rfl) (by decide) ?_)
    exact .pointer (show exchange[4]? = some 0xc0 from rfl) (by decide)
      (show exchange[5]? = some 1 from rfl)
  refine ⟨by decide +kernel, (rdata_confined _ 4 exchange 15 (by decide) rfl).2.2 _ 5 rfl
    (.inl ⟨_, hfits⟩) fun targets h target htarget t ht => ?_⟩
  rw [fits_exchange h, List.mem_singleton] at htarget
  cases htarget
  cases ht
  exact agreeFrom_exchange

/-- A name server `b`, the end of whose name is the root at which the next record stands. -/
def overrun (next : Bytes) : Bytes :=
  [0, 7, 0x80, 0, 0, 1, 0, 2, 0, 0, 0, 0, 1, 0x61, 0, 0, 2, 0, 1,
    0xc0, 0x0c, 0, 2, 0, 1, 0, 0, 0, 0, 0, 2, 1, 0x62] ++ next ++ [0, 2, 0, 1, 0, 0, 0, 0, 0, 1, 0]

/-- The query for the name servers of `a`. -/
def nsQuery : Bytes := [0, 7, 1, 0, 0, 1, 0, 0, 0, 0, 0, 0, 1, 0x61, 0, 0, 2, 0, 1]

theorem not_fits_overrun : ¬ ∃ targets, Fits [1, 0x62] 2 targets := by
  rintro ⟨targets, h⟩
  generalize hkind : (2 : UInt16) = kind at h
  cases h with
  | name _ h =>
      cases h with
      | label hb _ rest =>
          cases hb
          exact absurd rest.bounds.1 (by decide)
      | pointer hb hhi =>
          cases hb
          exact absurd hhi (by decide)
  | mx => exact absurd hkind (by decide)
  | soa => exact absurd hkind (by decide)

/-- It is shown as `b`, and, where the next record stands at `c`, as `b.c`. -/
theorem rdata_unconfined :
    parseResponse (overrun [0]) nsQuery = .ok (.ok ⟨lit "NOERROR", false,
      [⟨lit "a", lit "NS", 0, lit "b"⟩, ⟨lit ".", lit "NS", 0, lit "."⟩], false⟩) ∧
    getRange (overrun [0]) 31 33 = some [1, 0x62] ∧ (¬ ∃ targets, Fits [1, 0x62] 2 targets) ∧
    renderRdata (overrun [0]) 31 [1, 0x62] 2 ≠ .ok (clampText (malformed [1, 0x62])) ∧
    (overrun [0]).take 33 = (overrun [1, 0x63, 0]).take 33 ∧
    renderRdata (overrun [0]) 31 [1, 0x62] 2 ≠ renderRdata (overrun [1, 0x63, 0]) 31 [1, 0x62] 2 :=
  ⟨by decide +kernel, rfl, not_fits_overrun, by decide +kernel, rfl, by decide +kernel⟩

end Tunnel.Probe
