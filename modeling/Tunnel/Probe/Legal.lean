import Tunnel.Probe.Query

/-!
# Probe — Legal names

The names a message may hold at an offset: labels of at most 63 bytes, at most `MAX_NAME_JUMPS`
pointers followed, and at most 255 bytes on the wire.  `read_name` limits not the bytes on the wire
but the text it has written so far, in which some bytes take more than one character.

* `NameIn`: a name and the pointers followed for it.  `NameIn.nameAt`, `NameAt.exists_nameIn`: it is
  the name `NameAt` gives.
* `isOk_readNameFrom`: the loop returns a name exactly when there are few jumps and the text is short.
* `readName_iff`: what `read_name` returns.
* `readName_legal_iff`: it returns exactly the legal names where the limit on the text and that on the
  wire agree.
* `readName_refuses`: a name of 67 bytes on the wire that is refused, and one of 257 that is not.
-/

namespace Tunnel.Probe
open Support Text

/-- A name at an offset, with the pointers followed for it, and the offset past the first pointer, or
past the root label. -/
inductive NameIn (buf : Bytes) : ℕ → ℕ → List Bytes → ℕ → Prop where
  | root {pos : ℕ} (h : buf[pos]? = some 0) : NameIn buf pos 0 [] (pos + 1)
  | label {pos jumps next : ℕ} {len : UInt8} {label : Bytes} {labels : List Bytes}
      (h : buf[pos]? = some len) (hlen : 1 ≤ len.toNat ∧ len.toNat ≤ 63)
      (hlabel : getRange buf (pos + 1) (pos + 1 + len.toNat) = some label)
      (rest : NameIn buf (pos + 1 + len.toNat) jumps labels next) :
      NameIn buf pos jumps (label :: labels) next
  | pointer {pos jumps next : ℕ} {hi lo : UInt8} {labels : List Bytes}
      (h : buf[pos]? = some hi) (hhi : 192 ≤ hi.toNat) (hlo : buf[pos + 1]? = some lo)
      (htarget : (hi.toNat - 192) * 256 + lo.toNat < buf.length)
      (target : NameIn buf ((hi.toNat - 192) * 256 + lo.toNat) jumps labels next) :
      NameIn buf pos (jumps + 1) labels (pos + 2)

/-- The bytes of an uncompressed name, its root label included. -/
def wireLength (labels : List Bytes) : ℕ := (labels.map fun l => l.length + 1).sum + 1

/-- The characters a byte takes besides one. -/
def extra (b : UInt8) : ℕ :=
  if b = 0x22 ∨ b = 0x5c then 1 else if 0x20 ≤ b ∧ b ≤ 0x7e then 0 else 3

/-- Those of all labels. -/
def extraChars (labels : List Bytes) : ℕ := (labels.map fun l => (l.map extra).sum).sum

/-- What `read_name` should return names for. -/
def Legal (buf : Bytes) (start : ℕ) (labels : List Bytes) (next : ℕ) : Prop :=
  (∃ jumps, jumps ≤ MAX_NAME_JUMPS ∧ NameIn buf start jumps labels next) ∧ wireLength labels ≤ 255

/-- What it returns names for: those of a short text. -/
def Readable (buf : Bytes) (start : ℕ) (labels : List Bytes) (next : ℕ) : Prop :=
  (∃ jumps, jumps ≤ MAX_NAME_JUMPS ∧ NameIn buf start jumps labels next) ∧
    wireLength labels + extraChars labels ≤ 257

/-- At this offset it returns the legal name, and nothing else. -/
def ReadsLegal (buf : Bytes) (start : ℕ) : Prop :=
  ∀ text next, readName buf start = .ok (.ok (text, next)) ↔
    ∃ labels, Legal buf start labels next ∧ text = dotted labels

/-! ### What a turn of the loop finds -/

theorem kind_label_iff : ∀ b : UInt8, b &&& 0xc0 = 0x00 ↔ b.toNat ≤ 63 :=
  forall_byte (by decide +kernel)

theorem kind_pointer_iff : ∀ b : UInt8, b &&& 0xc0 = 0xc0 ↔ 192 ≤ b.toNat :=
  forall_byte (by decide +kernel)

theorem low_six : ∀ b : UInt8, 192 ≤ b.toNat → (b &&& 0x3f).toNat = b.toNat - 192 :=
  forall_byte (by decide +kernel)

theorem pointerOf_eq {hi : UInt8} (h : 192 ≤ hi.toNat) (lo : UInt8) :
    pointerOf hi lo = (hi.toNat - 192) * 256 + lo.toNat := by
  rw [pointerOf, low_six hi h, ← Nat.shiftLeft_add_eq_or_of_lt lo.toNat_lt, Nat.shiftLeft_eq]

variable {buf : Bytes} {pos jumps next : ℕ} {labels : List Bytes}

/-- What is found, from the bytes. -/
theorem turnAt_root (h : buf[pos]? = some 0) : turnAt buf pos = .root := by
  rw [turnAt, h]
  rfl

theorem turnAt_label {len : UInt8} {label : Bytes} (h : buf[pos]? = some len)
    (hlen : 1 ≤ len.toNat ∧ len.toNat ≤ 63)
    (hlabel : getRange buf (pos + 1) (pos + 1 + len.toNat) = some label) :
    turnAt buf pos = .label label := by
  refine turnAt_of_label h ((kind_label_iff len).mpr hlen.2) ?_ hlabel
  rintro rfl
  exact absurd hlen.1 (by decide)

theorem turnAt_pointer {hi lo : UInt8} (h : buf[pos]? = some hi) (hhi : 192 ≤ hi.toNat)
    (hlo : buf[pos + 1]? = some lo) :
    turnAt buf pos = .pointer ((hi.toNat - 192) * 256 + lo.toNat) := by
  have hkind := (kind_pointer_iff hi).mpr hhi
  rw [turnAt, h]
  dsimp only
  rw [if_neg (by rw [hkind]; decide), if_pos hkind, hlo, ← pointerOf_eq hhi]

/-- And the bytes, from what is found. -/
theorem of_turnAt_label {label : Bytes} (h : turnAt buf pos = .label label) :
    ∃ len : UInt8, buf[pos]? = some len ∧ (1 ≤ len.toNat ∧ len.toNat ≤ 63) ∧
      label.length = len.toNat := by
  obtain ⟨len, hb, hkind, hlen, hl⟩ := label_of_turnAt h
  have hpos := Nat.pos_of_ne_zero fun h0 => hlen (UInt8.toNat_inj.mp h0)
  have hlength := (length_of_getRange hl).2.2
  exact ⟨len, hb, ⟨hpos, (kind_label_iff len).mp hkind⟩, by omega⟩

theorem of_turnAt_pointer {target : ℕ} (h : turnAt buf pos = .pointer target) :
    ∃ hi lo : UInt8, buf[pos]? = some hi ∧ 192 ≤ hi.toNat ∧ buf[pos + 1]? = some lo ∧
      target = (hi.toNat - 192) * 256 + lo.toNat := by
  obtain ⟨hi, lo, hb, hkind, hlo, rfl⟩ := pointer_of_turnAt h
  have hhi := (kind_pointer_iff hi).mp hkind
  exact ⟨hi, lo, hb, hhi, hlo, pointerOf_eq hhi lo⟩

/-! ### The name there is -/

theorem NameIn.nameAt (h : NameIn buf pos jumps labels next) : NameAt buf pos labels next := by
  induction h with
  | root hb => exact .root hb
  | label hb hlen hlabel _ ih =>
      refine .label hb ((kind_label_iff _).mpr hlen.2) ?_ hlabel ih
      rintro rfl
      exact absurd hlen.1 (by decide)
  | pointer hb hhi hlo _ _ ih =>
      rw [← pointerOf_eq hhi] at ih
      exact .pointer hb ((kind_pointer_iff _).mpr hhi) hlo ih

theorem NameAt.exists_nameIn (h : NameAt buf pos labels next) :
    ∃ jumps, NameIn buf pos jumps labels next := by
  induction h with
  | root hb => exact ⟨0, .root hb⟩
  | label hb hkind hlen hlabel _ ih =>
      obtain ⟨jumps, hin⟩ := ih
      have hpos := Nat.pos_of_ne_zero fun h0 => hlen (UInt8.toNat_inj.mp h0)
      exact ⟨jumps, .label hb ⟨hpos, (kind_label_iff _).mp hkind⟩ hlabel hin⟩
  | pointer hb hkind hlo target ih =>
      obtain ⟨jumps, hin⟩ := ih
      have hhi := (kind_pointer_iff _).mp hkind
      have hbounds := target.bounds
      rw [pointerOf_eq hhi] at hin hbounds
      exact ⟨jumps + 1, .pointer hb hhi hlo (by omega) hin⟩

/-! ### The text there is room for -/

theorem len_escape : ∀ b, len (escape b) = 1 + extra b :=
  forall_byte (by decide +kernel)

theorem len_flatMap_escape (label : Bytes) :
    len (label.flatMap escape) = label.length + (label.map extra).sum := by
  induction label with
  | nil => rfl
  | cons b label ih =>
      rw [List.flatMap_cons, len_append, len_escape, ih, List.length_cons, List.map_cons,
        List.sum_cons]
      omega

/-- The text so far, and the dot after it. -/
def taken (out : Text) : ℕ := if out.isEmpty then 0 else out.len + 1

/-- What labels add. -/
def needed (labels : List Bytes) : ℕ :=
  (labels.map fun l => l.length + 1 + (l.map extra).sum).sum

theorem needed_eq (labels : List Bytes) :
    needed labels + 1 = wireLength labels + extraChars labels := by
  induction labels with
  | nil => rfl
  | cons l labels ih =>
      simp only [needed, wireLength, extraChars, List.map_cons, List.sum_cons] at ih ⊢
      omega

theorem addLabel_ne_nil (out : Text) {label : Bytes} (h : label ≠ []) : addLabel out label ≠ [] := by
  simp only [addLabel, pushEscaped, ne_eq, List.append_eq_nil_iff, not_and]
  exact fun _ => flatMap_escape_ne_nil h

theorem taken_addLabel (out : Text) {label : Bytes} (h : label ≠ []) :
    taken (addLabel out label) = taken out + (label.length + 1 + (label.map extra).sum) := by
  rw [taken, if_neg (by simpa using addLabel_ne_nil out h), addLabel, pushEscaped, len_append,
    len_flatMap_escape, taken]
  split
  · next hout => rw [List.isEmpty_iff.mp hout, len_nil]; omega
  · simp [Char.utf8Size]; omega

/-- The loop returns a name where the jumps and the text stay in their limits. -/
theorem isOk_readNameFrom (h : NameIn buf pos jumps labels next) {fuel jumped : ℕ} {out : Text}
    {resume : Option ℕ} {r : Except Text (Text × ℕ)}
    (hr : readNameFrom buf fuel out pos jumped resume = .ok r) (hjumped : jumped ≤ MAX_NAME_JUMPS)
    (hout : taken out ≤ 256) :
    (∃ read, r = .ok read) ↔ jumped + jumps ≤ MAX_NAME_JUMPS ∧ taken out + needed labels ≤ 256 := by
  induction h generalizing fuel jumped out resume with
  | root hb =>
      cases fuel with
      | zero => cases hr
      | succ fuel =>
          rw [readNameFrom_succ, turnAt_root hb] at hr
          cases hr
          simpa [needed] using ⟨hjumped, hout⟩
  | @label pos jumps next len label labels hb hlen hlabel _ ih =>
      cases fuel with
      | zero => cases hr
      | succ fuel =>
          have hlength := (length_of_getRange hlabel).2.2
          rw [Nat.add_sub_cancel_left] at hlength
          have hlabel_ne : label ≠ [] := by
            rintro rfl
            rw [List.length_nil] at hlength
            omega
          have htaken := taken_addLabel out hlabel_ne
          have hlen_add : taken (addLabel out label) = (addLabel out label).len + 1 :=
            if_neg (by simpa using addLabel_ne_nil out hlabel_ne)
          have hneeded : needed (label :: labels) =
              label.length + 1 + (label.map extra).sum + needed labels := by simp [needed]
          rw [readNameFrom_succ, turnAt_label hb hlen hlabel] at hr
          dsimp only at hr
          rw [hlength] at hr
          split at hr
          · next hlong =>
              cases hr
              simp only [reduceCtorEq, exists_false, false_iff]
              omega
          · rw [ih hr hjumped (by omega)]
            omega
  | @pointer pos jumps next hi lo labels hb hhi hlo htarget _ ih =>
      cases fuel with
      | zero => cases hr
      | succ fuel =>
          rw [readNameFrom_succ, turnAt_pointer hb hhi hlo] at hr
          dsimp only at hr
          rw [if_neg (Nat.not_le.mpr htarget)] at hr
          split at hr
          · next hjump =>
              cases hr
              simp only [reduceCtorEq, exists_false, false_iff]
              omega
          · rw [ih hr (by omega) hout]
            omega

theorem Readable.unique {start next' : ℕ} {labels' : List Bytes}
    (h : Readable buf start labels next) (h' : Readable buf start labels' next') :
    labels = labels' ∧ next = next' := by
  obtain ⟨⟨jumps, -, hin⟩, -⟩ := h
  obtain ⟨⟨jumps', -, hin'⟩, -⟩ := h'
  exact hin.nameAt.unique hin'.nameAt

/-- What `read_name` returns. -/
theorem readName_iff {start : ℕ} {text : Text} :
    readName buf start = .ok (.ok (text, next)) ↔
      ∃ labels, Readable buf start labels next ∧ text = dotted labels := by
  constructor
  · intro h
    obtain ⟨labels, hn, rfl⟩ := readName_nameAt h
    obtain ⟨jumps, hin⟩ := hn.exists_nameIn
    obtain ⟨hjumps, hneeded⟩ := (isOk_readNameFrom hin h (Nat.zero_le _) (Nat.zero_le _)).mp ⟨_, rfl⟩
    have heq := needed_eq labels
    have htaken : taken [] = 0 := rfl
    exact ⟨labels, ⟨⟨jumps, by omega, hin⟩, by omega⟩, render_eq_dotted hn.ne_nil⟩
  · rintro ⟨labels, ⟨⟨jumps, hjumps, hin⟩, hlen⟩, rfl⟩
    obtain ⟨r, hr⟩ := returns_readName buf start
    have heq := needed_eq labels
    have htaken : taken [] = 0 := rfl
    obtain ⟨⟨text, next'⟩, rfl⟩ := (isOk_readNameFrom hin hr (Nat.zero_le _) (Nat.zero_le _)).mpr
      ⟨by omega, by omega⟩
    obtain ⟨labels', hn', rfl⟩ := readName_nameAt hr
    obtain ⟨rfl, rfl⟩ := hin.nameAt.unique hn'
    rw [hr, render_eq_dotted hn'.ne_nil]

/-- **Legal names.**  `read_name` returns at an offset exactly the legal name, as text, if, should few
enough pointers lead to a name there, its bytes on the wire are at most 255 exactly when its text,
with what stands for quotes, backslashes and bytes that are not printable, is. -/
theorem readName_legal_iff (buf : Bytes) (start : ℕ) :
    ReadsLegal buf start ↔ ∀ jumps labels next, jumps ≤ MAX_NAME_JUMPS →
      NameIn buf start jumps labels next →
        (wireLength labels ≤ 255 ↔ wireLength labels + extraChars labels ≤ 257) := by
  constructor
  · intro h jumps labels next hjumps hin
    have hread := h (dotted labels) next
    constructor
    · intro hwire
      obtain ⟨labels', ⟨⟨jumps', -, hin'⟩, hlen⟩, -⟩ :=
        readName_iff.mp (hread.mpr ⟨labels, ⟨⟨jumps, hjumps, hin⟩, hwire⟩, rfl⟩)
      obtain ⟨rfl, -⟩ := hin.nameAt.unique hin'.nameAt
      exact hlen
    · intro hlen
      obtain ⟨labels', ⟨⟨jumps', -, hin'⟩, hwire⟩, -⟩ :=
        hread.mp (readName_iff.mpr ⟨labels, ⟨⟨jumps, hjumps, hin⟩, hlen⟩, rfl⟩)
      obtain ⟨rfl, -⟩ := hin.nameAt.unique hin'.nameAt
      exact hwire
  · intro h text next
    rw [readName_iff]
    refine exists_congr fun labels => and_congr_left fun _ => and_congr_right fun hin => ?_
    obtain ⟨jumps, hjumps, hin⟩ := hin
    exact (h jumps labels next hjumps hin).symm

/-- A label of 63 bytes that are not printable, and one of one more: 67 bytes on the wire, and 257
characters. -/
def accented : Bytes := 63 :: List.replicate 63 0xe9 ++ [1, 0xe9, 0]

/-- Four labels of 63 letters: 257 bytes on the wire, and 255 characters. -/
def overlong : Bytes := (List.replicate 4 (63 :: List.replicate 63 0x61)).flatten ++ [0]

/-- The first is legal and refused, and the second is not legal and returned. -/
theorem readName_refuses :
    (readName accented 0 = .ok (.error (lit "name longer than 255 bytes")) ∧
      Legal accented 0 [List.replicate 63 0xe9, [0xe9]] 67 ∧ ¬ ReadsLegal accented 0) ∧
    (∃ text, readName overlong 0 = .ok (.ok (text, 257))) ∧
    ∀ labels, ¬ Legal overlong 0 labels 257 := by
  have hread : readName accented 0 = .ok (.error (lit "name longer than 255 bytes")) := by
    decide +kernel
  have hlegal : Legal accented 0 [List.replicate 63 0xe9, [0xe9]] 67 := by
    refine ⟨⟨0, Nat.zero_le _, ?_⟩, by decide⟩
    refine .label (show accented[0]? = some 63 from rfl) (by decide) (by decide +kernel) ?_
    exact .label (show accented[64]? = some 1 from rfl) (by decide) (by decide +kernel) (.root rfl)
  have hlong : NameIn overlong 0 0 (List.replicate 4 (List.replicate 63 0x61)) 257 := by
    refine .label (show overlong[0]? = some 63 from rfl) (by decide) (by decide +kernel) ?_
    refine .label (show overlong[64]? = some 63 from rfl) (by decide) (by decide +kernel) ?_
    refine .label (show overlong[128]? = some 63 from rfl) (by decide) (by decide +kernel) ?_
    exact .label (show overlong[192]? = some 63 from rfl) (by decide) (by decide +kernel) (.root rfl)
  refine ⟨⟨hread, hlegal, fun h => ?_⟩,
    ⟨_, readName_iff.mpr ⟨_, ⟨⟨0, Nat.zero_le _, hlong⟩, ?_⟩, rfl⟩⟩, ?_⟩
  · have hok := (h _ 67).mpr ⟨_, hlegal, rfl⟩
    rw [hread] at hok
    cases hok
  · decide
  · rintro labels ⟨⟨jumps, -, hin⟩, hwire⟩
    obtain ⟨rfl, -⟩ := hlong.nameAt.unique hin.nameAt
    exact absurd hwire (by decide)

end Tunnel.Probe
