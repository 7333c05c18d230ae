import Tunnel.Probe.Names

/-!
# Probe — What a query asks

A query that `build_query` accepts is a header, the labels of the name on the wire, the type and the
class.  Its labels are the parts of the name between dots, of letters, digits, `-`, `_` and `*`.

* `buildQuery_eq`: the bytes of a query.
* `readName_wire`: `read_name` reads them back.
-/

namespace Tunnel.Probe
open Support Text

/-- The labels of a name, as `encode_name` splits it. -/
def labelsOf (name : Text) : List Bytes :=
  let name := trimEndMatches '.' (trim name)
  if name.isEmpty then [] else (name.splitOn '.').map utf8

/-- Labels on the wire, uncompressed. -/
def wireLabels (labels : List Bytes) : Bytes :=
  labels.flatMap fun l => UInt8.ofNat l.length :: l

/-- The header of a query with one question. -/
def queryHeader (id : UInt16) : Bytes := beBytes id ++ [0x01, 0x00, 0, 1, 0, 0, 0, 0, 0, 0]

/-- A label that can be asked for. -/
structure Plain (label : Bytes) : Prop where
  ne_nil : label ≠ []
  length_le : label.length ≤ 63
  bytes : ∀ b ∈ label, isLabelByte b = true

theorem encodeLabels_eq {name : Text} {labels : List Text} {out out' : Bytes}
    (h : encodeLabels name labels out = .ok out') :
    out' = out ++ wireLabels (labels.map utf8) ∧ ∀ l ∈ labels.map utf8, Plain l := by
  induction labels generalizing out with
  | nil =>
      cases h
      simp [wireLabels]
  | cons label labels ih =>
      rw [encodeLabels] at h
      by_cases h₁ : label.isEmpty = true
      · rw [if_pos h₁] at h
        cases h
      rw [if_neg h₁] at h
      by_cases h₂ : 63 < label.len
      · rw [if_pos h₂] at h
        cases h
      rw [if_neg h₂] at h
      by_cases h₃ : (!label.utf8.all isLabelByte) = true
      · rw [if_pos h₃] at h
        cases h
      rw [if_neg h₃] at h
      obtain ⟨rfl, hall⟩ := ih h
      refine ⟨by simp [wireLabels], fun l hl => ?_⟩
      rcases List.mem_cons.mp hl with rfl | hl
      · refine ⟨?_, ?_, ?_⟩
        · cases label with
          | nil => simp at h₁
          | cons c label =>
              intro hnil
              have hlen := congrArg List.length hnil
              have hpos := c.utf8Size_pos
              simp only [length_utf8, len_cons, List.length_nil] at hlen
              omega
        · rw [length_utf8]
          exact Nat.le_of_not_lt h₂
        · simpa using h₃
      · exact hall l hl

theorem encodeName_eq {name : Text} {out out' : Bytes} (h : encodeName name out = .ok out') :
    out' = out ++ (wireLabels (labelsOf name) ++ [0]) ∧
      (wireLabels (labelsOf name)).length + 1 ≤ 255 ∧ ∀ l ∈ labelsOf name, Plain l := by
  unfold encodeName at h
  unfold labelsOf
  dsimp only at h ⊢
  generalize trimEndMatches '.' (trim name) = name at h
  have hlabels : ∀ (labelled : Bytes) (labels : List Text),
      labelled = out ++ wireLabels (labels.map utf8) →
      (if 255 < (labelled ++ [0]).length - out.length
        then throw (name ++ lit ": encoded name exceeds 255 bytes")
        else pure (labelled ++ [0]) : Except Text Bytes) = .ok out' →
      out' = out ++ (wireLabels (labels.map utf8) ++ [0]) ∧
        (wireLabels (labels.map utf8)).length + 1 ≤ 255 := by
    rintro _ labels rfl he
    split at he
    · cases he
    · next hle =>
        cases he
        simp only [List.length_append, List.length_singleton] at hle
        exact ⟨by rw [List.append_assoc], by omega⟩
  by_cases hn : name.isEmpty = true
  · rw [if_pos hn] at h ⊢
    obtain ⟨ho, hl⟩ := hlabels out [] (by simp [wireLabels]) h
    exact ⟨ho, hl, by simp⟩
  · rw [if_neg hn] at h ⊢
    cases he : encodeLabels name (name.splitOn '.') out with
    | error e => rw [he] at h; cases h
    | ok labelled =>
        rw [he] at h
        obtain ⟨hlabelled, hall⟩ := encodeLabels_eq he
        obtain ⟨ho, hl⟩ := hlabels _ _ hlabelled h
        exact ⟨ho, hl, hall⟩

/-- The bytes of a query. -/
theorem buildQuery_eq {id qtype : UInt16} {name : Text} {query : Bytes}
    (h : buildQuery id name qtype = .ok query) :
    query = queryHeader id ++ (wireLabels (labelsOf name) ++ [0]) ++ (beBytes qtype ++ [0, 1]) ∧
      (wireLabels (labelsOf name)).length + 1 ≤ 255 ∧ ∀ l ∈ labelsOf name, Plain l := by
  unfold buildQuery at h
  dsimp only at h
  cases he : encodeName name (beBytes id ++ [0x01, 0x00] ++ beBytes 1 ++ [0, 0, 0, 0, 0, 0]) with
  | error e => rw [he] at h; cases h
  | ok p =>
      rw [he] at h
      cases h
      obtain ⟨rfl, hlen, hall⟩ := encodeName_eq he
      refine ⟨?_, hlen, hall⟩
      rw [show beBytes 1 = [0, 1] from rfl, queryHeader]
      simp only [List.append_assoc, List.cons_append, List.nil_append]

/-! ### A query read back -/

/-- A property of every byte, by its value. -/
theorem forall_byte {P : UInt8 → Prop} (h : ∀ n < 256, P (UInt8.ofNat n)) (b : UInt8) : P b := by
  have hb := h b.toNat b.toNat_lt
  rwa [UInt8.ofNat_toNat] at hb

/-- A byte of a label is written as itself. -/
theorem escape_of_isLabelByte : ∀ b, isLabelByte b = true → escape b = [Char.ofNat b.toNat] :=
  forall_byte (by decide +kernel)

theorem utf8Size_of_isLabelByte :
    ∀ b, isLabelByte b = true → (Char.ofNat b.toNat).utf8Size = 1 :=
  forall_byte (by decide +kernel)

/-- The length byte of a label is neither a pointer nor of a reserved type. -/
theorem kind_of_length {n : ℕ} (h : n ≤ 63) :
    UInt8.ofNat n &&& 0xc0 = 0 ∧ (UInt8.ofNat n).toNat = n := by
  have hn : ∀ n < 64, UInt8.ofNat n &&& 0xc0 = 0 ∧ (UInt8.ofNat n).toNat = n := by
    decide +kernel
  exact hn n (Nat.lt_succ_of_le h)

theorem getRange_append {α : Type} (xs ys zs : List α) :
    getRange (xs ++ (ys ++ zs)) xs.length (xs.length + ys.length) = some ys := by
  unfold getRange
  rw [if_pos ⟨by omega, by simp⟩, List.drop_left, Nat.add_sub_cancel_left, List.take_left]

namespace Plain

theorem flatMap_escape {label : Bytes} (h : Plain label) :
    label.flatMap escape = label.map fun b => Char.ofNat b.toNat := by
  obtain ⟨-, -, hbytes⟩ := h
  induction label with
  | nil => rfl
  | cons b label ih =>
      rw [List.flatMap_cons, escape_of_isLabelByte b (hbytes b (by simp)),
        ih fun b hb => hbytes b (by simp [hb])]
      rfl

theorem len_escape {label : Bytes} (h : Plain label) :
    len (label.flatMap escape) = label.length := by
  rw [h.flatMap_escape]
  obtain ⟨-, -, hbytes⟩ := h
  induction label with
  | nil => rfl
  | cons b label ih =>
      rw [List.map_cons, len_cons, utf8Size_of_isLabelByte b (hbytes b (by simp)),
        ih fun b hb => hbytes b (by simp [hb]), List.length_cons, Nat.add_comm]

theorem len_addLabel {label : Bytes} (h : Plain label) (out : Text) :
    len (addLabel out label) ≤ len out + label.length + 1 := by
  rw [addLabel, pushEscaped, len_append, h.len_escape]
  split
  · omega
  · simp [Char.utf8Size]
    omega

end Plain

/-- The labels still to be read fit into the text, one character a byte. -/
theorem readNameFrom_wire {pre post : Bytes} {labels : List Bytes} {fuel : ℕ} {out : Text}
    (hplain : ∀ l ∈ labels, Plain l) (hfuel : labels.length < fuel)
    (hout : len out + (wireLabels labels).length ≤ 255) :
    readNameFrom (pre ++ (wireLabels labels ++ 0 :: post)) fuel out pre.length 0 none =
      .ok (.ok (if (labels.foldl addLabel out).isEmpty then ['.'] else labels.foldl addLabel out,
        pre.length + (wireLabels labels).length + 1)) := by
  induction labels generalizing pre fuel out with
  | nil =>
      obtain ⟨fuel, rfl⟩ := Nat.exists_eq_succ_of_ne_zero (Nat.ne_of_gt hfuel)
      simp [readNameFrom, wireLabels]
  | cons l labels ih =>
      obtain ⟨fuel, rfl⟩ := Nat.exists_eq_succ_of_ne_zero (Nat.ne_of_gt (Nat.zero_lt_of_lt hfuel))
      have hl : Plain l := hplain l (by simp)
      obtain ⟨hkind, hlen⟩ := kind_of_length hl.length_le
      have hne : UInt8.ofNat l.length ≠ 0 := by
        intro h0
        rw [h0] at hlen
        exact hl.ne_nil (List.eq_nil_of_length_eq_zero hlen.symm)
      have hwire : wireLabels (l :: labels) = UInt8.ofNat l.length :: (l ++ wireLabels labels) := rfl
      have hwlen : (wireLabels (l :: labels)).length = l.length + (wireLabels labels).length + 1 := by
        simp [hwire]
      have hadd := hl.len_addLabel out
      have hbuf : pre ++ (wireLabels (l :: labels) ++ 0 :: post) =
          (pre ++ [UInt8.ofNat l.length]) ++ (l ++ (wireLabels labels ++ 0 :: post)) := by
        simp [hwire]
      have hbyte : (pre ++ (wireLabels (l :: labels) ++ 0 :: post))[pre.length]? =
          some (UInt8.ofNat l.length) := by
        simp [hwire]
      have hrange := getRange_append (pre ++ [UInt8.ofNat l.length]) l
        (wireLabels labels ++ 0 :: post)
      have hrest := @ih (pre ++ [UInt8.ofNat l.length] ++ l) fuel (addLabel out l)
        (fun l hl => hplain l (by simp [hl])) (by simpa using hfuel) (by omega)
      rw [List.append_assoc, ← hbuf, List.length_append, List.length_append,
        List.length_singleton] at hrest
      rw [← hbuf, List.length_append, List.length_singleton] at hrange
      rw [readNameFrom_succ, turnAt_of_label hbyte hkind hne (by rw [hlen, hrange])]
      dsimp only
      rw [if_neg (by omega), hrest, hwlen, List.foldl_cons,
        show pre.length + 1 + l.length + (wireLabels labels).length + 1 =
          pre.length + (l.length + (wireLabels labels).length + 1) + 1 by omega]

theorem length_le_wireLabels (labels : List Bytes) : labels.length ≤ (wireLabels labels).length := by
  induction labels with
  | nil => simp
  | cons l labels ih =>
      simp only [wireLabels, List.flatMap_cons, List.length_append, List.length_cons] at ih ⊢
      omega

/-- A name that was encoded is read back. -/
theorem readName_wire (pre : Bytes) {labels : List Bytes} (post : Bytes)
    (hplain : ∀ l ∈ labels, Plain l) (hlen : (wireLabels labels).length + 1 ≤ 255) :
    readName (pre ++ (wireLabels labels ++ 0 :: post)) pre.length =
      .ok (.ok (render labels, pre.length + (wireLabels labels).length + 1)) := by
  have hle := length_le_wireLabels labels
  refine readNameFrom_wire hplain ?_ (by simp; omega)
  refine Nat.lt_of_lt_of_le ?_ (Nat.le_mul_of_pos_left _ (by decide))
  simp only [List.length_append, List.length_cons]
  omega

end Tunnel.Probe
