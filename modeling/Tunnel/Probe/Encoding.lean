import Tunnel.Probe.Query

/-!
# Probe — Names encoded and decoded

`encode_name` takes the white space around a name off, and the dots at its end; what is left is its
stripped form.  The encoding determines the stripped form, and is determined by it.

* `encodeName_append`: what is written does not depend on what is there already.
* `dotted_labelsOf`: a stripped name is the text of its labels.
* `encodeName_round_trip`: `read_name` reads the stripped form back, wherever the encoding stands; and
  two names are encoded alike exactly when their stripped forms are the same.
-/

namespace Tunnel.Probe
open Support Text

/-- `name.trim().trim_end_matches('.')`. -/
def stripped (name : Text) : Text := trimEndMatches '.' (trim name)

/-! ### What is written -/

theorem encodeLabels_append (name : Text) (labels : List Text) (pre out : Bytes) :
    encodeLabels name labels (pre ++ out) = (encodeLabels name labels out).map (pre ++ ·) := by
  induction labels generalizing out with
  | nil => rfl
  | cons label labels ih =>
      rw [encodeLabels, encodeLabels]
      by_cases h₁ : label.isEmpty = true
      · rw [if_pos h₁, if_pos h₁]
        rfl
      by_cases h₂ : 63 < label.len
      · rw [if_neg h₁, if_neg h₁, if_pos h₂, if_pos h₂]
        rfl
      by_cases h₃ : (!label.utf8.all isLabelByte) = true
      · rw [if_neg h₁, if_neg h₁, if_neg h₂, if_neg h₂, if_pos h₃, if_pos h₃]
        rfl
      rw [if_neg h₁, if_neg h₁, if_neg h₂, if_neg h₂, if_neg h₃, if_neg h₃, List.append_assoc]
      exact ih _

/-- What is written does not depend on what is there already. -/
theorem encodeName_append (name : Text) (pre : Bytes) :
    encodeName name pre = (encodeName name []).map (pre ++ ·) := by
  unfold encodeName
  dsimp only
  generalize trimEndMatches '.' (trim name) = name
  have hend : ∀ labelled : Bytes,
      (if 255 < (pre ++ labelled ++ [0]).length - pre.length
        then throw (name ++ lit ": encoded name exceeds 255 bytes")
        else pure (pre ++ labelled ++ [0]) : Except Text Bytes) =
      (if 255 < (labelled ++ [0]).length - ([] : Bytes).length
        then throw (name ++ lit ": encoded name exceeds 255 bytes")
        else pure (labelled ++ [0]) : Except Text Bytes).map (pre ++ ·) := by
    intro labelled
    have hlen : (pre ++ labelled ++ [0]).length - pre.length =
        (labelled ++ [0]).length - ([] : Bytes).length := by simp
    rw [hlen]
    split
    · rfl
    · rw [List.append_assoc]
      rfl
  by_cases hn : name.isEmpty = true
  · rw [if_pos hn, if_pos hn]
    have h := hend []
    rw [List.append_nil] at h
    exact h
  · rw [if_neg hn, if_neg hn]
    have hlabels := encodeLabels_append name (name.splitOn '.') pre []
    rw [List.append_nil] at hlabels
    rw [hlabels]
    cases encodeLabels name (name.splitOn '.') [] with
    | error e => rfl
    | ok labelled => exact hend labelled

/-! ### What is read back -/

/-- What `read_name` returns for a name. -/
def shownName (name : Text) : Text := if (stripped name).isEmpty then ['.'] else stripped name

theorem toNat_of_isLabelByte : ∀ b, isLabelByte b = true → b.toNat ≤ 0x7f :=
  forall_byte (by decide +kernel)

/-- A character whose bytes are all let into a label is one of them. -/
theorem escape_utf8EncodeChar {c : Char}
    (h : ∀ b ∈ String.utf8EncodeChar c, isLabelByte b = true) :
    (String.utf8EncodeChar c).flatMap escape = [c] := by
  -- the first byte of a longer encoding is above all those of labels
  have hlead : ∀ n rest, n < 64 → String.utf8EncodeChar c ≠ UInt8.ofNat (n + 192) :: rest := by
    intro n rest hn he
    have hle := toNat_of_isLabelByte _ (h (UInt8.ofNat (n + 192)) (by simp [he]))
    rw [UInt8.toNat_ofNat_of_lt' (Nat.lt_of_lt_of_le (Nat.add_lt_add_right hn 192) (by decide))]
      at hle
    omega
  by_cases hc : c.val.toNat ≤ 0x7f
  · have henc : String.utf8EncodeChar c = [UInt8.ofNat c.toNat] := if_pos hc
    have hbyte : isLabelByte (UInt8.ofNat c.toNat) = true := h _ (by simp [henc])
    have hval : (UInt8.ofNat c.toNat).toNat = c.toNat :=
      UInt8.toNat_ofNat_of_lt' (by simpa using Nat.lt_of_le_of_lt hc (by decide))
    rw [henc, List.flatMap_singleton, escape_of_isLabelByte _ hbyte, hval, Char.ofNat_toNat]
  · exfalso
    unfold String.utf8EncodeChar at hlead
    dsimp only at hlead
    rw [if_neg hc] at hlead
    split_ifs at hlead
    · exact hlead (c.val.toNat / 64 % 32) _ (by omega) rfl
    · exact hlead (c.val.toNat / 4096 % 16 + 32) _ (by omega) rfl
    · exact hlead (c.val.toNat / 262144 % 8 + 48) _ (by omega) rfl

theorem escape_utf8 {t : Text} (h : ∀ b ∈ utf8 t, isLabelByte b = true) :
    pushEscaped [] (utf8 t) = t := by
  induction t with
  | nil => rfl
  | cons c t ih =>
      have hc : ∀ b ∈ String.utf8EncodeChar c, isLabelByte b = true := fun b hb =>
        h b (List.mem_append_left _ hb)
      have ht := ih fun b hb => h b (List.mem_append_right _ hb)
      change ((String.utf8EncodeChar c ++ utf8 t).flatMap escape) = c :: t
      rw [List.flatMap_append, escape_utf8EncodeChar hc]
      exact congrArg (c :: ·) ht

/-- A stripped name is the text of its labels. -/
theorem dotted_labelsOf {name : Text} (h : ∀ l ∈ labelsOf name, Plain l) :
    dotted (labelsOf name) = shownName name := by
  rw [shownName, stripped]
  unfold labelsOf at h ⊢
  dsimp only at h ⊢
  generalize trimEndMatches '.' (trim name) = name at h ⊢
  by_cases hn : name.isEmpty = true
  · rw [if_pos hn, if_pos hn]
    rfl
  · rw [if_neg hn] at h ⊢
    rw [if_neg hn]
    have hparts : ((name.splitOn '.').map utf8).map (pushEscaped []) = name.splitOn '.' := by
      rw [List.map_map]
      exact (List.map_congr_left fun t ht =>
        escape_utf8 (h (utf8 t) (List.mem_map_of_mem ht)).bytes).trans (List.map_id _)
    have hne : ((name.splitOn '.').map utf8).isEmpty = false := by
      simp [List.splitOn_ne_nil]
    rw [dotted, hne, hparts, if_neg Bool.false_ne_true, List.intercalate_splitOn]

/-- A stripped name is not a dot, so that what is read tells it. -/
theorem shownName_inj {name name' : Text} (h : shownName name = shownName name') :
    stripped name = stripped name' := by
  have hdot : ∀ name, stripped name ≠ ['.'] := by
    intro name he
    have hlast := List.rdropWhile_last_not (· == '.') (trim name) (by
      change stripped name ≠ []
      simp [he])
    exact hlast (by
      change ((stripped name).getLast _ == '.') = true
      simp [he])
  unfold shownName at h
  split at h <;> split at h
  · next h₁ h₂ => rw [List.isEmpty_iff.mp h₁, List.isEmpty_iff.mp h₂]
  · exact absurd h.symm (hdot name')
  · exact absurd h (hdot name)
  · exact h

theorem readName_encodeName {name : Text} {enc : Bytes} (h : encodeName name [] = .ok enc)
    (pre post : Bytes) : readName (pre ++ enc ++ post) pre.length =
      .ok (.ok (shownName name, pre.length + enc.length)) := by
  obtain ⟨henc, hlen, hplain⟩ := encodeName_eq h
  rw [List.nil_append] at henc
  have hread := readName_wire pre post hplain hlen
  rw [render_eq_dotted fun l hl => (hplain l hl).ne_nil, dotted_labelsOf hplain] at hread
  have hbuf : pre ++ enc ++ post = pre ++ (wireLabels (labelsOf name) ++ 0 :: post) := by
    rw [henc]
    simp
  have hnext : pre.length + enc.length = pre.length + (wireLabels (labelsOf name)).length + 1 := by
    rw [henc, List.length_append, List.length_singleton, Nat.add_assoc]
  rw [hbuf, hnext, hread]

/-- **Names round-trip.**  Of a name that `encode_name` accepts, the encoding is the same wherever it
is written, and `read_name` reads the stripped form back from it and stops at its end, whatever
stands before and after; a dot stands for the root.  Names are encoded alike when their stripped
forms are the same, and only then. -/
theorem encodeName_round_trip :
    (∀ (name : Text) (enc : Bytes), encodeName name [] = .ok enc →
      (∀ out, encodeName name out = .ok (out ++ enc)) ∧
      ∀ pre post, readName (pre ++ enc ++ post) pre.length =
        .ok (.ok (if (stripped name).isEmpty then ['.'] else stripped name,
          pre.length + enc.length))) ∧
    ∀ (name name' : Text) (enc enc' : Bytes), encodeName name [] = .ok enc →
      encodeName name' [] = .ok enc' → (enc = enc' ↔ stripped name = stripped name') := by
  refine ⟨fun name enc h => ⟨fun out => ?_, readName_encodeName h⟩,
    fun name name' enc enc' h h' => ?_⟩
  · rw [encodeName_append, h]
    rfl
  · constructor
    · rintro rfl
      have hread := readName_encodeName h [] []
      rw [readName_encodeName h' [] []] at hread
      simp only [Except.ok.injEq, Prod.mk.injEq, and_true] at hread
      exact shownName_inj hread.symm
    · intro hs
      have hlabels : labelsOf name = labelsOf name' := by
        change (if (stripped name).isEmpty then [] else ((stripped name).splitOn '.').map utf8) = _
        rw [hs]
        rfl
      rw [(encodeName_eq h).1, (encodeName_eq h').1, hlabels]

/-- A name in white space, with a dot at its end, and without. -/
theorem encodeName_round_trip_dotted :
    readName [7, 2, 0x61, 0x62, 1, 0x63, 0, 9] 1 = .ok (.ok (lit "ab.c", 7)) ∧
      (([2, 0x61, 0x62, 1, 0x63, 0] : Bytes) = [2, 0x61, 0x62, 1, 0x63, 0] ↔
        stripped (lit " ab.c.\t") = stripped (lit "ab.c")) := by
  have h : encodeName (lit " ab.c.\t") [] = .ok [2, 0x61, 0x62, 1, 0x63, 0] := by decide +kernel
  have h' : encodeName (lit "ab.c") [] = .ok [2, 0x61, 0x62, 1, 0x63, 0] := by decide +kernel
  exact ⟨(encodeName_round_trip.1 _ _ h).2 [7] [9], encodeName_round_trip.2 _ _ _ _ h h'⟩

end Tunnel.Probe
