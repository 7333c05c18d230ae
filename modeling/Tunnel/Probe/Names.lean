import Tunnel.Probe.Wire

/-!
# Probe — What a name is

`NameAt`: a name at an offset of a message, as its labels with the compression pointers resolved, and
the offset past it in its original position.  It is the meaning of what `read_name` decodes, and says
nothing of text.

* `NameAt.unique`: at most one name is at an offset.  `NameAt.bounds`: the offset past it is ahead, and
  in the message or at its end.
* `turnAt`, `readNameFrom_succ`: what a turn of the loop finds, and what it does with it.
* `returns_readName`: the loop ends, wherever the pointers lead.
* `readName_nameAt`: what is read is the name, written out with dots (`render`); `render_eq_dotted`:
  the text label by label.
-/

namespace Tunnel.Probe
open Support Text

inductive NameAt (buf : Bytes) : ℕ → List Bytes → ℕ → Prop where
  | root {pos : ℕ} (h : buf[pos]? = some 0) : NameAt buf pos [] (pos + 1)
  | label {pos next : ℕ} {len : UInt8} {label : Bytes} {labels : List Bytes}
      (h : buf[pos]? = some len) (hkind : len &&& 0xc0 = 0x00) (hlen : len ≠ 0)
      (hlabel : getRange buf (pos + 1) (pos + 1 + len.toNat) = some label)
      (rest : NameAt buf (pos + 1 + len.toNat) labels next) :
      NameAt buf pos (label :: labels) next
  | pointer {pos next : ℕ} {hi lo : UInt8} {labels : List Bytes}
      (h : buf[pos]? = some hi) (hkind : hi &&& 0xc0 = 0xc0) (hlo : buf[pos + 1]? = some lo)
      (target : NameAt buf (pointerOf hi lo) labels next) : NameAt buf pos labels (pos + 2)

variable {buf : Bytes} {pos next : ℕ} {labels : List Bytes}

theorem length_of_getRange {α : Type} {xs ys : List α} {i j : ℕ} (h : getRange xs i j = some ys) :
    i ≤ j ∧ j ≤ xs.length ∧ ys.length = j - i := by
  unfold getRange at h
  split at h
  · next hij =>
      cases h
      refine ⟨hij.1, hij.2, ?_⟩
      rw [List.length_take, List.length_drop]
      omega
  · cases h

namespace NameAt

/-- At most one name is at an offset. -/
theorem unique {labels' : List Bytes} {next' : ℕ} (h : NameAt buf pos labels next)
    (h' : NameAt buf pos labels' next') : labels = labels' ∧ next = next' := by
  induction h generalizing labels' next' with
  | root hb =>
      cases h' with
      | root => exact ⟨rfl, rfl⟩
      | label hb' _ hne => rw [hb] at hb'; cases hb'; exact absurd rfl hne
      | pointer hb' hk => rw [hb] at hb'; cases hb'; exact absurd hk (by decide)
  | label hb hk hne hl _ ih =>
      cases h' with
      | root hb' => rw [hb] at hb'; cases hb'; exact absurd rfl hne
      | label hb' _ _ hl' rest' =>
          rw [hb] at hb'
          cases hb'
          rw [hl] at hl'
          cases hl'
          obtain ⟨rfl, rfl⟩ := ih rest'
          exact ⟨rfl, rfl⟩
      | pointer hb' hk' =>
          rw [hb] at hb'
          cases hb'
          rw [hk] at hk'
          exact absurd hk' (by decide)
  | pointer hb hk hlo _ ih =>
      cases h' with
      | root hb' => rw [hb] at hb'; cases hb'; exact absurd hk (by decide)
      | label hb' hk' =>
          rw [hb] at hb'
          cases hb'
          rw [hk] at hk'
          exact absurd hk' (by decide)
      | pointer hb' _ hlo' target' =>
          rw [hb] at hb'
          cases hb'
          rw [hlo] at hlo'
          cases hlo'
          exact ⟨(ih target').1, rfl⟩

/-- The offset past a name is ahead, and in the message or at its end. -/
theorem bounds (h : NameAt buf pos labels next) : pos < next ∧ next ≤ buf.length := by
  induction h with
  | root hb =>
      obtain ⟨hlt, -⟩ := List.getElem?_eq_some_iff.mp hb
      exact ⟨Nat.lt_succ_self _, hlt⟩
  | label _ _ _ _ _ ih => exact ⟨by omega, ih.2⟩
  | pointer _ _ hlo =>
      obtain ⟨hlt, -⟩ := List.getElem?_eq_some_iff.mp hlo
      exact ⟨by omega, hlt⟩

theorem ne_nil (h : NameAt buf pos labels next) : ∀ l ∈ labels, l ≠ [] := by
  induction h with
  | root => simp
  | label _ _ hlen hlabel _ ih =>
      intro l hl
      rcases List.mem_cons.mp hl with rfl | hl
      · rintro rfl
        have hlength := (length_of_getRange hlabel).2.2
        rw [List.length_nil] at hlength
        exact hlen (UInt8.toNat_inj.mp (by rw [UInt8.toNat_zero]; omega))
      · exact ih l hl
  | pointer _ _ _ _ ih => exact ih

end NameAt

/-! ### One turn of the loop -/

/-- A label joins the text of a name. -/
def addLabel (out : Text) (label : Bytes) : Text :=
  pushEscaped (if out.isEmpty then out else out ++ ['.']) label

/-- What a turn of the loop finds. -/
inductive Turn where
  | root
  | label (label : Bytes)
  | pointer (target : ℕ)
  | fail (e : Text)

def turnAt (buf : Bytes) (pos : ℕ) : Turn :=
  match buf[pos]? with
  | none => .fail (lit "truncated name")
  | some len =>
    if len &&& 0xc0 = 0x00 then
      if len = 0 then .root
      else match getRange buf (pos + 1) (pos + 1 + len.toNat) with
        | none => .fail (lit "truncated label")
        | some label => .label label
    else if len &&& 0xc0 = 0xc0 then
      match buf[pos + 1]? with
      | none => .fail (lit "truncated compression pointer")
      | some lo => .pointer (pointerOf len lo)
    else .fail (lit "reserved label type in name")

/-- One turn, and the others. -/
theorem readNameFrom_succ (buf : Bytes) (fuel : ℕ) (out : Text) (pos jumps : ℕ)
    (resume : Option ℕ) :
    readNameFrom buf (fuel + 1) out pos jumps resume =
      match turnAt buf pos with
      | .root => .ok (.ok (if out.isEmpty then ['.'] else out, resume.getD (pos + 1)))
      | .label label =>
        if 255 < (addLabel out label).len then .ok (.error (lit "name longer than 255 bytes"))
        else readNameFrom buf fuel (addLabel out label) (pos + 1 + label.length) jumps resume
      | .pointer target =>
        if MAX_NAME_JUMPS < jumps + 1 then .ok (.error (lit "compression pointer loop"))
        else if buf.length ≤ target then
          .ok (.error (lit "compression pointer past end of message"))
        else readNameFrom buf fuel out target (jumps + 1) (some (resume.getD (pos + 2)))
      | .fail e => .ok (.error e) := by
  rw [readNameFrom, turnAt]
  cases buf[pos]? with
  | none => rfl
  | some len =>
      dsimp only
      by_cases hlabel : len &&& 0xc0 = 0x00
      · rw [if_pos hlabel, if_pos hlabel]
        by_cases hz : len = 0
        · rw [if_pos hz, if_pos hz]
          rfl
        · rw [if_neg hz, if_neg hz]
          cases hl : getRange buf (pos + 1) (pos + 1 + len.toNat) with
          | none => rfl
          | some label =>
              have hlen : label.length = len.toNat := by
                have := (length_of_getRange hl).2.2
                omega
              dsimp only
              rw [hlen]
              rfl
      · rw [if_neg hlabel, if_neg hlabel]
        by_cases hpointer : len &&& 0xc0 = 0xc0
        · rw [if_pos hpointer, if_pos hpointer]
          cases buf[pos + 1]? with
          | none => rfl
          | some lo => rfl
        · rw [if_neg hpointer, if_neg hpointer]
          rfl

/-- What is found, from the bytes. -/
theorem turnAt_of_label {len : UInt8} {label : Bytes} (hb : buf[pos]? = some len)
    (hkind : len &&& 0xc0 = 0x00) (hlen : len ≠ 0)
    (hlabel : getRange buf (pos + 1) (pos + 1 + len.toNat) = some label) :
    turnAt buf pos = .label label := by
  rw [turnAt, hb]
  dsimp only
  rw [if_pos hkind, if_neg hlen, hlabel]

/-- And the bytes, from what is found. -/
theorem root_of_turnAt (h : turnAt buf pos = .root) : buf[pos]? = some 0 := by
  unfold turnAt at h
  split at h
  · cases h
  · next len hb =>
      split_ifs at h with hkind hz hpointer
      · rw [hb, hz]
      · split at h <;> cases h
      · split at h <;> cases h

theorem label_of_turnAt {label : Bytes} (h : turnAt buf pos = .label label) :
    ∃ len : UInt8, buf[pos]? = some len ∧ len &&& 0xc0 = 0x00 ∧ len ≠ 0 ∧
      getRange buf (pos + 1) (pos + 1 + len.toNat) = some label := by
  unfold turnAt at h
  split at h
  · cases h
  · next len hb =>
      split_ifs at h with hkind hz hpointer
      · split at h
        · cases h
        · next l hl =>
            cases h
            exact ⟨len, hb, hkind, hz, hl⟩
      · split at h <;> cases h

theorem pointer_of_turnAt {target : ℕ} (h : turnAt buf pos = .pointer target) :
    ∃ hi lo : UInt8, buf[pos]? = some hi ∧ hi &&& 0xc0 = 0xc0 ∧ buf[pos + 1]? = some lo ∧
      target = pointerOf hi lo := by
  unfold turnAt at h
  split at h
  · cases h
  · next hi hb =>
      split_ifs at h with hkind hz hpointer
      · split at h <;> cases h
      · split at h
        · cases h
        · next lo hlo =>
            cases h
            exact ⟨hi, lo, hb, hpointer, hlo, rfl⟩

/-- The errors a turn can end with, before any limit is checked. -/
theorem fail_of_turnAt {e : Text} (h : turnAt buf pos = .fail e) :
    e ∈ [lit "truncated name", lit "truncated label", lit "truncated compression pointer",
      lit "reserved label type in name"] := by
  unfold turnAt at h
  split at h
  · cases h
    simp
  · split_ifs at h
    · split at h <;> cases h
      simp
    · split at h <;> cases h
      simp
    · cases h
      simp

/-! ### The loop ends -/

/-- Between two jumps the position only grows, and there are few jumps. -/
theorem returns_readNameFrom {fuel jumps : ℕ} (out : Text) (resume : Option ℕ)
    (hfuel : (MAX_NAME_JUMPS + 1 - jumps) * (buf.length + 1) + (buf.length - pos) < fuel) :
    Returns (readNameFrom buf fuel out pos jumps resume) := by
  induction fuel generalizing out pos jumps resume with
  | zero => cases hfuel
  | succ fuel ih =>
      rw [readNameFrom_succ]
      cases ht : turnAt buf pos with
      | root | fail e => exact .ok _
      | label label =>
          obtain ⟨len, hb, -, hlen, hl⟩ := label_of_turnAt ht
          obtain ⟨hpos, -⟩ := List.getElem?_eq_some_iff.mp hb
          exact .ite (fun _ => .ok _) fun _ => ih _ _ (by omega)
      | pointer target =>
          refine .ite (fun _ => .ok _) fun hj => .ite (fun _ => .ok _) fun _ => ih _ _ ?_
          -- a jump pays for a whole pass over the message
          obtain ⟨d, hd⟩ : ∃ d, MAX_NAME_JUMPS + 1 - jumps = d + 1 :=
            Nat.exists_eq_succ_of_ne_zero (by omega)
          rw [hd, Nat.succ_mul] at hfuel
          rw [show MAX_NAME_JUMPS + 1 - (jumps + 1) = d by omega]
          omega

/-- Whatever the bytes, and wherever the pointers lead, a name is read or refused. -/
theorem returns_readName (buf : Bytes) (start : ℕ) : Returns (readName buf start) := by
  refine returns_readNameFrom _ _ ?_
  rw [Nat.sub_zero, Nat.succ_mul (MAX_NAME_JUMPS + 1)]
  omega

/-! ### What is read -/

/-- The text of a name. -/
def render (labels : List Bytes) : Text :=
  let out := labels.foldl addLabel []
  if out.isEmpty then ['.'] else out

/-- The text of labels: each escaped, with dots between; a dot for none. -/
def dotted (labels : List Bytes) : Text :=
  if labels.isEmpty then ['.'] else ['.'].intercalate (labels.map (pushEscaped []))

theorem flatMap_escape_ne_nil {label : Bytes} (h : label ≠ []) : label.flatMap escape ≠ [] := by
  cases label with
  | nil => exact absurd rfl h
  | cons b label =>
      have hb : escape b ≠ [] := by
        unfold escape
        split_ifs <;> simp
      simp [hb]

/-- Labels join a text there is. -/
theorem foldl_addLabel_eq {out : Text} {labels : List Bytes} (hout : out ≠ []) :
    labels.foldl addLabel out = ['.'].intercalate (out :: labels.map (·.flatMap escape)) := by
  induction labels generalizing out with
  | nil => simp
  | cons l labels ih =>
      have hadd : addLabel out l = out ++ '.' :: l.flatMap escape := by
        simp [addLabel, pushEscaped, hout]
      rw [List.foldl_cons, hadd, ih (by simp), List.map_cons]
      cases labels with
      | nil => simp
      | cons l' labels => simp [List.intercalate_cons_cons]

theorem foldl_addLabel_cons {label : Bytes} {labels : List Bytes} (h : label ≠ []) :
    (label :: labels).foldl addLabel [] =
      ['.'].intercalate ((label :: labels).map (·.flatMap escape)) := by
  simpa [addLabel, pushEscaped] using @foldl_addLabel_eq _ labels (flatMap_escape_ne_nil h)

theorem foldl_addLabel_ne_nil {label : Bytes} {labels : List Bytes} (h : label ≠ []) :
    ((label :: labels).foldl addLabel []).isEmpty = false := by
  rw [foldl_addLabel_cons h]
  cases labels with
  | nil => simpa using flatMap_escape_ne_nil h
  | cons l' labels => simp [List.intercalate_cons_cons]

theorem render_eq_dotted {labels : List Bytes} (h : ∀ l ∈ labels, l ≠ []) :
    render labels = dotted labels := by
  cases labels with
  | nil => rfl
  | cons l labels =>
      have hl := h l List.mem_cons_self
      rw [render, foldl_addLabel_ne_nil hl, foldl_addLabel_cons hl]
      rfl

theorem readNameFrom_nameAt {fuel jumps : ℕ} {out text : Text} {resume : Option ℕ}
    (h : readNameFrom buf fuel out pos jumps resume = .ok (.ok (text, next))) :
    ∃ labels past, NameAt buf pos labels past ∧ next = resume.getD past ∧
      text = if (labels.foldl addLabel out).isEmpty then ['.'] else labels.foldl addLabel out := by
  induction fuel generalizing out pos jumps resume with
  | zero => cases h
  | succ fuel ih =>
      rw [readNameFrom_succ] at h
      cases ht : turnAt buf pos with
      | fail e => rw [ht] at h; cases h
      | root =>
          rw [ht] at h
          cases h
          exact ⟨[], pos + 1, .root (root_of_turnAt ht), rfl, rfl⟩
      | label label =>
          obtain ⟨len, hb, hkind, hlen, hl⟩ := label_of_turnAt ht
          have hlength := (length_of_getRange hl).2.2
          rw [Nat.add_sub_cancel_left] at hlength
          rw [ht] at h
          dsimp only at h
          rw [hlength] at h
          split at h
          · cases h
          · obtain ⟨labels, past, hn, hnext, htext⟩ := ih h
            exact ⟨label :: labels, past, .label hb hkind hlen hl hn, hnext, htext⟩
      | pointer target =>
          -- the name goes on elsewhere, and is passed by the two octets of the pointer
          obtain ⟨hi, lo, hb, hkind, hlo, rfl⟩ := pointer_of_turnAt ht
          rw [ht] at h
          dsimp only at h
          split at h
          · cases h
          · split at h
            · cases h
            · obtain ⟨labels, past, hn, hnext, htext⟩ := ih h
              exact ⟨labels, pos + 2, .pointer hb hkind hlo hn, hnext, htext⟩

/-- What is read is the name at the offset, and the offset past it. -/
theorem readName_nameAt {text : Text} (h : readName buf pos = .ok (.ok (text, next))) :
    ∃ labels, NameAt buf pos labels next ∧ text = render labels := by
  obtain ⟨labels, past, hn, rfl, htext⟩ := readNameFrom_nameAt h
  exact ⟨labels, hn, htext⟩

end Tunnel.Probe
