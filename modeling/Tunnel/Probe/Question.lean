import Tunnel.Probe.Response

/-!
# Probe — Whose answer it is

What it is for a response to answer a query (`Answers`): the ID, the reply bit, and a first question
of the same labels, type and class.  `parse_response` compares names as text, where a dot byte of a
label looks like the dot between two, and compares none where the question count is zero.

* `foldCase_eq_of_render`: labels without a dot byte are told apart by their text.
* `answers_iff`: an accepted response is an answer exactly where its first question is there and its
  labels have no dot byte.
-/

namespace Tunnel.Probe
open Support Text

/-- `b.to_ascii_lowercase()`. -/
def toAsciiLowercase (b : UInt8) : UInt8 := if 0x41 ≤ b ∧ b ≤ 0x5a then b + 0x20 else b

/-- Labels as compared, ignoring ASCII case. -/
def foldCase (labels : List Bytes) : List Bytes := labels.map (·.map toAsciiLowercase)

/-- `msg` answers the query for `name`. -/
structure Answers (id : UInt16) (name : Text) (qtype : UInt16) (msg : Bytes) : Prop where
  id_eq : word msg 0 = id
  reply : word msg 2 &&& 0x8000 ≠ 0
  asked : 1 ≤ (word msg 4).toNat
  question : ∃ labels next, NameAt msg 12 labels next ∧ next + 4 ≤ msg.length ∧
    foldCase labels = foldCase (labelsOf name) ∧ word msg next = qtype ∧ word msg (next + 2) = 1

/-- The first question is there, and its labels have no dot byte. -/
structure Unambiguous (msg : Bytes) : Prop where
  asked : 1 ≤ (word msg 4).toNat
  dotless : ∀ labels next, NameAt msg 12 labels next → ∀ l ∈ labels, 0x2e ∉ l

/-! ### The text of a label -/

/-- The text of a label, as compared. -/
def labelText (label : Bytes) : Text := (label.flatMap escape).map Char.toLower

@[simp] theorem labelText_cons (b : UInt8) (label : Bytes) :
    labelText (b :: label) = (escape b).map Char.toLower ++ labelText label := by
  simp [labelText]

theorem escape_ne_nil : ∀ b, (escape b).map Char.toLower ≠ [] :=
  forall_byte (by decide +kernel)

theorem dot_notMem_escape : ∀ b, b ≠ 0x2e → '.' ∉ (escape b).map Char.toLower :=
  forall_byte (by decide +kernel)

/-- A byte is written as itself, or with a backslash. -/
theorem escape_cases : ∀ b, (escape b).head? = some '\\' ∨
    escape b = [Char.ofNat b.toNat] ∧
      (Char.ofNat b.toNat).toLower.toNat = (toAsciiLowercase b).toNat :=
  forall_byte (by decide +kernel)

/-- A byte of a label is not a backslash. -/
theorem lower_of_isLabelByte : ∀ b, isLabelByte b = true →
    escape b = [Char.ofNat b.toNat] ∧
      (Char.ofNat b.toNat).toLower.toNat = (toAsciiLowercase b).toNat ∧
      (Char.ofNat b.toNat).toLower ≠ '\\' ∧ toAsciiLowercase b ≠ 0x2e :=
  forall_byte (by decide +kernel)

theorem labelText_ne_nil {label : Bytes} (h : label ≠ []) : labelText label ≠ [] := by
  cases label with
  | nil => exact absurd rfl h
  | cons b label => simp [escape_ne_nil b]

theorem dot_notMem_labelText {label : Bytes} (h : 0x2e ∉ label) : '.' ∉ labelText label := by
  induction label with
  | nil => simp [labelText]
  | cons b label ih =>
      simp only [List.mem_cons, not_or] at h
      rw [labelText_cons, List.mem_append, not_or]
      exact ⟨dot_notMem_escape b (Ne.symm h.1), ih h.2⟩

/-- The bytes of a label that can be asked for are told apart by their text. -/
theorem map_lower_eq_of_labelText {label label' : Bytes}
    (hplain : ∀ b ∈ label', isLabelByte b = true) (h : labelText label = labelText label') :
    label.map toAsciiLowercase = label'.map toAsciiLowercase := by
  induction label generalizing label' with
  | nil =>
      by_cases hn : label' = []
      · rw [hn]
      · exact absurd h.symm (labelText_ne_nil hn)
  | cons b label ih =>
      cases label' with
      | nil => exact absurd h (labelText_ne_nil (List.cons_ne_nil b label))
      | cons c label' =>
          obtain ⟨hc, hcl, hback, -⟩ := lower_of_isLabelByte c (hplain c (by simp))
          rw [labelText_cons, labelText_cons, hc] at h
          rcases escape_cases b with hb | ⟨hb, hbl⟩
          · -- an escape starts with a backslash, which no label that can be asked for has
            cases he : escape b with
            | nil => rw [he] at hb; cases hb
            | cons d t =>
                rw [he] at hb h
                cases hb
                simp only [List.map_cons, List.cons_append, List.cons.injEq] at h
                exact absurd h.1.symm hback
          · rw [hb] at h
            simp only [List.map_cons, List.map_nil, List.cons_append, List.nil_append,
              List.cons.injEq] at h
            have hbc : toAsciiLowercase b = toAsciiLowercase c := by
              rw [← UInt8.toNat_inj, ← hbl, ← hcl, h.1]
            rw [List.map_cons, List.map_cons, hbc, ih (fun b hb => hplain b (by simp [hb])) h.2]

/-! ### The text of a name -/

theorem map_intercalate {α β : Type} (f : α → β) (sep : List α) (parts : List (List α)) :
    (sep.intercalate parts).map f = (sep.map f).intercalate (parts.map (·.map f)) := by
  induction parts with
  | nil => rfl
  | cons part parts ih =>
      cases parts with
      | nil => simp
      | cons part' parts => simpa [List.intercalate_cons_cons] using ih

/-- The text of a name that has labels, as compared. -/
theorem lower_render {label : Bytes} {labels : List Bytes} (h : label ≠ []) :
    (render (label :: labels)).map Char.toLower =
      ['.'].intercalate ((label :: labels).map labelText) := by
  rw [render, foldl_addLabel_ne_nil h, foldl_addLabel_cons h, if_neg Bool.false_ne_true,
    map_intercalate, List.map_map]
  rfl

/-- The labels of a name are the parts of its text.  The root has the text of two empty labels. -/
theorem splitOn_render {labels : List Bytes} (hne : ∀ l ∈ labels, l ≠ [])
    (hdot : ∀ l ∈ labels, 0x2e ∉ l) :
    ((render labels).map Char.toLower).splitOn '.' =
      if labels = [] then [[], []] else labels.map labelText := by
  cases labels with
  | nil => decide
  | cons label labels =>
      rw [if_neg (List.cons_ne_nil label labels), lower_render (hne label (by simp))]
      refine List.splitOn_intercalate '.' ?_ (by simp)
      intro part hpart
      obtain ⟨l, hl, rfl⟩ := List.mem_map.mp hpart
      exact dot_notMem_labelText (hdot l hl)

theorem map_labelText_ne_root {labels : List Bytes} (hne : ∀ l ∈ labels, l ≠ []) :
    labels.map labelText ≠ [[], []] := by
  intro h
  obtain ⟨l, hl, htext⟩ := List.mem_map.mp (h ▸ List.mem_cons_self : [] ∈ labels.map labelText)
  exact labelText_ne_nil (hne l hl) htext

theorem foldCase_eq_of_labelText {labels labels' : List Bytes} (hplain : ∀ l ∈ labels', Plain l)
    (h : labels.map labelText = labels'.map labelText) : foldCase labels = foldCase labels' := by
  induction labels generalizing labels' with
  | nil =>
      cases labels' with
      | nil => rfl
      | cons l' labels' => cases h
  | cons l labels ih =>
      cases labels' with
      | nil => cases h
      | cons l' labels' =>
          simp only [List.map_cons, List.cons.injEq] at h
          have hl := map_lower_eq_of_labelText (hplain l' (by simp)).bytes h.1
          have hrest := ih (fun l hl => hplain l (by simp [hl])) h.2
          simp only [foldCase, List.map_cons] at hrest ⊢
          rw [hl, hrest]

/-- Labels without a dot byte are told apart by their text. -/
theorem foldCase_eq_of_render {labels labels' : List Bytes} (hne : ∀ l ∈ labels, l ≠ [])
    (hdot : ∀ l ∈ labels, 0x2e ∉ l) (hplain : ∀ l ∈ labels', Plain l)
    (h : eqIgnoreAsciiCase (render labels) (render labels') = true) :
    foldCase labels = foldCase labels' := by
  have hne' : ∀ l ∈ labels', l ≠ [] := fun l hl => (hplain l hl).ne_nil
  have hdot' : ∀ l ∈ labels', 0x2e ∉ l := by
    intro l hl hmem
    exact absurd ((hplain l hl).bytes 0x2e hmem) (by decide)
  have hsplit := congrArg (List.splitOn '.') (eq_of_beq h)
  rw [splitOn_render hne hdot, splitOn_render hne' hdot'] at hsplit
  by_cases hnil : labels = []
  · by_cases hnil' : labels' = []
    · rw [hnil, hnil']
    · rw [if_pos hnil, if_neg hnil'] at hsplit
      exact absurd hsplit.symm (map_labelText_ne_root hne')
  · by_cases hnil' : labels' = []
    · rw [if_neg hnil, if_pos hnil'] at hsplit
      exact absurd hsplit (map_labelText_ne_root hne)
    · rw [if_neg hnil, if_neg hnil'] at hsplit
      exact foldCase_eq_of_labelText hplain hsplit

/-! ### What is checked -/

theorem readU16_eq {buf : Bytes} {pos : ℕ} {w : UInt16} (h : readU16 buf pos = .ok (.ok w)) :
    pos + 2 ≤ buf.length ∧ word buf pos = w := by
  unfold readU16 getRange at h
  split at h
  · next b hb =>
      split at hb
      · next hle =>
          cases hb
          rw [wordAt_eq (by simp; omega)] at h
          cases h
          refine ⟨hle.2, ?_⟩
          simp [word]
      · cases hb
  · cases h

/-- The first question, as it was read, and the question it was compared with. -/
theorem readQuestions_eq {msg query : Bytes} {n pos : ℕ}
    (h : readQuestions msg query (n + 1) 0 12 = .ok (.ok pos)) :
    ∃ name next want wantNext qtype, readName msg 12 = .ok (.ok (name, next)) ∧
      readU16 msg next = .ok (.ok qtype) ∧ readU16 msg (next + 2) = .ok (.ok 1) ∧
      readName query 12 = .ok (.ok (want, wantNext)) ∧
      readU16 query wantNext = .ok (.ok qtype) ∧ eqIgnoreAsciiCase name want = true := by
  rw [readQuestions] at h
  obtain ⟨r, hname, h⟩ := bind_eq_ok.mp h
  cases r with
  | error e => cases h
  | ok r =>
  obtain ⟨name, next⟩ := r
  obtain ⟨r, htype, h⟩ := bind_eq_ok.mp h
  cases r with
  | error e => cases h
  | ok qtype =>
  obtain ⟨r, hclass, h⟩ := bind_eq_ok.mp h
  cases r with
  | error e => cases h
  | ok qclass =>
  dsimp only at h
  rw [if_pos rfl] at h
  obtain ⟨r, hcheck, h⟩ := bind_eq_ok.mp h
  cases r with
  | error e => cases h
  | ok u =>
  unfold checkQuestion at hcheck
  obtain ⟨r, hwant, hcheck⟩ := bind_eq_ok.mp hcheck
  cases r with
  | error e => cases hcheck
  | ok r =>
  obtain ⟨want, wantNext⟩ := r
  obtain ⟨r, hwtype, hcheck⟩ := bind_eq_ok.mp hcheck
  cases r with
  | error e => cases hcheck
  | ok wantType =>
  dsimp only at hcheck
  split at hcheck
  · cases hcheck
  · next hsame =>
      simp only [not_or, Bool.not_eq_false, ne_eq, not_not] at hsame
      obtain ⟨hsame, rfl, rfl⟩ := hsame
      exact ⟨name, next, want, wantNext, qtype, hname, htype, hclass, hwant, hwtype, hsame⟩

/-- What an accepted response has. -/
theorem parseResponse_eq {msg query : Bytes} {parsed : Parsed} (hq : 2 ≤ query.length)
    (h : parseResponse msg query = .ok (.ok parsed)) :
    word msg 0 = word query 0 ∧ word msg 2 &&& 0x8000 ≠ 0 ∧
      ∃ pos, readQuestions msg query (word msg 4).toNat 0 12 = .ok (.ok pos) := by
  unfold parseResponse at h
  split at h
  · cases h
  next hlen =>
  rw [wordAt_eq (by omega), wordAt_eq hq, ok_bind, ok_bind] at h
  split at h
  · cases h
  next hid =>
  rw [wordAt_eq (by omega), ok_bind] at h
  split at h
  · cases h
  next hqr =>
  rw [wordAt_eq (by omega), wordAt_eq (by omega), ok_bind, ok_bind] at h
  obtain ⟨r, hread, h⟩ := bind_eq_ok.mp h
  cases r with
  | error e => cases h
  | ok pos => exact ⟨not_not.mp hid, hqr, pos, hread⟩

/-! ### An accepted response -/

/-- The question of a query, as `read_name` and `read_u16` find it. -/
theorem question_of_query {id qtype wantType : UInt16} {name want : Text} {query : Bytes} {wantNext : ℕ}
    (hq : buildQuery id name qtype = .ok query)
    (hname : readName query 12 = .ok (.ok (want, wantNext)))
    (htype : readU16 query wantNext = .ok (.ok wantType)) :
    want = render (labelsOf name) ∧ wantType = qtype := by
  obtain ⟨rfl, hlen, hplain⟩ := buildQuery_eq hq
  have hwire := readName_wire (queryHeader id) (beBytes qtype ++ [0, 1]) hplain hlen
  have hquery : queryHeader id ++ (wireLabels (labelsOf name) ++ [0]) ++ (beBytes qtype ++ [0, 1]) =
      queryHeader id ++ (wireLabels (labelsOf name) ++ 0 :: (beBytes qtype ++ [0, 1])) := by
    simp
  rw [hquery] at hname
  rw [show (queryHeader id).length = 12 from rfl, hname] at hwire
  cases hwire
  obtain ⟨-, rfl⟩ := readU16_eq htype
  refine ⟨rfl, ?_⟩
  have hsplit : queryHeader id ++ (wireLabels (labelsOf name) ++ [0]) ++ (beBytes qtype ++ [0, 1]) =
      (queryHeader id ++ (wireLabels (labelsOf name) ++ [0])) ++ (beBytes qtype ++ [0, 1]) := rfl
  have hpre : (queryHeader id ++ (wireLabels (labelsOf name) ++ [0])).length =
      12 + (wireLabels (labelsOf name)).length + 1 := by
    simp [queryHeader]
    omega
  rw [hsplit, ← hpre, ← Nat.add_zero (List.length _), ← word_drop, List.drop_left]
  exact be16_beBytes qtype

/-- What the first question of an accepted response has in common with the query's: the record, the class
and the name, as text. -/
theorem question_repeated {id qtype : UInt16} {name : Text} {msg query : Bytes} {n pos : ℕ}
    (hq : buildQuery id name qtype = .ok query)
    (h : readQuestions msg query (n + 1) 0 12 = .ok (.ok pos)) :
    ∃ labels next, NameAt msg 12 labels next ∧ next + 4 ≤ msg.length ∧ word msg next = qtype ∧
      word msg (next + 2) = 1 ∧
      eqIgnoreAsciiCase (render labels) (render (labelsOf name)) = true := by
  obtain ⟨text, next, want, wantNext, wantType, htext, htype, hclass, hwant, hwtype, hsame⟩ :=
    readQuestions_eq h
  obtain ⟨rfl, rfl⟩ := question_of_query hq hwant hwtype
  obtain ⟨labels, hat, rfl⟩ := readName_nameAt htext
  obtain ⟨-, hwordt⟩ := readU16_eq htype
  obtain ⟨hle, hwordc⟩ := readU16_eq hclass
  exact ⟨labels, next, hat, hle, hwordt, hwordc, hsame⟩

/-- **An accepted response answers the query** exactly where its first question is there and has no dot
byte in a label. -/
theorem answers_iff {id qtype : UInt16} {name : Text} {msg query : Bytes} {parsed : Parsed}
    (hq : buildQuery id name qtype = .ok query)
    (h : parseResponse msg query = .ok (.ok parsed)) :
    Answers id name qtype msg ↔ Unambiguous msg := by
  obtain ⟨hquery, -, hplain⟩ := buildQuery_eq hq
  have hlen : 2 ≤ query.length := by
    rw [hquery]
    simp [queryHeader]
  have hqid : word query 0 = id := by
    rw [hquery]
    exact be16_beBytes id
  obtain ⟨hid, hqr, pos, hread⟩ := parseResponse_eq hlen h
  constructor
  · rintro ⟨-, -, hasked, labels, next, hn, -, hfold, -⟩
    refine ⟨hasked, fun labels' next' hn' l hl hdot => ?_⟩
    obtain ⟨rfl, -⟩ := hn.unique hn'
    -- the dot byte is one of the name asked for, in either case
    have hmem : l.map toAsciiLowercase ∈ foldCase (labelsOf name) :=
      hfold ▸ List.mem_map_of_mem hl
    obtain ⟨m, hm, hml⟩ := List.mem_map.mp hmem
    have hdot' : 0x2e ∈ m.map toAsciiLowercase := hml ▸ List.mem_map_of_mem hdot
    obtain ⟨b, hb, hbdot⟩ := List.mem_map.mp hdot'
    exact (lower_of_isLabelByte b ((hplain m hm).bytes b hb)).2.2.2 hbdot
  · rintro ⟨hasked, hdotless⟩
    obtain ⟨n, hn⟩ := Nat.exists_eq_add_of_le' hasked
    rw [hn] at hread
    obtain ⟨labels, next, hat, hle, hwordt, hwordc, hsame⟩ := question_repeated hq hread
    have hfold := foldCase_eq_of_render hat.ne_nil (hdotless labels next hat) hplain hsame
    exact ⟨hid.trans hqid, hqr, hasked, labels, next, hat, hle, hfold, hwordt, hwordc⟩

/-- The reply to a query for `a.b`. -/
theorem answers_iff_echo :
    Answers 7 (lit "a.b") 1
        [0, 7, 0x80, 0, 0, 1, 0, 0, 0, 0, 0, 0, 1, 0x41, 1, 0x42, 0, 0, 1, 0, 1] ↔
      Unambiguous [0, 7, 0x80, 0, 0, 1, 0, 0, 0, 0, 0, 0, 1, 0x41, 1, 0x42, 0, 0, 1, 0, 1] := by
  have hq : buildQuery 7 (lit "a.b") 1 =
      .ok [0, 7, 1, 0, 0, 1, 0, 0, 0, 0, 0, 0, 1, 0x61, 1, 0x62, 0, 0, 1, 0, 1] := by decide +kernel
  have h : parseResponse [0, 7, 0x80, 0, 0, 1, 0, 0, 0, 0, 0, 0, 1, 0x41, 1, 0x42, 0, 0, 1, 0, 1]
      [0, 7, 1, 0, 0, 1, 0, 0, 0, 0, 0, 0, 1, 0x61, 1, 0x62, 0, 0, 1, 0, 1] =
        .ok (.ok ⟨lit "NOERROR", false, [], false⟩) := by decide +kernel
  exact answers_iff hq h

/-- A header without a question, and a question with the one label `a.b`, are accepted as replies to a
query for `a.b`. -/
theorem not_answers_accepted :
    ∃ query parsed, buildQuery 7 (lit "a.b") 1 = .ok query ∧
      (parseResponse [0, 7, 0x80, 0, 0, 0, 0, 0, 0, 0, 0, 0] query = .ok (.ok parsed) ∧
        ¬ Answers 7 (lit "a.b") 1 [0, 7, 0x80, 0, 0, 0, 0, 0, 0, 0, 0, 0]) ∧
      parseResponse [0, 7, 0x80, 0, 0, 1, 0, 0, 0, 0, 0, 0, 3, 0x61, 0x2e, 0x62, 0, 0, 1, 0, 1]
        query = .ok (.ok parsed) ∧
      ¬ Answers 7 (lit "a.b") 1
        [0, 7, 0x80, 0, 0, 1, 0, 0, 0, 0, 0, 0, 3, 0x61, 0x2e, 0x62, 0, 0, 1, 0, 1] := by
  refine ⟨[0, 7, 1, 0, 0, 1, 0, 0, 0, 0, 0, 0, 1, 0x61, 1, 0x62, 0, 0, 1, 0, 1],
    ⟨lit "NOERROR", false, [], false⟩, by decide +kernel, ⟨by decide +kernel, ?_⟩,
    by decide +kernel, ?_⟩
  · rintro ⟨-, -, hasked, -⟩
    exact absurd hasked (by decide)
  · rintro ⟨-, -, -, labels, next, hn, -, hfold, -⟩
    have hat : NameAt [0, 7, 0x80, 0, 0, 1, 0, 0, 0, 0, 0, 0, 3, 0x61, 0x2e, 0x62, 0, 0, 1, 0, 1] 12
        [[0x61, 0x2e, 0x62]] 17 :=
      .label rfl rfl (by decide) rfl (.root rfl)
    obtain ⟨rfl, -⟩ := hn.unique hat
    exact absurd hfold (by decide +kernel)

end Tunnel.Probe
