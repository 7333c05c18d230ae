import Tunnel.Probe.Encoding
import Tunnel.Probe.Rdata

/-!
# Probe — Records read back

The reply that a server assembles from records: a header, the question and the records, each owner
written out.  However it is cut past the question, what is read of it are the records that are in it
whole, as many of them as are kept.

* `Record`: a record whose owner encodes and whose data fits its length field.  `reply`: the message.
* `Head`, `readAnswers_of_head`: the fields in front of a record's data, and what a turn of the loop
  does past them.
* `readAnswers_section`: the loop over a section that is cut somewhere.
* `records_decoded`: the law.
-/

namespace Tunnel.Probe
open Support Text

/-! ### Records on the wire -/

/-- `n.to_be_bytes()`. -/
def beBytes32 (n : UInt32) : Bytes :=
  beBytes (UInt16.ofNat (n.toNat / 65536)) ++ beBytes (UInt16.ofNat n.toNat)

@[simp] theorem length_beBytes32 (n : UInt32) : (beBytes32 n).length = 4 := rfl

structure Record where
  owner : Text
  /-- The owner on the wire. -/
  ownerWire : Bytes
  encodes : encodeName owner [] = .ok ownerWire
  kind : UInt16
  cls : UInt16
  ttl : UInt32
  rdata : Bytes
  rdata_le : rdata.length ≤ 65535

namespace Record

/-- The fields between the owner and the data. -/
def fields (r : Record) : Bytes :=
  beBytes r.kind ++ (beBytes r.cls ++ (beBytes32 r.ttl ++ beBytes (UInt16.ofNat r.rdata.length)))

def bytes (r : Record) : Bytes := r.ownerWire ++ (r.fields ++ r.rdata)

@[simp] theorem length_fields (r : Record) : r.fields.length = 10 := rfl

theorem length_bytes (r : Record) : r.bytes.length = r.ownerWire.length + 10 + r.rdata.length := by
  simp [bytes, Nat.add_assoc]

/-- What is shown of the record, whatever its data is rendered as. -/
def answer (r : Record) (data : Text) : Answer := ⟨shownName r.owner, typeName r.kind, r.ttl, data⟩

/-- An answer of the record's owner, type and TTL. -/
def Shown (r : Record) (a : Answer) : Prop :=
  a.name = shownName r.owner ∧ a.kind = typeName r.kind ∧ a.ttl = r.ttl

end Record

/-- A header of one question. -/
def replyHeader (id flags ancount nscount arcount : UInt16) : Bytes :=
  beBytes id ++ (beBytes flags ++ (beBytes 1 ++ (beBytes ancount ++ (beBytes nscount ++
    beBytes arcount))))

/-- The reply to a query: its ID, the flags, its question and the records, with any counts of the
sections past them. -/
def reply (id flags nscount arcount : UInt16) (question : Bytes) (records : List Record) : Bytes :=
  replyHeader id flags (UInt16.ofNat records.length) nscount arcount ++
    (question ++ records.flatMap Record.bytes)

/-- How many records are whole in the first `m` bytes of their section. -/
def contained : ℕ → List Record → ℕ
  | _, [] => 0
  | m, r :: rs => if r.bytes.length ≤ m then contained (m - r.bytes.length) rs + 1 else 0

/-! ### Fields read back -/

theorem readU16_append (pre post : Bytes) (v : UInt16) :
    readU16 (pre ++ (beBytes v ++ post)) pre.length = .ok (.ok v) := by
  have hrange := getRange_append pre (beBytes v) post
  rw [length_beBytes] at hrange
  rw [readU16, hrange]
  dsimp only
  rw [wordAt_eq (by rw [length_beBytes]), ok_bind]
  exact congrArg (fun w => Except.ok (Except.ok w)) (be16_beBytes v)

/-- `u32::from_be_bytes` undoes `u32::to_be_bytes`. -/
theorem be32_beBytes32 (n : UInt32) : be32 (word (beBytes32 n) 0) (word (beBytes32 n) 2) = n := by
  have hhi : word (beBytes32 n) 0 = UInt16.ofNat (n.toNat / 65536) := be16_beBytes _
  have hlo : word (beBytes32 n) 2 = UInt16.ofNat n.toNat := be16_beBytes _
  have hn := n.toNat_lt
  rw [hhi, hlo, be32]
  apply UInt32.toNat_inj.mp
  simp only [UInt16.toNat_ofNat', UInt32.toNat_ofNat']
  omega

theorem readU32_append (pre post : Bytes) (n : UInt32) :
    readU32 (pre ++ (beBytes32 n ++ post)) pre.length = .ok (.ok n) := by
  have hrange := getRange_append pre (beBytes32 n) post
  rw [length_beBytes32] at hrange
  rw [readU32, hrange]
  dsimp only
  rw [wordAt_eq (by rw [length_beBytes32]; omega), wordAt_eq (by rw [length_beBytes32]), ok_bind,
    ok_bind, be32_beBytes32]
  rfl

/-- The fields in front of a record's data, at an offset of a message. -/
structure Head (msg : Bytes) (pos : ℕ) (r : Record) : Prop where
  name : readName msg pos = .ok (.ok (shownName r.owner, pos + r.ownerWire.length))
  kind : readU16 msg (pos + r.ownerWire.length) = .ok (.ok r.kind)
  cls : readU16 msg (pos + r.ownerWire.length + 2) = .ok (.ok r.cls)
  ttl : readU32 msg (pos + r.ownerWire.length + 4) = .ok (.ok r.ttl)
  rdlen : readU16 msg (pos + r.ownerWire.length + 8) =
    .ok (.ok (UInt16.ofNat r.rdata.length))

theorem head_append (pre post : Bytes) (r : Record) :
    Head (pre ++ (r.ownerWire ++ (r.fields ++ post))) pre.length r where
  name := by
    have h := readName_encodeName r.encodes pre (r.fields ++ post)
    rwa [List.append_assoc] at h
  kind := by
    have h := readU16_append (pre ++ r.ownerWire) (beBytes r.cls ++ (beBytes32 r.ttl ++
      (beBytes (UInt16.ofNat r.rdata.length) ++ post))) r.kind
    simpa [Record.fields, Nat.add_assoc] using h
  cls := by
    have h := readU16_append (pre ++ (r.ownerWire ++ beBytes r.kind)) (beBytes32 r.ttl ++
      (beBytes (UInt16.ofNat r.rdata.length) ++ post)) r.cls
    simpa [Record.fields, Nat.add_assoc] using h
  ttl := by
    have h := readU32_append (pre ++ (r.ownerWire ++ (beBytes r.kind ++ beBytes r.cls)))
      (beBytes (UInt16.ofNat r.rdata.length) ++ post) r.ttl
    simpa [Record.fields, Nat.add_assoc] using h
  rdlen := by
    have h := readU16_append
      (pre ++ (r.ownerWire ++ (beBytes r.kind ++ (beBytes r.cls ++ beBytes32 r.ttl)))) post
      (UInt16.ofNat r.rdata.length)
    simpa [Record.fields, Nat.add_assoc] using h

/-! ### One record -/

section
variable {msg : Bytes} {pos n : ℕ} {answers : List Answer} {r : Record}

/-- A turn of the loop past the fields. -/
theorem readAnswers_of_head (h : Head msg pos r) (hroom : answers.length < MAX_ANSWERS) :
    readAnswers msg (n + 1) pos answers =
      match getRange msg (pos + r.ownerWire.length + 10)
          (pos + r.ownerWire.length + 10 + r.rdata.length) with
      | none => .ok (answers, false)
      | some rdata => renderRdata msg (pos + r.ownerWire.length + 10) rdata r.kind >>= fun data =>
        readAnswers msg n (pos + r.ownerWire.length + 10 + r.rdata.length)
          (answers ++ [r.answer data]) := by
  have hlen : (UInt16.ofNat r.rdata.length).toNat = r.rdata.length :=
    UInt16.toNat_ofNat_of_lt' (Nat.lt_succ_of_le r.rdata_le)
  rw [readAnswers, if_neg (Nat.not_le.mpr hroom), h.name, ok_bind]
  dsimp only
  rw [h.kind, h.cls, h.ttl, h.rdlen, ok_bind, ok_bind, ok_bind, ok_bind]
  dsimp only
  rw [hlen]
  cases getRange msg (pos + r.ownerWire.length + 10)
    (pos + r.ownerWire.length + 10 + r.rdata.length) <;> rfl

/-- A record that is whole is decoded. -/
theorem readAnswers_whole (pre post : Bytes) (hroom : answers.length < MAX_ANSWERS) :
    ∃ data, readAnswers (pre ++ (r.bytes ++ post)) (n + 1) pre.length answers =
      readAnswers (pre ++ (r.bytes ++ post)) n (pre.length + r.bytes.length)
        (answers ++ [r.answer data]) := by
  have hbuf : pre ++ (r.bytes ++ post) =
      pre ++ (r.ownerWire ++ (r.fields ++ (r.rdata ++ post))) := by
    simp [Record.bytes]
  have hrange := getRange_append (pre ++ (r.ownerWire ++ r.fields)) r.rdata post
  have hpos : (pre ++ (r.ownerWire ++ r.fields)).length = pre.length + r.ownerWire.length + 10 := by
    simp [Nat.add_assoc]
  have hsplit : (pre ++ (r.ownerWire ++ r.fields)) ++ (r.rdata ++ post) =
      pre ++ (r.ownerWire ++ (r.fields ++ (r.rdata ++ post))) := by simp
  rw [hpos, hsplit, ← hbuf] at hrange
  obtain ⟨data, hdata⟩ := returns_renderRdata (pre ++ (r.bytes ++ post))
    (pre.length + r.ownerWire.length + 10) r.rdata r.kind
  refine ⟨data, ?_⟩
  have hhead : Head (pre ++ (r.bytes ++ post)) pre.length r := hbuf ▸ head_append pre _ r
  rw [readAnswers_of_head hhead hroom, hrange]
  dsimp only
  rw [hdata, ok_bind, r.length_bytes, Nat.add_assoc, Nat.add_assoc, Nat.add_assoc]

/-- A name is where it is, whatever follows. -/
theorem NameAt.append {buf : Bytes} {labels : List Bytes} {next : ℕ} (h : NameAt buf pos labels next)
    (post : Bytes) : NameAt (buf ++ post) pos labels next := by
  have hbyte : ∀ {i : ℕ} {b : UInt8}, buf[i]? = some b → (buf ++ post)[i]? = some b := by
    intro i b hb
    rw [List.getElem?_append_left (List.getElem?_eq_some_iff.mp hb).1, hb]
  induction h with
  | root hb => exact .root (hbyte hb)
  | label hb hk hne hl _ ih =>
      refine .label (hbyte hb) hk hne ?_ ih
      obtain ⟨hij, hle, -⟩ := length_of_getRange hl
      unfold getRange at hl ⊢
      rw [if_pos ⟨hij, hle⟩] at hl
      rw [if_pos ⟨hij, by rw [List.length_append]; omega⟩, List.drop_append_of_le_length (by omega),
        List.take_append_of_le_length (by rw [List.length_drop]; omega), hl]
  | pointer hb hk hlo _ ih => exact .pointer (hbyte hb) hk (hbyte hlo) ih

/-- An owner that is cut is not read. -/
theorem readName_cut (pre : Bytes) {m : ℕ} (hm : m < r.ownerWire.length) :
    ∃ e, readName (pre ++ r.ownerWire.take m) pre.length = .ok (.error e) := by
  obtain ⟨read, hread⟩ := returns_readName (pre ++ r.ownerWire.take m) pre.length
  cases read with
  | error e => exact ⟨e, hread⟩
  | ok read =>
      -- the whole name would end where the cut one does
      obtain ⟨labels, hn, -⟩ := readName_nameAt hread
      obtain ⟨labels', hn', -⟩ := readName_nameAt (readName_encodeName r.encodes pre [])
      have hwhole := hn.append (r.ownerWire.drop m)
      rw [List.append_assoc, List.take_append_drop, ← List.append_nil (pre ++ r.ownerWire)] at hwhole
      obtain ⟨-, hnext⟩ := hwhole.unique hn'
      have hle := hn.bounds.2
      rw [hnext, List.length_append, List.length_take] at hle
      omega

/-- A record that is cut ends the section. -/
theorem readAnswers_cut (pre : Bytes) {m : ℕ} (hm : m < r.bytes.length)
    (hroom : answers.length < MAX_ANSWERS) :
    readAnswers (pre ++ r.bytes.take m) (n + 1) pre.length answers = .ok (answers, false) := by
  have hlen : (pre ++ r.bytes.take m).length = pre.length + m := by
    rw [List.length_append, List.length_take, Nat.min_eq_left (Nat.le_of_lt hm)]
  rw [r.length_bytes] at hm
  by_cases howner : m < r.ownerWire.length
  · have htake : r.bytes.take m = r.ownerWire.take m :=
      List.take_append_of_le_length (Nat.le_of_lt howner)
    obtain ⟨e, he⟩ := readName_cut pre howner
    rw [htake, readAnswers, if_neg (Nat.not_le.mpr hroom), he, ok_bind]
    rfl
  · have htake : r.bytes.take m = r.ownerWire ++ (r.fields ++ r.rdata).take (m - r.ownerWire.length) := by
      rw [Record.bytes, List.take_append, List.take_of_length_le (Nat.le_of_not_lt howner)]
    have hname := readName_encodeName r.encodes pre ((r.fields ++ r.rdata).take (m - r.ownerWire.length))
    rw [List.append_assoc, ← htake] at hname
    by_cases hfields : m < r.ownerWire.length + 10
    · -- the length of the data is cut
      rcases readU16_cases (pre ++ r.bytes.take m) (pre.length + r.ownerWire.length + 8) with
        ⟨_, -, hle⟩ | ⟨e, he, -⟩
      · omega
      obtain ⟨kind, hkind⟩ := returns_readU16 (pre ++ r.bytes.take m)
        (pre.length + r.ownerWire.length)
      obtain ⟨cls, hcls⟩ := returns_readU16 (pre ++ r.bytes.take m)
        (pre.length + r.ownerWire.length + 2)
      obtain ⟨ttl, httl⟩ := returns_readU32 (pre ++ r.bytes.take m)
        (pre.length + r.ownerWire.length + 4)
      rw [readAnswers, if_neg (Nat.not_le.mpr hroom), hname, ok_bind]
      dsimp only
      rw [hkind, hcls, httl, he, ok_bind, ok_bind, ok_bind, ok_bind]
      cases kind <;> cases cls <;> cases ttl <;> rfl
    · have hhead : Head (pre ++ r.bytes.take m) pre.length r := by
        rw [htake, List.take_append, List.take_of_length_le (by rw [r.length_fields]; omega)]
        exact head_append pre _ r
      have hnone : getRange (pre ++ r.bytes.take m) (pre.length + r.ownerWire.length + 10)
          (pre.length + r.ownerWire.length + 10 + r.rdata.length) = none := by
        rw [getRange, if_neg]
        omega
      rw [readAnswers_of_head hhead hroom, hnone]

end

/-! ### The section -/

theorem shown_answer (r : Record) (data : Text) : r.Shown (r.answer data) := ⟨rfl, rfl, rfl⟩

/-- What is read of a section that is cut after `m` bytes: the records that are whole, as many as there
is room for. -/
theorem readAnswers_section (pre : Bytes) (rs : List Record) (m : ℕ) {answers : List Answer}
    (hle : answers.length ≤ MAX_ANSWERS) :
    ∃ shown capped, readAnswers (pre ++ (rs.flatMap Record.bytes).take m) rs.length pre.length answers =
        .ok (answers ++ shown, capped) ∧
      List.Forall₂ Record.Shown (rs.take (min (MAX_ANSWERS - answers.length) (contained m rs))) shown ∧
      (capped = true ↔ MAX_ANSWERS - answers.length < rs.length ∧
        MAX_ANSWERS - answers.length ≤ contained m rs) := by
  induction rs generalizing pre m answers with
  | nil => exact ⟨[], false, by rw [List.append_nil]; rfl, by simp, by simp⟩
  | cons r rs ih =>
      by_cases hroom : answers.length < MAX_ANSWERS
      · rw [List.flatMap_cons, List.length_cons, contained]
        by_cases hm : r.bytes.length ≤ m
        · obtain ⟨data, hread⟩ := @readAnswers_whole rs.length answers r pre
            ((rs.flatMap Record.bytes).take (m - r.bytes.length)) hroom
          have hbuf : pre ++ (r.bytes ++ rs.flatMap Record.bytes).take m =
              pre ++ (r.bytes ++ (rs.flatMap Record.bytes).take (m - r.bytes.length)) := by
            rw [List.take_append, List.take_of_length_le hm]
          obtain ⟨shown, capped, hrest, hshown, hcapped⟩ := @ih (pre ++ r.bytes) (m - r.bytes.length)
            (answers ++ [r.answer data]) (by rw [List.length_append]; exact hroom)
          rw [List.append_assoc, List.length_append, List.append_assoc] at hrest
          rw [List.length_append, List.length_singleton] at hshown hcapped
          refine ⟨r.answer data :: shown, capped, ?_, ?_, ?_⟩
          · rw [hbuf, hread, hrest]
            rfl
          · rw [if_pos hm, show min (MAX_ANSWERS - answers.length)
                (contained (m - r.bytes.length) rs + 1) =
              min (MAX_ANSWERS - (answers.length + 1)) (contained (m - r.bytes.length) rs) + 1 by omega]
            exact .cons (shown_answer r data) hshown
          · rw [hcapped, if_pos hm]
            omega
        · rw [List.take_append_of_le_length (Nat.le_of_not_le hm),
            readAnswers_cut pre (Nat.lt_of_not_le hm) hroom, if_neg hm]
          refine ⟨[], false, by rw [List.append_nil], by simp, ?_⟩
          simp only [Bool.false_eq_true, false_iff]
          omega
      · refine ⟨[], true, ?_, ?_, ?_⟩
        · rw [List.length_cons, readAnswers, if_pos (Nat.le_of_not_lt hroom), List.append_nil]
          rfl
        · rw [show MAX_ANSWERS - answers.length = 0 by omega]
          simp
        · rw [List.length_cons]
          simp only [true_iff]
          omega

/-- The records that are whole are those that end in the first `m` bytes. -/
theorem lt_contained_iff {m i : ℕ} {rs : List Record} :
    i < contained m rs ↔ i < rs.length ∧ ((rs.take (i + 1)).flatMap Record.bytes).length ≤ m := by
  induction rs generalizing m i with
  | nil => simp [contained]
  | cons r rs ih =>
      rw [contained, List.take_succ_cons, List.flatMap_cons, List.length_append, List.length_cons]
      by_cases hm : r.bytes.length ≤ m
      · rw [if_pos hm]
        cases i with
        | zero => simp [hm]
        | succ i =>
            rw [Nat.add_lt_add_iff_right, Nat.add_lt_add_iff_right, ih]
            refine and_congr_right fun _ => ?_
            omega
      · rw [if_neg hm]
        omega

theorem contained_of_length_le {m : ℕ} {rs : List Record}
    (h : (rs.flatMap Record.bytes).length ≤ m) : contained m rs = rs.length := by
  have hall : ∀ i, i < contained m rs ↔ i < rs.length := by
    intro i
    rw [lt_contained_iff]
    refine and_iff_left_of_imp fun _ => Nat.le_trans ?_ h
    conv_rhs => rw [← List.take_append_drop (i + 1) rs, List.flatMap_append, List.length_append]
    exact Nat.le_add_right _ _
  have hle := (hall (contained m rs)).not.mp (lt_irrefl _)
  have hge := (hall rs.length).not.mpr (lt_irrefl _)
  omega

/-! ### The reply -/

/-- The question of a query is accepted as its own. -/
theorem readQuestions_own {id qtype : UInt16} {name : Text} {query : Bytes}
    (hq : buildQuery id name qtype = .ok query) {header : Bytes} (hlen : header.length = 12)
    (post : Bytes) :
    readQuestions (header ++ (query.drop 12 ++ post)) query 1 0 12 = .ok (.ok query.length) := by
  obtain ⟨hquery, hle, hplain⟩ := buildQuery_eq hq
  have hasked : ∀ header : Bytes, header.length = 12 → ∀ post : Bytes,
      readName (header ++ (query.drop 12 ++ post)) 12 =
          .ok (.ok (render (labelsOf name), 12 + (wireLabels (labelsOf name)).length + 1)) ∧
        readU16 (header ++ (query.drop 12 ++ post))
          (12 + (wireLabels (labelsOf name)).length + 1) = .ok (.ok qtype) ∧
        readU16 (header ++ (query.drop 12 ++ post))
          (12 + (wireLabels (labelsOf name)).length + 1 + 2) = .ok (.ok 1) := by
    intro header hlen post
    have hdrop : query.drop 12 =
        wireLabels (labelsOf name) ++ 0 :: (beBytes qtype ++ beBytes 1) := by
      rw [hquery, List.append_assoc, List.drop_left' (show (queryHeader id).length = 12 from rfl)]
      simp [beBytes]
    have hname := readName_wire header (beBytes qtype ++ (beBytes 1 ++ post)) hplain hle
    have htype := readU16_append (header ++ (wireLabels (labelsOf name) ++ [0]))
      (beBytes 1 ++ post) qtype
    have hclass := readU16_append (header ++ (wireLabels (labelsOf name) ++ ([0] ++ beBytes qtype)))
      post 1
    rw [hdrop]
    refine ⟨?_, ?_, ?_⟩
    · simpa [hlen] using hname
    · simpa [hlen, Nat.add_assoc] using htype
    · simpa [hlen, Nat.add_assoc] using hclass
  obtain ⟨hname, htype, hclass⟩ := hasked header hlen post
  obtain ⟨hwant, hwtype, -⟩ := hasked (query.take 12) (by rw [hquery]; rfl) []
  rw [List.append_nil, List.take_append_drop] at hwant hwtype
  have hsame : eqIgnoreAsciiCase (render (labelsOf name)) (render (labelsOf name)) = true :=
    beq_self_eq_true _
  have hcheck : checkQuestion query (render (labelsOf name)) qtype 1 = .ok (.ok ()) := by
    rw [checkQuestion, hwant, ok_bind]
    dsimp only
    rw [hwtype, ok_bind]
    dsimp only
    rw [if_neg (by simp [hsame])]
    rfl
  have hend : 12 + (wireLabels (labelsOf name)).length + 1 + 4 = query.length := by
    rw [hquery]
    simp [queryHeader]
    omega
  rw [readQuestions, hname, ok_bind]
  dsimp only
  rw [htype, ok_bind]
  dsimp only
  rw [hclass, ok_bind]
  dsimp only
  rw [if_pos rfl, hcheck, ok_bind]
  dsimp only
  rw [readQuestions, hend]
  rfl

/-- Of a reply to the query, the records are left to be read. -/
theorem parseResponse_reply {id qtype : UInt16} {name : Text} {query : Bytes}
    (hq : buildQuery id name qtype = .ok query) {flags : UInt16} (hqr : flags &&& 0x8000 ≠ 0)
    (ancount nscount arcount : UInt16) (tail : Bytes) {answers : List Answer} {capped : Bool}
    (hread : readAnswers (replyHeader id flags ancount nscount arcount ++ (query.drop 12 ++ tail))
      ancount.toNat query.length [] = .ok (answers, capped)) :
    ∃ parsed, parseResponse (replyHeader id flags ancount nscount arcount ++
        (query.drop 12 ++ tail)) query = .ok (.ok parsed) ∧
      parsed.answers = answers ∧ parsed.capped = capped := by
  obtain ⟨hquery, -⟩ := buildQuery_eq hq
  set msg := replyHeader id flags ancount nscount arcount ++ (query.drop 12 ++ tail) with hmsg
  have hlen : 12 ≤ msg.length := by
    rw [hmsg, List.length_append]
    exact Nat.le_add_right 12 _
  have hqlen : 12 ≤ query.length := by
    rw [hquery, List.append_assoc, List.length_append]
    exact Nat.le_add_right 12 _
  have hqid : word query 0 = id := by
    rw [hquery]
    exact be16_beBytes id
  have hid : word msg 0 = id := be16_beBytes id
  have hflags : word msg 2 = flags := be16_beBytes flags
  have hqd : word msg 4 = 1 := be16_beBytes 1
  have han : word msg 6 = ancount := be16_beBytes ancount
  have hquestions : readQuestions msg query 1 0 12 = .ok (.ok query.length) :=
    readQuestions_own hq rfl tail
  refine ⟨⟨rcodeName (flags &&& 0x000f).toUInt8, flags &&& 0x0400 != 0, answers, capped⟩, ?_, rfl, rfl⟩
  rw [parseResponse, if_neg (Nat.not_lt.mpr hlen), wordAt_eq (by omega), wordAt_eq (by omega),
    ok_bind, ok_bind, hid, hqid, if_neg (not_not.mpr rfl), wordAt_eq (by omega), ok_bind, hflags,
    if_neg hqr, wordAt_eq (by omega), ok_bind, hqd, wordAt_eq (by omega), ok_bind, han]
  dsimp only
  rw [show (1 : UInt16).toNat = 1 from rfl, hquestions, ok_bind]
  dsimp only
  rw [hread]
  rfl

/-- **Records are read back.**  A reply to a query, of its question and of records, is accepted wherever
it is cut past the question.  What is read are the records that are whole, in order, at most as many as
are kept; and it says that some were left out when it has more than are kept, and as many are whole. -/
theorem records_decoded {id qtype : UInt16} {name : Text} {query : Bytes}
    (hq : buildQuery id name qtype = .ok query) {flags : UInt16} (hqr : flags &&& 0x8000 ≠ 0)
    (nscount arcount : UInt16) {records : List Record} (hk : records.length ≤ 65535) :
    (∃ parsed, parseResponse (reply id flags nscount arcount (query.drop 12) records) query =
        .ok (.ok parsed) ∧
      List.Forall₂ Record.Shown (records.take (min records.length MAX_ANSWERS)) parsed.answers ∧
      (parsed.capped = true ↔ MAX_ANSWERS < records.length)) ∧
    ∀ m, ∃ parsed, parseResponse ((reply id flags nscount arcount (query.drop 12) records).take
        (query.length + m)) query = .ok (.ok parsed) ∧
      List.Forall₂ Record.Shown (records.take (min (contained m records) MAX_ANSWERS))
        parsed.answers ∧
      (parsed.capped = true ↔ MAX_ANSWERS < records.length ∧ MAX_ANSWERS ≤ contained m records) := by
  have hqlen : 12 ≤ query.length := by
    rw [(buildQuery_eq hq).1, List.append_assoc, List.length_append]
    exact Nat.le_add_right 12 _
  have hcount : (UInt16.ofNat records.length).toNat = records.length :=
    UInt16.toNat_ofNat_of_lt' (Nat.lt_succ_of_le hk)
  have hm : ∀ m, ∃ parsed, parseResponse ((reply id flags nscount arcount (query.drop 12) records).take
        (query.length + m)) query = .ok (.ok parsed) ∧
      List.Forall₂ Record.Shown (records.take (min (contained m records) MAX_ANSWERS))
        parsed.answers ∧
      (parsed.capped = true ↔ MAX_ANSWERS < records.length ∧ MAX_ANSWERS ≤ contained m records) := by
    intro m
    obtain ⟨answers, capped, hread, hshown, hcapped⟩ := @readAnswers_section
      (replyHeader id flags (UInt16.ofNat records.length) nscount arcount ++ query.drop 12) records m
      [] (Nat.zero_le _)
    have hpos : (replyHeader id flags (UInt16.ofNat records.length) nscount arcount ++
        query.drop 12).length = query.length := by
      rw [List.length_append, List.length_drop]
      exact Nat.add_sub_of_le hqlen
    have hcut : (reply id flags nscount arcount (query.drop 12) records).take (query.length + m) =
        replyHeader id flags (UInt16.ofNat records.length) nscount arcount ++
          (query.drop 12 ++ (records.flatMap Record.bytes).take m) := by
      rw [reply, ← List.append_assoc, ← hpos, List.take_length_add_append, List.append_assoc]
    rw [hpos, List.append_assoc, List.nil_append] at hread
    obtain ⟨parsed, hparse, rfl, rfl⟩ := parseResponse_reply hq hqr (UInt16.ofNat records.length)
      nscount arcount ((records.flatMap Record.bytes).take m) (by rw [hcount]; exact hread)
    rw [List.length_nil, Nat.sub_zero, Nat.min_comm] at hshown
    exact ⟨parsed, by rw [hcut, hparse], hshown, hcapped⟩
  refine ⟨?_, hm⟩
  obtain ⟨parsed, hparse, hshown, hcapped⟩ := hm (records.flatMap Record.bytes).length
  rw [contained_of_length_le (le_refl _)] at hshown hcapped
  rw [List.take_of_length_le ?_] at hparse
  · exact ⟨parsed, hparse, hshown, hcapped.trans (and_iff_left_of_imp Nat.le_of_lt)⟩
  · rw [reply, ← List.append_assoc, List.length_append, List.length_append, List.length_drop]
    exact Nat.add_le_add_right (Nat.add_sub_of_le hqlen).le _

/-! ### Two addresses -/

/-- An address of `a`. -/
def aRecord : Record where
  owner := lit "a"
  ownerWire := [1, 0x61, 0]
  encodes := by decide +kernel
  kind := 1
  cls := 1
  ttl := 60
  rdata := [10, 0, 0, 1]
  rdata_le := by decide

/-- Of a reply with two records, the second is cut in its data. -/
theorem records_decoded_two : ∃ parsed,
    parseResponse ((reply 7 0x8180 0 0 [1, 0x61, 0, 0, 1, 0, 1] [aRecord, aRecord]).take 50)
      [0, 7, 1, 0, 0, 1, 0, 0, 0, 0, 0, 0, 1, 0x61, 0, 0, 1, 0, 1] = .ok (.ok parsed) ∧
    List.Forall₂ Record.Shown [aRecord] parsed.answers ∧ parsed.capped = false := by
  have hq : buildQuery 7 (lit "a") 1 =
      .ok [0, 7, 1, 0, 0, 1, 0, 0, 0, 0, 0, 0, 1, 0x61, 0, 0, 1, 0, 1] := by decide +kernel
  have hqr : (0x8180 : UInt16) &&& 0x8000 ≠ 0 := by decide
  obtain ⟨parsed, hparse, hshown, hcapped⟩ := (records_decoded hq hqr 0 0
    (show [aRecord, aRecord].length ≤ 65535 by decide)).2 31
  exact ⟨parsed, hparse, hshown, Bool.eq_false_iff.mpr fun h => absurd (hcapped.mp h) (by decide)⟩

end Tunnel.Probe
