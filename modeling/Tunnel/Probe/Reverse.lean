import Tunnel.Probe.Encoding

/-!
# Probe — The name an address is asked backwards by

`reverse_labels` and `reverse_name`: the octets of an IPv4 address, or the nibbles of an IPv6 address,
last first, under the zone of their family.

* `encodeName_intercalate`: a name made of labels that can be asked for is encoded label by label.
* `reverse_asks`: the reverse name of every address can be asked for, and no two addresses share a
  query.
-/

namespace Tunnel.Probe
open Support Text

/-- The labels of an address, without a zone. -/
def reverseLabels : IpAddr → Text
  | .v4 ip =>
      decimal ip.d.toNat ++ ['.'] ++ decimal ip.c.toNat ++ ['.'] ++ decimal ip.b.toNat ++ ['.'] ++
        decimal ip.a.toNat
  | .v6 ip =>
      let s := ip.octets.reverse.flatMap fun (byte : UInt8) =>
        [(byte &&& 0x0f).toNat.digitChar, '.', (byte >>> 4).toNat.digitChar, '.']
      -- the trailing separator; the caller supplies the zone
      s.dropLast

def reverseName (ip : IpAddr) : Text :=
  let zone := match ip with
    | .v4 _ => lit "in-addr.arpa"
    | .v6 _ => lit "ip6.arpa"
  reverseLabels ip ++ ['.'] ++ zone

example : reverseName (.v4 ⟨192, 0, 2, 1⟩) = lit "1.2.0.192.in-addr.arpa" := by decide +kernel

/-! ### Names made of labels -/

/-- What `encode_name` takes as a label, with no dot or space in it. -/
def askable (label : Text) : Bool :=
  !label.isEmpty && label.len ≤ 63 && label.utf8.all isLabelByte &&
    label.all fun c => !isWhitespace c && c != '.'

theorem askable_iff {label : Text} : askable label = true ↔
    label ≠ [] ∧ label.len ≤ 63 ∧ label.utf8.all isLabelByte = true ∧
      (∀ c ∈ label, isWhitespace c = false) ∧ '.' ∉ label := by
  simp only [askable, Bool.and_eq_true, Bool.not_eq_true', List.isEmpty_eq_false_iff,
    decide_eq_true_eq, List.all_eq_true, bne_iff_ne, ne_eq, and_assoc]
  refine and_congr_right fun _ => and_congr_right fun _ => and_congr_right fun _ => ?_
  constructor
  · intro h
    exact ⟨fun c hc => (h c hc).1, fun hdot => (h '.' hdot).2 rfl⟩
  · rintro ⟨hspace, hdot⟩ c hc
    exact ⟨hspace c hc, fun he => hdot (he ▸ hc)⟩

section Labels

variable {labels : List Text}

theorem encodeLabels_of_askable (name : Text) (h : ∀ l ∈ labels, askable l = true) (out : Bytes) :
    encodeLabels name labels out = .ok (out ++ wireLabels (labels.map utf8)) := by
  induction labels generalizing out with
  | nil => simp [encodeLabels, wireLabels, pure, Except.pure]
  | cons l labels ih =>
      obtain ⟨hne, hlen, hbytes, -, -⟩ := askable_iff.mp (h l (by simp))
      rw [encodeLabels, if_neg (by simpa using hne), if_neg (Nat.not_lt.mpr hlen),
        if_neg (by simp [hbytes])]
      refine (ih (fun l hl => h l (List.mem_cons_of_mem _ hl)) _).trans ?_
      simp [wireLabels]

/-- The name does not end in a dot, and has no space to trim. -/
theorem intercalate_askable (h : ∀ l ∈ labels, askable l = true) (hne : labels ≠ []) :
    ['.'].intercalate labels ≠ [] ∧
      (∀ c ∈ ['.'].intercalate labels, isWhitespace c = false) ∧
      ∀ hn, (['.'].intercalate labels).getLast hn ≠ '.' := by
  induction labels with
  | nil => exact absurd rfl hne
  | cons l labels ih =>
      obtain ⟨hl, -, -, hspace, hdot⟩ := askable_iff.mp (h l (by simp))
      cases labels with
      | nil =>
          rw [List.intercalate_singleton]
          exact ⟨hl, hspace, fun hn he => hdot (he ▸ List.getLast_mem hn)⟩
      | cons l' labels =>
          obtain ⟨hn', hspace', hlast'⟩ :=
            ih (fun l hl => h l (List.mem_cons_of_mem _ hl)) (List.cons_ne_nil _ _)
          rw [List.intercalate_cons_cons]
          refine ⟨by simp [hl], fun c hc => ?_, fun hn => ?_⟩
          · rcases List.mem_append.mp hc with hc | hc
            · rcases List.mem_append.mp hc with hc | hc
              · exact hspace c hc
              · rw [List.mem_singleton.mp hc]
                decide
            · exact hspace' c hc
          · rw [List.getLast_append_of_ne_nil hn hn']
            exact hlast' hn'

theorem stripped_intercalate (h : ∀ l ∈ labels, askable l = true) (hne : labels ≠ []) :
    stripped (['.'].intercalate labels) = ['.'].intercalate labels := by
  obtain ⟨-, hspace, hlast⟩ := intercalate_askable h hne
  have hhead : (['.'].intercalate labels).dropWhile isWhitespace = ['.'].intercalate labels :=
    List.dropWhile_eq_self_iff.mpr fun hl => by simp [hspace _ (List.getElem_mem hl)]
  have htail : (['.'].intercalate labels).rdropWhile isWhitespace = ['.'].intercalate labels :=
    List.rdropWhile_eq_self_iff.mpr fun hl => by simp [hspace _ (List.getLast_mem hl)]
  rw [stripped, trim, hhead, htail, trimEndMatches, List.rdropWhile_eq_self_iff]
  intro hn
  simpa using hlast hn

/-- A name of such labels is written label by label. -/
theorem encodeName_intercalate (h : ∀ l ∈ labels, askable l = true) (hne : labels ≠ [])
    (hlen : (wireLabels (labels.map utf8)).length + 1 ≤ 255) (out : Bytes) :
    encodeName (['.'].intercalate labels) out =
      .ok (out ++ wireLabels (labels.map utf8) ++ [0]) := by
  have hsplit : (['.'].intercalate labels).splitOn '.' = labels :=
    List.splitOn_intercalate '.' (fun l hl => (askable_iff.mp (h l hl)).2.2.2.2) hne
  have hstrip : trimEndMatches '.' (trim (['.'].intercalate labels)) = ['.'].intercalate labels :=
    stripped_intercalate h hne
  have hroom : ¬ 255 < (out ++ wireLabels (labels.map utf8) ++ [0]).length - out.length := by
    simp only [List.length_append, List.length_singleton]
    omega
  rw [encodeName]
  dsimp only
  rw [hstrip, if_neg (by simpa using (intercalate_askable h hne).1), hsplit,
    encodeLabels_of_askable _ h]
  change (if _ then _ else _ : Except Text Bytes) = _
  rw [if_neg hroom]
  rfl

end Labels

/-! ### Reverse names -/

/-- The two labels of a byte of an IPv6 address. -/
def nibbles (byte : UInt8) : List Text :=
  [[(byte &&& 0x0f).toNat.digitChar], [(byte >>> 4).toNat.digitChar]]

/-- The labels of a reverse name. -/
def reverseParts : IpAddr → List Text
  | .v4 ip =>
      [decimal ip.d.toNat, decimal ip.c.toNat, decimal ip.b.toNat, decimal ip.a.toNat,
        lit "in-addr", lit "arpa"]
  | .v6 ip => ip.octets.reverse.flatMap nibbles ++ [lit "ip6", lit "arpa"]

theorem askable_decimal : ∀ b : UInt8, askable (decimal b.toNat) = true ∧
    (utf8 (decimal b.toNat)).length ≤ 7 :=
  forall_byte (by decide +kernel)

theorem askable_nibbles : ∀ b : UInt8, ∀ l ∈ nibbles b, askable l = true ∧ (utf8 l).length ≤ 4 :=
  forall_byte (by decide +kernel)

theorem decimal_inj {a b : UInt8} (h : decimal a.toNat = decimal b.toNat) : a = b := by
  have hn := congrArg (Nat.ofDigitChars 10 · 0) h
  simp only [decimal] at hn
  rw [Nat.ofDigitChars_toDigits (by decide) (by decide),
    Nat.ofDigitChars_toDigits (by decide) (by decide)] at hn
  exact UInt8.toNat_inj.mp hn

/-- The value of a hexadecimal digit. -/
def digitValue (c : Char) : ℕ := if c.isDigit then c.toNat - 48 else c.toNat - 87

theorem digitValue_nibbles : ∀ b : UInt8,
    (nibbles b).map (fun l => l.map digitValue) = [[b.toNat % 16], [b.toNat / 16]] :=
  forall_byte (by decide +kernel)

theorem nibbles_inj {a b : UInt8} (h : nibbles a = nibbles b) : a = b := by
  have hv := congrArg (List.map fun l => l.map digitValue) h
  rw [digitValue_nibbles, digitValue_nibbles] at hv
  simp only [List.cons.injEq, and_true] at hv
  exact UInt8.toNat_inj.mp (by omega)

/-- The nibbles of two lists of bytes, one after another. -/
theorem flatMap_nibbles_inj {xs ys : Bytes} (h : xs.flatMap nibbles = ys.flatMap nibbles) :
    xs = ys := by
  induction xs generalizing ys with
  | nil =>
      cases ys with
      | nil => rfl
      | cons y ys => cases h
  | cons x xs ih =>
      cases ys with
      | nil => cases h
      | cons y ys =>
          rw [List.flatMap_cons, List.flatMap_cons] at h
          obtain ⟨hxy, hrest⟩ := List.append_inj h rfl
          rw [nibbles_inj hxy, ih hrest]

/-- The labels of nibbles before others, with the dots between. -/
theorem intercalate_nibbles (bytes : Bytes) {rest : List Text} (hne : rest ≠ []) :
    ['.'].intercalate (bytes.flatMap nibbles ++ rest) =
      (bytes.flatMap fun (byte : UInt8) =>
        [(byte &&& 0x0f).toNat.digitChar, '.', (byte >>> 4).toNat.digitChar, '.']) ++
        ['.'].intercalate rest := by
  induction bytes with
  | nil => rfl
  | cons byte bytes ih =>
      have hn : bytes.flatMap nibbles ++ rest ≠ [] := by simp [hne]
      rw [List.flatMap_cons, List.flatMap_cons, nibbles, List.append_assoc, List.append_assoc, ← ih]
      simp only [List.cons_append, List.nil_append]
      rw [List.intercalate_cons_of_ne_nil (by simp), List.intercalate_cons_of_ne_nil hn]
      rfl

theorem reverseName_eq (ip : IpAddr) : reverseName ip = ['.'].intercalate (reverseParts ip) := by
  cases ip with
  | v4 ip => simp [reverseName, reverseLabels, reverseParts, lit, List.intercalate_cons_cons]
  | v6 ip =>
      rw [reverseName, reverseLabels, reverseParts, intercalate_nibbles _ (by simp)]
      have hlast : ∀ bytes : Bytes, bytes ≠ [] →
          (bytes.flatMap fun (byte : UInt8) =>
            [(byte &&& 0x0f).toNat.digitChar, '.', (byte >>> 4).toNat.digitChar, '.']).getLast? =
            some '.' := by
        intro bytes hne
        obtain ⟨init, last, rfl⟩ := List.eq_nil_or_concat bytes |>.resolve_left hne
        simp
      have hne : ip.octets.reverse ≠ [] := by
        intro he
        have hlen := ip.len
        rw [List.reverse_eq_nil_iff.mp he] at hlen
        cases hlen
      rw [List.dropLast_append_getLast? _ (hlast _ hne)]
      rfl

theorem askable_reverseParts (ip : IpAddr) : ∀ l ∈ reverseParts ip, askable l = true := by
  cases ip with
  | v4 ip =>
      have harpa : askable (lit "in-addr") = true ∧ askable (lit "arpa") = true := by
        decide +kernel
      simp [reverseParts, askable_decimal, harpa]
  | v6 ip =>
      have harpa : askable (lit "ip6") = true ∧ askable (lit "arpa") = true := by decide +kernel
      intro l hl
      rcases List.mem_append.mp hl with hl | hl
      · obtain ⟨b, -, hb⟩ := List.mem_flatMap.mp hl
        exact (askable_nibbles b l hb).1
      · simp only [List.mem_cons, List.not_mem_nil, or_false] at hl
        rcases hl with rfl | rfl
        · exact harpa.1
        · exact harpa.2

theorem length_wireLabels_le {labels : List Bytes} {n : ℕ} (h : ∀ l ∈ labels, l.length ≤ n) :
    (wireLabels labels).length ≤ labels.length * (n + 1) := by
  induction labels with
  | nil => simp [wireLabels]
  | cons l labels ih =>
      have hrest := ih fun l hl => h l (List.mem_cons_of_mem _ hl)
      have hl := h l (by simp)
      rw [wireLabels, List.flatMap_cons, List.length_append, List.length_cons, List.length_cons,
        Nat.succ_mul]
      rw [wireLabels] at hrest
      omega

theorem length_reverseParts_v6 (ip : Ipv6Addr) : (reverseParts (.v6 ip)).length = 34 := by
  simp [reverseParts, nibbles, ip.len, List.length_flatMap]

theorem length_wireLabels_reverseParts (ip : IpAddr) :
    (wireLabels ((reverseParts ip).map utf8)).length + 1 ≤ 255 := by
  cases ip with
  | v4 ip =>
      have h : ∀ l ∈ (reverseParts (.v4 ip)).map utf8, l.length ≤ 7 := by
        have harpa : (utf8 (lit "in-addr")).length ≤ 7 ∧ (utf8 (lit "arpa")).length ≤ 7 := by
          decide +kernel
        simp only [reverseParts, List.map_cons, List.map_nil, List.mem_cons, List.not_mem_nil,
          or_false]
        rintro l (rfl | rfl | rfl | rfl | rfl | rfl)
        · exact (askable_decimal ip.d).2
        · exact (askable_decimal ip.c).2
        · exact (askable_decimal ip.b).2
        · exact (askable_decimal ip.a).2
        · exact harpa.1
        · exact harpa.2
      have hle := length_wireLabels_le h
      have hcount : ((reverseParts (.v4 ip)).map utf8).length = 6 := rfl
      omega
  | v6 ip =>
      have h : ∀ l ∈ (reverseParts (.v6 ip)).map utf8, l.length ≤ 4 := by
        have harpa : (utf8 (lit "ip6")).length ≤ 4 ∧ (utf8 (lit "arpa")).length ≤ 4 := by
          decide +kernel
        intro l hl
        obtain ⟨t, ht, rfl⟩ := List.mem_map.mp hl
        rcases List.mem_append.mp ht with ht | ht
        · obtain ⟨b, -, hb⟩ := List.mem_flatMap.mp ht
          exact (askable_nibbles b t hb).2
        · simp only [List.mem_cons, List.not_mem_nil, or_false] at ht
          rcases ht with rfl | rfl
          · exact harpa.1
          · exact harpa.2
      have hle := length_wireLabels_le h
      rw [List.length_map, length_reverseParts_v6] at hle
      omega

theorem reverseParts_inj {ip ip' : IpAddr} (h : reverseParts ip = reverseParts ip') : ip = ip' := by
  cases ip with
  | v4 ip =>
      cases ip' with
      | v4 ip' =>
          obtain ⟨a, b, c, d⟩ := ip
          obtain ⟨a', b', c', d'⟩ := ip'
          simp only [reverseParts, List.cons.injEq, and_true] at h
          obtain ⟨hd, hc, hb, ha⟩ := h
          rw [decimal_inj ha, decimal_inj hb, decimal_inj hc, decimal_inj hd]
      | v6 ip' =>
          have hlen := congrArg List.length h
          rw [length_reverseParts_v6] at hlen
          cases hlen
  | v6 ip =>
      cases ip' with
      | v4 ip' =>
          have hlen := congrArg List.length h
          rw [length_reverseParts_v6] at hlen
          cases hlen
      | v6 ip' =>
          have hoctets := flatMap_nibbles_inj (List.append_cancel_right h)
          obtain ⟨octets, hlen⟩ := ip
          obtain ⟨octets', hlen'⟩ := ip'
          cases List.reverse_injective hoctets
          rfl

/-- A name is the parts between its dots. -/
theorem reverseName_inj {ip ip' : IpAddr} (h : reverseName ip = reverseName ip') : ip = ip' := by
  have hsplit : ∀ ip, (reverseName ip).splitOn '.' = reverseParts ip := by
    intro ip
    rw [reverseName_eq]
    refine List.splitOn_intercalate '.' (fun l hl => ?_) ?_
    · exact (askable_iff.mp (askable_reverseParts ip l hl)).2.2.2.2
    · cases ip <;> simp [reverseParts]
  apply reverseParts_inj
  rw [← hsplit, ← hsplit, h]

/-- The query for a reverse name, which `read_name` reads back. -/
theorem buildQuery_reverseName (ip : IpAddr) (id qtype : UInt16) :
    ∃ query next, buildQuery id (reverseName ip) qtype = .ok query ∧
      readName query 12 = .ok (.ok (reverseName ip, next)) := by
  have hask := askable_reverseParts ip
  have hne : reverseParts ip ≠ [] := by cases ip <;> simp [reverseParts]
  have henc := encodeName_intercalate hask hne (length_wireLabels_reverseParts ip)
  have hstrip := stripped_intercalate hask hne
  have hnil := (intercalate_askable hask hne).1
  rw [← reverseName_eq] at henc hstrip hnil
  have hread := readName_encodeName (henc []) (queryHeader id) (beBytes qtype ++ beBytes 1)
  rw [shownName, hstrip, if_neg (by simpa using hnil)] at hread
  refine ⟨_, _, ?_, hread⟩
  rw [buildQuery, henc]
  simp [queryHeader, show beBytes 1 = [0, 1] from rfl]

/-- **Every address can be asked for backwards**: the query for its reverse name is built, the name
read in it is that name, and no other address has the same query. -/
theorem reverse_asks (ip : IpAddr) (id qtype : UInt16) :
    (∃ query next, buildQuery id (reverseName ip) qtype = .ok query ∧
      readName query 12 = .ok (.ok (reverseName ip, next))) ∧
    ∀ ip', buildQuery id (reverseName ip) qtype = buildQuery id (reverseName ip') qtype ↔
      ip = ip' := by
  refine ⟨buildQuery_reverseName ip id qtype, fun ip' => ⟨fun h => ?_, fun h => by rw [h]⟩⟩
  obtain ⟨query, next, hquery, hread⟩ := buildQuery_reverseName ip id qtype
  obtain ⟨query', next', hquery', hread'⟩ := buildQuery_reverseName ip' id qtype
  rw [hquery, hquery'] at h
  cases h
  rw [hread] at hread'
  simp only [Except.ok.injEq, Prod.mk.injEq] at hread'
  exact reverseName_inj hread'.1

end Tunnel.Probe
