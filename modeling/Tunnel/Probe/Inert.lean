import Mathlib.Tactic.IntervalCases
import Tunnel.Probe.Response

/-!
# Probe — Hostile text

What a remote host chose the bytes of, and a window shows: a record's name, type and data, and a
service's greeting (`banner_text`).  `Inert` text is printable ASCII and the mark of a cut.

* `Inert.append`, `Inert.join`, `inert_escape`, `inert_malformed`: text is inert when its parts are,
  and what the renderers write themselves is.
* `yields_readName`, `yields_rdataText`: so is every name, every error of the decoder, and the data of
  every record.
* `hostile_inert`: so is all that is shown of a response or of a greeting, and its length is bounded.
-/

namespace Tunnel.Probe
open Support Text

/-! ### A service's greeting -/

def BANNER_CHARS : ℕ := 120

/-- `b.is_ascii_whitespace()`. -/
def isAsciiWhitespace (b : UInt8) : Bool :=
  b == 0x20 || b == 0x09 || b == 0x0a || b == 0x0c || b == 0x0d

/-- `xs.iter().rposition(p)`. -/
def rposition {α : Type} (p : α → Bool) (xs : List α) : Option ℕ :=
  (xs.reverse.findIdx? p).map fun i => xs.length - 1 - i

/-- `None` for whitespace alone.  The bytes are trimmed, and escaped after. -/
def bannerText (bytes : Bytes) : Checked (Option Text) := do
  let some start := bytes.findIdx? fun b => !isAsciiWhitespace b | return none
  let some last := rposition (fun b => !isAsciiWhitespace b) bytes | return none
  let shown ← sliceRange bytes start (last + 1)
  return some (clampTo (pushEscaped [] shown) BANNER_CHARS)

/-! ### Inert text -/

/-- Printable ASCII, or the ellipsis. -/
def Shown (c : Char) : Prop := 0x20 ≤ c.toNat ∧ c.toNat ≤ 0x7e ∨ c = '…'

instance : DecidablePred Shown := fun c =>
  inferInstanceAs (Decidable (0x20 ≤ c.toNat ∧ c.toNat ≤ 0x7e ∨ c = '…'))

def Inert (s : Text) : Prop := ∀ c ∈ s, Shown c

instance : DecidablePred Inert := fun s => List.decidableBAll Shown s

namespace Inert

variable {s t : Text}

theorem nil : Inert [] := fun _ hc => absurd hc List.not_mem_nil

theorem append (hs : Inert s) (ht : Inert t) : Inert (s ++ t) := by
  intro c hc
  rcases List.mem_append.mp hc with hc | hc
  · exact hs c hc
  · exact ht c hc

theorem space (hs : Inert s) : Inert (s ++ [' ']) := hs.append (by decide)

theorem take (hs : Inert s) (n : ℕ) : Inert (s.take n) := fun c hc => hs c (List.mem_of_mem_take hc)

theorem flatMap {α : Type} {xs : List α} {f : α → Text} (hf : ∀ x, Inert (f x)) :
    Inert (xs.flatMap f) := by
  intro c hc
  obtain ⟨x, -, hcx⟩ := List.mem_flatMap.mp hc
  exact hf x c hcx

theorem join {sep : Text} (hsep : Inert sep) {parts : List Text} (h : ∀ p ∈ parts, Inert p) :
    Inert (join sep parts) := by
  induction parts with
  | nil => exact nil
  | cons p rest ih =>
      have hp := h p List.mem_cons_self
      have hrest := ih fun q hq => h q (List.mem_cons_of_mem p hq)
      cases rest with
      | nil => exact hp
      | cons q rest => exact (hp.append hsep).append hrest

end Inert

/-! ### What the renderers write -/

theorem inert_digitChar (d : ℕ) : Shown d.digitChar := by
  by_cases h : d < 16
  · interval_cases d <;> decide
  · have hstar : d.digitChar = '*' := by
      rw [Nat.digitChar]
      repeat rw [if_neg (by omega)]
    rw [hstar]
    decide

/-- Whatever the base. -/
theorem inert_toDigits (b n : ℕ) : Inert (Nat.toDigits b n) := by
  have hcore : ∀ fuel n ds, Inert ds → Inert (Nat.toDigitsCore b fuel n ds) := by
    intro fuel
    induction fuel with
    | zero => exact fun _ _ hds => hds
    | succ fuel ih =>
        intro n ds hds
        have hcons : Inert ((n % b).digitChar :: ds) := by
          intro c hc
          rcases List.mem_cons.mp hc with rfl | hc
          · exact inert_digitChar _
          · exact hds c hc
        rw [Nat.toDigitsCore]
        split
        · exact hcons
        · exact ih _ _ hcons
  exact hcore _ _ _ Inert.nil

theorem inert_decimal (n : ℕ) : Inert (decimal n) := inert_toDigits 10 n

theorem inert_hex (n : ℕ) : Inert (hex n) := inert_toDigits 16 n

theorem inert_hex2 : ∀ b, Inert (hex2 b) := forall_byte (by decide +kernel)

theorem inert_escape : ∀ b, Inert (escape b) := forall_byte (by decide +kernel)

theorem Inert.pushEscaped {out : Text} (ho : Inert out) (bytes : Bytes) :
    Inert (pushEscaped out bytes) := ho.append (.flatMap inert_escape)

theorem inert_hexHead (bytes : Bytes) : Inert (hexHead bytes) := by
  refine (Inert.flatMap inert_hex2).append ?_
  split <;> decide

theorem inert_malformed (rdata : Bytes) : Inert (malformed rdata) := by
  rw [malformed]
  split
  · decide
  · exact Inert.append (by decide) (inert_hexHead rdata)

theorem inert_typeName (code : UInt16) : Inert (typeName code) := by
  rw [typeName]
  split
  case h_22 => exact Inert.append (by decide) (inert_decimal _)
  all_goals decide

theorem inert_display (ip : Ipv4Addr) : Inert ip.display := by
  refine Inert.join (by decide) fun p hp => ?_
  obtain ⟨b, -, rfl⟩ := List.mem_map.mp hp
  exact inert_decimal _

theorem inert_part (segments : List UInt16) : Inert (Ipv6Addr.part segments) := by
  refine Inert.join (by decide) fun p hp => ?_
  obtain ⟨s, -, rfl⟩ := List.mem_map.mp hp
  exact inert_hex _

theorem inert_display6 (ip : Ipv6Addr) : Inert ip.display := by
  rw [Ipv6Addr.display]
  split
  · exact Inert.append (by decide) (inert_display _)
  · dsimp only
    split
    · exact ((inert_part _).append (by decide)).append (inert_part _)
    · exact inert_part _

theorem Inert.clampTo {s : Text} (hs : Inert s) (max : ℕ) : Inert (clampTo s max) := by
  rw [Probe.clampTo]
  split
  · exact hs
  · exact (hs.take _).append (by decide)

/-! ### Names -/

/-- The name, or the error that is shown in its place. -/
def NameShown : Except Text (Text × ℕ) → Prop
  | .ok (name, _) => Inert name ∧ name.length ≤ 255
  | .error e => Inert e

theorem yields_refused {e : Text} (he : Inert e) : Yields NameShown (.ok (.error e)) := .ok he

/-- The length that is checked counts bytes, and a character is at least one. -/
theorem length_le_len (s : Text) : s.length ≤ s.len := by
  induction s with
  | nil => exact Nat.le_refl 0
  | cons c s ih =>
      have hc := Char.utf8Size_pos c
      rw [List.length_cons, len_cons]
      omega

theorem inert_of_turnAt {buf : Bytes} {pos : ℕ} {e : Text} (h : turnAt buf pos = .fail e) :
    Inert e := by
  have hall : ∀ e ∈ [lit "truncated name", lit "truncated label",
      lit "truncated compression pointer", lit "reserved label type in name"], Inert e := by decide
  exact hall e (fail_of_turnAt h)

theorem yields_readNameFrom {buf : Bytes} {fuel pos jumps : ℕ} {out : Text} {resume : Option ℕ}
    (hout : Inert out) (hlen : out.length ≤ 255) :
    Yields NameShown (readNameFrom buf fuel out pos jumps resume) := by
  induction fuel generalizing out pos jumps resume with
  | zero => exact .error
  | succ fuel ih =>
      rw [readNameFrom_succ]
      cases ht : turnAt buf pos with
      | fail e => exact yields_refused (inert_of_turnAt ht)
      | root =>
          -- the end of the name, which is the root where no label came before
          refine .ok ?_
          split
          · exact ⟨by decide, by decide⟩
          · exact ⟨hout, hlen⟩
      | label label =>
          refine .ite (fun _ => yields_refused (by decide)) fun h => ih ?_ ?_
          · refine Inert.pushEscaped ?_ label
            split
            · exact hout
            · exact hout.append (by decide)
          · exact Nat.le_trans (length_le_len _) (Nat.not_lt.mp h)
      | pointer target =>
          refine .ite (fun _ => yields_refused (by decide)) fun _ => ?_
          exact .ite (fun _ => yields_refused (by decide)) fun _ => ih hout hlen

theorem yields_readName (buf : Bytes) (start : ℕ) : Yields NameShown (readName buf start) :=
  yields_readNameFrom Inert.nil (Nat.zero_le 255)

/-! ### Record data -/

theorem yields_renderCaa (rdata : Bytes) : Yields Inert (renderCaa rdata) := by
  rw [renderCaa]
  cases rdata[0]? with
  | none => exact .ok (inert_malformed rdata)
  | some flags =>
      cases rdata[1]? with
      | none => exact .ok (inert_malformed rdata)
      | some taglen =>
          refine .ite (fun _ => .ok (inert_malformed rdata)) fun _ => ?_
          cases getRange rdata 2 (2 + taglen.toNat) with
          | none => exact .ok (inert_malformed rdata)
          | some tag =>
              refine .bind_any fun value => .ok ?_
              have htag := (inert_decimal flags.toNat).space.pushEscaped tag
              exact ((htag.append (by decide)).pushEscaped value).append (by decide)

theorem yields_renderTlsa (rdata : Bytes) : Yields Inert (renderTlsa rdata) := by
  rw [renderTlsa]
  cases getRange rdata 0 3 with
  | none => exact .ok (inert_malformed rdata)
  | some head =>
      refine .bind_any fun assoc => .ite (fun _ => .ok (inert_malformed rdata)) fun _ => ?_
      refine .bind_any fun usage => .bind_any fun selector => .bind_any fun matching => .ok ?_
      have hcodes := ((inert_decimal usage.toNat).space.append (inert_decimal selector.toNat)).space
      exact (hcodes.append (inert_decimal matching.toNat)).space.append (inert_hexHead assoc)

theorem yields_renderTxtFrom {rdata : Bytes} {fuel i : ℕ} {out : Text} (hout : Inert out) :
    Yields Inert (renderTxtFrom rdata fuel i out) := by
  induction fuel generalizing i out with
  | zero => exact .error
  | succ fuel ih =>
      rw [renderTxtFrom]
      refine .ite (fun _ => .bind_any fun len => ?_) fun _ => .ok hout
      dsimp only
      cases getRange rdata (i + 1) (i + 1 + len.toNat) with
      | none => exact .ok hout
      | some chunk =>
          refine ih (Inert.append (Inert.pushEscaped (Inert.append ?_ (by decide)) chunk) (by decide))
          split
          · exact hout
          · exact hout.space

theorem yields_renderTxt (rdata : Bytes) : Yields Inert (renderTxt rdata) := by
  refine (yields_renderTxtFrom Inert.nil).bind fun out hout => .ok ?_
  split
  · exact inert_malformed rdata
  · exact hout

theorem yields_renderName (msg : Bytes) (off : ℕ) : Yields Inert (renderName msg off) := by
  refine (yields_readName msg off).bind fun r hr => ?_
  cases r with
  | ok r => exact .ok hr.1
  | error e => exact .ok ((Inert.append (by decide) hr).append (by decide))

theorem yields_renderMx (msg : Bytes) (off : ℕ) (rdata : Bytes) :
    Yields Inert (renderMx msg off rdata) := by
  refine .bind_any fun pref => (yields_readName msg (off + 2)).bind fun r hr => ?_
  cases pref with
  | error e => exact .ok (inert_malformed rdata)
  | ok pref =>
      cases r with
      | error e => exact .ok (inert_malformed rdata)
      | ok r => exact .ok ((inert_decimal _).space.append hr.1)

/-- A number that does not decode ends the rendering. -/
theorem yields_bind_number {α β : Type} {P : β → Prop} {x : Checked (Except Text α)}
    {f : Except Text α → Checked β} (he : ∀ e, Yields P (f (.error e)))
    (hf : ∀ a, Yields P (f (.ok a))) : Yields P (x >>= f) := by
  refine .bind_any fun r => ?_
  cases r with
  | error e => exact he e
  | ok a => exact hf a

/-- The name servers of an SOA record, and its five numbers. -/
theorem yields_renderSoa (msg : Bytes) (off : ℕ) :
    Yields (fun text => ∀ t ∈ text, Inert t) (renderSoa msg off) := by
  have hnone : Yields (fun text : Option Text => ∀ t ∈ text, Inert t) (.ok none) := .ok (by simp)
  refine (yields_readName msg off).bind fun m hm => ?_
  cases m with
  | error e => exact hnone
  | ok m =>
  refine (yields_readName msg m.2).bind fun r hr => ?_
  cases r with
  | error e => exact hnone
  | ok r =>
  refine yields_bind_number (fun _ => hnone) fun serial => ?_
  refine yields_bind_number (fun _ => hnone) fun refresh => ?_
  refine yields_bind_number (fun _ => hnone) fun retry => ?_
  refine yields_bind_number (fun _ => hnone) fun expire => ?_
  refine yields_bind_number (fun _ => hnone) fun minimum => .ok fun t ht => ?_
  cases ht
  refine Inert.join (by decide) fun p hp => ?_
  rcases List.mem_append.mp hp with hp | hp
  · rcases List.mem_pair.mp hp with rfl | rfl
    · exact hm.1
    · exact hr.1
  · obtain ⟨n, -, rfl⟩ := List.mem_map.mp hp
    exact inert_decimal _

/-- Every type of record. -/
theorem yields_rdataText (msg : Bytes) (off : ℕ) (rdata : Bytes) (kind : UInt16) :
    Yields Inert (rdataText msg off rdata kind) := by
  rw [rdataText]
  split
  case h_1 =>
    refine .ok ?_
    split
    · exact inert_display _
    · exact inert_malformed rdata
  case h_2 =>
    refine .ok ?_
    split
    · exact inert_display6 _
    · exact inert_malformed rdata
  case h_3 | h_4 | h_5 | h_6 => exact yields_renderName msg off
  case h_7 => exact yields_renderMx msg off rdata
  case h_8 =>
    refine (yields_renderSoa msg off).bind fun text htext => .ok ?_
    cases text with
    | none => exact inert_malformed rdata
    | some t => exact htext t rfl
  case h_9 => exact yields_renderTxt rdata
  case h_10 => exact yields_renderTlsa rdata
  case h_11 => exact yields_renderCaa rdata
  case h_12 => exact .ok (inert_malformed rdata)

/-! ### What is shown -/

/-- A record whose texts are inert and short. -/
structure Answer.Inert (a : Answer) : Prop where
  name : Probe.Inert a.name
  kind : Probe.Inert a.kind
  data : Probe.Inert a.data
  name_le : a.name.length ≤ 255
  data_le : a.data.length ≤ MAX_RDATA_CHARS

theorem yields_renderRdata (msg : Bytes) (off : ℕ) (rdata : Bytes) (kind : UInt16) :
    Yields (fun t => Inert t ∧ t.length ≤ MAX_RDATA_CHARS) (renderRdata msg off rdata kind) :=
  (yields_rdataText msg off rdata kind).bind fun t ht =>
    .ok ⟨ht.clampTo MAX_RDATA_CHARS, length_clampTo (by decide) t⟩

theorem Answer.IsRead.inert {msg : Bytes} {a : Answer} (h : a.IsRead msg) : a.Inert := by
  obtain ⟨pos, next, off, rdata, kind, hname, -, hkind, hdata⟩ := h
  have hn := yields_readName msg pos _ hname
  have hd := yields_renderRdata msg off rdata kind _ hdata
  exact ⟨hn.1, hkind ▸ inert_typeName kind, hd.1, hn.2, hd.2⟩

/-! ### Greetings -/

theorem rposition_spec {α : Type} {p : α → Bool} {xs : List α} {i last : ℕ} (hi : i < xs.length)
    (hp : p xs[i] = true) (h : rposition p xs = some last) : i ≤ last ∧ last < xs.length := by
  obtain ⟨j, hj, rfl⟩ := Option.map_eq_some_iff.mp h
  obtain ⟨hjl, -, hbefore⟩ := List.findIdx?_eq_some_iff_getElem.mp hj
  rw [List.length_reverse] at hjl
  refine ⟨?_, by omega⟩
  by_contra hlt
  -- seen from the end, the element at `i` comes before the one that was found
  have hmem := hbefore (xs.length - 1 - i) (by omega)
  rw [List.getElem_reverse] at hmem
  simp only [show xs.length - 1 - (xs.length - 1 - i) = i by omega] at hmem
  exact hmem hp

/-- The range trimmed to is in the greeting. -/
theorem bannerText_returns (bytes : Bytes) :
    ∃ text, bannerText bytes = .ok text ∧ ∀ t ∈ text, Inert t ∧ t.length ≤ BANNER_CHARS := by
  rw [bannerText]
  cases hs : bytes.findIdx? fun b => !isAsciiWhitespace b with
  | none => exact ⟨none, rfl, by simp⟩
  | some start =>
      obtain ⟨hlt, hp, -⟩ := List.findIdx?_eq_some_iff_getElem.mp hs
      cases hl : rposition (fun b => !isAsciiWhitespace b) bytes with
      | none => exact ⟨none, rfl, by simp⟩
      | some last =>
          obtain ⟨hle, hlast⟩ := rposition_spec hlt hp hl
          have hrange : getRange bytes start (last + 1) =
              some ((bytes.drop start).take (last + 1 - start)) := if_pos ⟨by omega, hlast⟩
          have hslice : sliceRange bytes start (last + 1) =
              .ok ((bytes.drop start).take (last + 1 - start)) := by rw [sliceRange, hrange]
          refine ⟨_, by dsimp only; rw [hslice]; rfl, fun t ht => ?_⟩
          cases ht
          exact ⟨(Inert.nil.pushEscaped _).clampTo _, length_clampTo (by decide) _⟩

/-- **Hostile text is inert.**  Of a response that is accepted, whatever was asked, no more than
`MAX_ANSWERS` records are shown, and their names, types and data are inert and short.  So is a greeting,
of any bytes, and showing it does not panic. -/
theorem hostile_inert :
    (∀ (msg query : Bytes) (parsed : Parsed), parseResponse msg query = .ok (.ok parsed) →
      parsed.answers.length ≤ MAX_ANSWERS ∧ ∀ a ∈ parsed.answers,
        Inert a.name ∧ Inert a.kind ∧ Inert a.data ∧
          a.name.length ≤ 255 ∧ a.data.length ≤ MAX_RDATA_CHARS) ∧
    ∀ bytes : Bytes, ∃ text, bannerText bytes = .ok text ∧
      ∀ t ∈ text, Inert t ∧ t.length ≤ BANNER_CHARS := by
  refine ⟨fun msg query parsed h => ?_, bannerText_returns⟩
  obtain ⟨hlen, hall⟩ := isRead_parseResponse h
  refine ⟨hlen, fun a ha => ?_⟩
  have hinert := (hall a ha).inert
  exact ⟨hinert.name, hinert.kind, hinert.data, hinert.name_le, hinert.data_le⟩

/-- A TXT record at the name of one escape character, holding a newline and a quote, and a greeting of
a control character between spaces. -/
theorem hostile_inert_escapes :
    (∀ a ∈ [Answer.mk (lit "\\x1b") (lit "TXT") 0 (lit "\"\\x0a\\\"\"")],
      Inert a.name ∧ Inert a.kind ∧ Inert a.data ∧
        a.name.length ≤ 255 ∧ a.data.length ≤ MAX_RDATA_CHARS) ∧
    bannerText [0x20, 0x07, 0x0d] = .ok (some (lit "\\x07")) := by
  have h : parseResponse
      [0, 7, 0x80, 0, 0, 0, 0, 1, 0, 0, 0, 0, 1, 0x1b, 0, 0, 16, 0, 1, 0, 0, 0, 0, 0, 3, 2, 0x0a, 0x22]
      [0, 7, 1, 0, 0, 1, 0, 0, 0, 0, 0, 0, 1, 0x61, 1, 0x62, 0, 0, 16, 0, 1] =
        .ok (.ok ⟨lit "NOERROR", false,
          [⟨lit "\\x1b", lit "TXT", 0, lit "\"\\x0a\\\"\""⟩], false⟩) := by decide +kernel
  exact ⟨(hostile_inert.1 _ _ _ h).2, by decide +kernel⟩

end Tunnel.Probe
