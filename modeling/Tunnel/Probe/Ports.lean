import Mathlib.Data.Finset.Card
import Mathlib.Data.List.Destutter
import Mathlib.Data.List.Sort
import Tunnel.Text

/-!
# Probe — Port lists

`parse_ports`, and the set of ports a list names: each piece between commas that is not blank is a
port or a range of ports.

The source counts the ports as it goes, repeats included, and refuses a range that takes the count
over `MAX_SCAN_PORTS`; it drops repeats at the end and counts again.

* `parse_ports_iff`: for every text, the result is that of the set the text names exactly when, if
  the text is in order and names few enough ports, no range takes the running count too far.
* `parse_ports_refuses`: a text that names 1024 ports and is refused.
-/

namespace Tunnel.Probe
open Support Text

/-! ### The code -/

def MAX_SCAN_PORTS : ℕ := 1024

inductive PortsError where
  /-- `{s:?} is not a port number` -/
  | notANumber (s : Text)
  /-- `port 0 is not a port` -/
  | zero
  /-- `range {lo}-{hi} runs backwards` -/
  | backwards (lo hi : UInt16)
  /-- `more than {MAX_SCAN_PORTS} ports` -/
  | moreThan
  /-- `no ports given` -/
  | noneGiven
  /-- `{n} ports: at most {MAX_SCAN_PORTS} per scan` -/
  | tooMany (n : ℕ)
deriving DecidableEq

/-- `s.split_once(c)`. -/
def splitOnce (c : Char) : Text → Option (Text × Text)
  | [] => none
  | d :: s => if d = c then some ([], s) else (splitOnce c s).map fun p => (d :: p.1, p.2)

/-- The digits after those of value `n`; none for a character that is no digit, or an overflow. -/
def digitsU16 : Text → ℕ → Option ℕ
  | [], n => some n
  | c :: cs, n =>
    if c.isDigit then
      let n := 10 * n + (c.toNat - '0'.toNat)
      if 65535 < n then none else digitsU16 cs n
    else none

/-- The text after a plus sign, if it begins with one. -/
def unsigned : Text → Text
  | '+' :: digits => digits
  | digits => digits

/-- `s.parse::<u16>()`. -/
def parseU16 (s : Text) : Option UInt16 :=
  if unsigned s = [] then none else (digitsU16 (unsigned s) 0).map UInt16.ofNat

/-- The closure `port`. -/
def port (s : Text) : Except PortsError UInt16 :=
  match parseU16 (trim s) with
  | none => .error (.notANumber s)
  | some p => if p = 0 then .error .zero else .ok p

/-- `lo..=hi`. -/
def portRange (lo hi : UInt16) : List UInt16 :=
  (List.range' lo.toNat (hi.toNat + 1 - lo.toNat)).map UInt16.ofNat

/-- The loop over the pieces. -/
def collect : List Text → List UInt16 → Except PortsError (List UInt16)
  | [], ports => .ok ports
  | piece :: pieces, ports =>
    let piece := trim piece
    if piece.isEmpty then collect pieces ports
    else match splitOnce '-' piece with
      | some (lo, hi) => do
        let lo ← port lo
        let hi ← port hi
        if hi < lo then .error (.backwards lo hi)
        else if MAX_SCAN_PORTS < (hi - lo).toNat + 1 + ports.length then .error .moreThan
        else collect pieces (ports ++ portRange lo hi)
      | none => do collect pieces (ports ++ [← port piece])

/-- `ports.sort_unstable(); ports.dedup()`. -/
def normal (ports : List UInt16) : List UInt16 :=
  (ports.mergeSort fun a b => a ≤ b).destutter (· ≠ ·)

def parsePorts (spec : Text) : Except PortsError (List UInt16) := do
  let ports ← collect (spec.splitOn ',') []
  let ports := normal ports
  if ports.isEmpty then .error .noneGiven
  else if MAX_SCAN_PORTS < ports.length then .error (.tooMany ports.length)
  else .ok ports

/-! ### What a list names -/

/-- The value of digits. -/
def valueOf (digits : Text) : ℕ := digits.foldl (fun n c => 10 * n + (c.toNat - '0'.toNat)) 0

/-- Apart from white space around it the text is a decimal number of a port, a plus sign before it
or not. -/
def IsPort (s : Text) (p : ℕ) : Prop :=
  ∃ digits, (trim s = digits ∨ trim s = '+' :: digits) ∧ digits ≠ [] ∧
    (∀ c ∈ digits, c.isDigit = true) ∧ valueOf digits = p ∧ 1 ≤ p ∧ p ≤ 65535

/-- The ports a piece names, and whether it is a range. -/
structure Span where
  isRange : Bool
  lo : ℕ
  hi : ℕ
deriving DecidableEq

inductive Names : Text → Span → Prop where
  | one {s : Text} {p : ℕ} (h : IsPort s p) : Names s ⟨false, p, p⟩
  | range {lo hi : Text} {a b : ℕ} (ha : IsPort lo a) (hb : IsPort hi b) (hle : a ≤ b) :
      Names (lo ++ '-' :: hi) ⟨true, a, b⟩

/-- The pieces that are not blank. -/
def pieces (spec : Text) : List Text := ((spec.splitOn ',').map trim).filter (· ≠ [])

/-- Each piece names a span. -/
def Reads (spec : Text) (spans : List Span) : Prop := List.Forall₂ Names (pieces spec) spans

namespace Span

def ports (s : Span) : List ℕ := List.range' s.lo (s.hi + 1 - s.lo)

/-- No range takes the count of the ports named, repeats included, over `MAX_SCAN_PORTS`, from `n`
on. -/
def Fit (n : ℕ) : List Span → Prop
  | [] => True
  | s :: spans =>
    (s.isRange = true → n + s.ports.length ≤ MAX_SCAN_PORTS) ∧ Fit (n + s.ports.length) spans

/-- The ports these spans name. -/
def union (spans : List Span) : Finset ℕ := (spans.flatMap ports).toFinset

theorem mem_union {spans : List Span} {p : ℕ} :
    p ∈ union spans ↔ ∃ s ∈ spans, s.lo ≤ p ∧ p ≤ s.hi := by
  simp only [union, List.mem_toFinset, List.mem_flatMap, ports, List.mem_range'_1]
  refine exists_congr fun s => and_congr_right fun _ => ?_
  omega

end Span

/-- The result is what the claim of a set says it is: `ports` are what the pieces name, in order, if
each names something, there is one, and they are no more than `MAX_SCAN_PORTS`. -/
def Agrees (spec : Text) : Prop := ∀ ports, parsePorts spec = .ok ports ↔
  ∃ spans, Reads spec spans ∧ spans ≠ [] ∧ (Span.union spans).card ≤ MAX_SCAN_PORTS ∧
    ports.Pairwise (· < ·) ∧ ∀ p, p ∈ ports ↔ p.toNat ∈ Span.union spans

/-! ### Numbers -/

theorem le_foldl_digits (digits : Text) (n : ℕ) :
    n ≤ digits.foldl (fun n c => 10 * n + (c.toNat - '0'.toNat)) n := by
  induction digits generalizing n with
  | nil => exact Nat.le_refl n
  | cons c digits ih =>
      have hstep : n ≤ 10 * n + (c.toNat - '0'.toNat) := by omega
      exact hstep.trans (ih _)

theorem digitsU16_eq_some {digits : Text} {n m : ℕ} (hn : n ≤ 65535) :
    digitsU16 digits n = some m ↔ (∀ c ∈ digits, c.isDigit = true) ∧
      digits.foldl (fun n c => 10 * n + (c.toNat - '0'.toNat)) n = m ∧ m ≤ 65535 := by
  induction digits generalizing n with
  | nil => simp only [digitsU16, Option.some.injEq, List.foldl_nil]; simp; omega
  | cons c digits ih =>
      rw [digitsU16, List.forall_mem_cons, List.foldl_cons]
      by_cases hc : c.isDigit = true
      · rw [if_pos hc]
        dsimp only
        split
        · next hov =>
            have hle := le_foldl_digits digits (10 * n + (c.toNat - '0'.toNat))
            refine ⟨nofun, fun ⟨_, hm, hle'⟩ => ?_⟩
            omega
        · next hov =>
            rw [ih (by omega)]
            simp [hc]
      · rw [if_neg hc]
        exact ⟨nofun, fun h => absurd h.1.1 hc⟩

theorem digitsU16_zero {digits : Text} {p : UInt16} :
    (digitsU16 digits 0).map UInt16.ofNat = some p ↔
      (∀ c ∈ digits, c.isDigit = true) ∧ valueOf digits = p.toNat := by
  simp only [Option.map_eq_some_iff, digitsU16_eq_some (Nat.zero_le _)]
  constructor
  · rintro ⟨n, ⟨hd, rfl, hle⟩, rfl⟩
    refine ⟨hd, ?_⟩
    rw [UInt16.toNat_ofNat_of_lt' (Nat.lt_succ_of_le hle)]
    rfl
  · rintro ⟨hd, hv⟩
    exact ⟨p.toNat, ⟨hd, hv, Nat.le_of_lt_succ p.toNat_lt⟩, UInt16.ofNat_toNat⟩

theorem unsigned_eq_iff {s digits : Text} (hd : ∀ c ∈ digits, c.isDigit = true) :
    unsigned s = digits ↔ s = digits ∨ s = '+' :: digits := by
  unfold unsigned
  split
  · next rest =>
      refine ⟨fun h => .inr (by rw [h]), fun h => ?_⟩
      rcases h with rfl | h
      · cases hd '+' (List.mem_cons_self ..)
      · exact (List.cons.inj h).2
  · next hs => exact ⟨.inl, fun h => h.elim id fun h => absurd h (hs digits)⟩

theorem parseU16_eq_some {s : Text} {p : UInt16} : parseU16 s = some p ↔
    ∃ digits, (s = digits ∨ s = '+' :: digits) ∧ digits ≠ [] ∧
      (∀ c ∈ digits, c.isDigit = true) ∧ valueOf digits = p.toNat := by
  unfold parseU16
  split
  · next hnil =>
      refine ⟨nofun, fun ⟨digits, hs, hne, hd, _⟩ => ?_⟩
      exact absurd (((unsigned_eq_iff hd).mpr hs).symm.trans hnil) hne
  · next hne =>
      rw [digitsU16_zero]
      constructor
      · rintro ⟨hd, hv⟩
        exact ⟨unsigned s, (unsigned_eq_iff hd).mp rfl, hne, hd, hv⟩
      · rintro ⟨digits, hs, -, hd, hv⟩
        rw [(unsigned_eq_iff hd).mpr hs]
        exact ⟨hd, hv⟩

theorem port_eq_ok {s : Text} {p : UInt16} : port s = .ok p ↔ IsPort s p.toNat := by
  have hp : parseU16 (trim s) = some p ∧ p ≠ 0 ↔ IsPort s p.toNat := by
    have hle : p.toNat ≤ 65535 := Nat.le_of_lt_succ p.toNat_lt
    have hpos : p ≠ 0 ↔ 1 ≤ p.toNat := by
      rw [ne_eq, ← UInt16.toNat_inj, UInt16.toNat_zero]
      omega
    rw [parseU16_eq_some, hpos, IsPort, ← exists_and_right]
    refine exists_congr fun digits => ?_
    tauto
  rw [← hp, port]
  split
  · next hn => simp [hn]
  · next q hq =>
      rw [hq, Option.some.injEq]
      split
      · next hz =>
          refine ⟨nofun, fun ⟨he, hne⟩ => absurd (he ▸ hz) hne⟩
      · next hz =>
          rw [Except.ok.injEq]
          exact ⟨fun he => ⟨he, he ▸ hz⟩, fun h => h.1⟩

theorem IsPort.port {s : Text} {p : ℕ} (h : IsPort s p) :
    ∃ q : UInt16, port s = .ok q ∧ q.toNat = p := by
  obtain ⟨digits, hs, hne, hd, hv, hpos, hle⟩ := h
  have hq : (UInt16.ofNat p).toNat = p := UInt16.toNat_ofNat_of_lt' (Nat.lt_succ_of_le hle)
  exact ⟨_, port_eq_ok.mpr (by rw [hq]; exact ⟨digits, hs, hne, hd, hv, hpos, hle⟩), hq⟩

theorem IsPort.unique {s : Text} {p q : ℕ} (hp : IsPort s p) (hq : IsPort s q) : p = q := by
  obtain ⟨p', ep, rfl⟩ := hp.port
  obtain ⟨q', eq, rfl⟩ := hq.port
  rw [ep, Except.ok.injEq] at eq
  rw [eq]

/-! ### Pieces -/

theorem splitOnce_eq_none {c : Char} {s : Text} : splitOnce c s = none ↔ c ∉ s := by
  induction s with
  | nil => simp [splitOnce]
  | cons d s ih =>
      rw [splitOnce]
      split
      · next h => simp [h]
      · next h => simp [ih, Ne.symm h]

theorem splitOnce_eq_some {c : Char} {s a b : Text} :
    splitOnce c s = some (a, b) ↔ s = a ++ c :: b ∧ c ∉ a := by
  induction s generalizing a with
  | nil => simp [splitOnce]
  | cons d s ih =>
      rw [splitOnce]
      split
      · next h =>
          subst h
          cases a with
          | nil => simp [eq_comm]
          | cons e a =>
              refine ⟨nofun, fun ⟨h, hn⟩ => ?_⟩
              exact absurd (by simp [(List.cons.inj h).1]) hn
      · next h =>
          cases a with
          | nil =>
              refine ⟨fun h => ?_, fun ⟨hs, _⟩ => absurd (List.cons.inj hs).1 h⟩
              obtain ⟨q, -, hq⟩ := Option.map_eq_some_iff.mp h
              cases hq
          | cons e a =>
              simp only [Option.map_eq_some_iff, Prod.mk.injEq, List.cons.injEq, List.cons_append,
                List.mem_cons, not_or, Prod.exists]
              constructor
              · rintro ⟨a', b', hq, ⟨rfl, rfl⟩, rfl⟩
                obtain ⟨rfl, hn⟩ := ih.mp hq
                exact ⟨⟨rfl, rfl⟩, Ne.symm h, hn⟩
              · rintro ⟨⟨rfl, rfl⟩, -, hn⟩
                exact ⟨a, b, ih.mpr ⟨rfl, hn⟩, ⟨rfl, rfl⟩, rfl⟩

theorem mem_dropWhile {α : Type} {p : α → Bool} {x : α} {xs : List α} (hx : x ∈ xs)
    (hp : p x = false) : x ∈ xs.dropWhile p := by
  rw [← List.takeWhile_append_dropWhile (p := p) (l := xs), List.mem_append] at hx
  refine hx.resolve_left fun h => ?_
  rw [List.mem_takeWhile_imp h] at hp
  cases hp

theorem mem_trim {c : Char} {s : Text} (hc : c ∈ s) (hw : isWhitespace c = false) : c ∈ trim s := by
  unfold trim List.rdropWhile
  exact List.mem_reverse.mpr (mem_dropWhile (List.mem_reverse.mpr (mem_dropWhile hc hw)) hw)

theorem IsPort.no_dash {s : Text} {p : ℕ} (h : IsPort s p) : '-' ∉ s := by
  obtain ⟨digits, hs, -, hd, -⟩ := h
  intro hm
  have hm' : '-' ∈ trim s := mem_trim hm (by decide)
  have hno : '-' ∉ digits := fun hm => by cases hd _ hm
  rcases hs with hs | hs
  · exact hno (hs ▸ hm')
  · rw [hs] at hm'
    rcases List.mem_cons.mp hm' with h | h
    · cases h
    · exact hno h

/-- What a piece names, by whether there is a dash in it. -/
theorem names_iff {s : Text} {isRange : Bool} {a b : ℕ} : Names s ⟨isRange, a, b⟩ ↔
    match splitOnce '-' s with
    | some (lo, hi) => IsPort lo a ∧ IsPort hi b ∧ a ≤ b ∧ isRange = true
    | none => IsPort s a ∧ b = a ∧ isRange = false := by
  constructor
  · rintro (hp | ⟨ha, hb, hle⟩)
    · rw [splitOnce_eq_none.mpr hp.no_dash]
      exact ⟨hp, rfl, rfl⟩
    · rw [splitOnce_eq_some.mpr ⟨rfl, ha.no_dash⟩]
      exact ⟨ha, hb, hle, rfl⟩
  · split
    · next lo hi h =>
        rintro ⟨ha, hb, hle, rfl⟩
        rw [(splitOnce_eq_some.mp h).1]
        exact .range ha hb hle
    · rintro ⟨hp, rfl, rfl⟩
      exact .one hp

theorem Names.unique {s : Text} {a b : Span} (ha : Names s a) (hb : Names s b) : a = b := by
  obtain ⟨r, lo, hi⟩ := a
  obtain ⟨r', lo', hi'⟩ := b
  rw [names_iff] at ha hb
  cases hs : splitOnce '-' s with
  | none =>
      rw [hs] at ha hb
      obtain ⟨hp, rfl, rfl⟩ := ha
      obtain ⟨hq, rfl, rfl⟩ := hb
      cases hp.unique hq
      rfl
  | some q =>
      rw [hs] at ha hb
      obtain ⟨hlo, hhi, -, rfl⟩ := ha
      obtain ⟨hlo', hhi', -, rfl⟩ := hb
      cases hlo.unique hlo'
      cases hhi.unique hhi'
      rfl

theorem Reads.unique {spec : Text} {as bs : List Span} (ha : Reads spec as) (hb : Reads spec bs) :
    as = bs := by
  unfold Reads at ha hb
  generalize pieces spec = texts at ha hb
  induction ha generalizing bs with
  | nil => cases hb; rfl
  | cons h _ ih =>
      cases hb with
      | cons h' t' => rw [h.unique h', ih t']

/-! ### The loop -/

theorem length_ports (isRange : Bool) (lo hi : ℕ) :
    (Span.ports ⟨isRange, lo, hi⟩).length = hi + 1 - lo := List.length_range'

theorem collect_blank {piece : Text} (texts : List Text) (ports : List UInt16)
    (h : trim piece = []) : collect (piece :: texts) ports = collect texts ports := by
  rw [collect, h]
  rfl

theorem collect_range {piece lo hi : Text} {texts : List Text} {ports out : List UInt16}
    (hs : splitOnce '-' (trim piece) = some (lo, hi)) : collect (piece :: texts) ports = .ok out ↔
      ∃ a b, port lo = .ok a ∧ port hi = .ok b ∧ a ≤ b ∧
        (b - a).toNat + 1 + ports.length ≤ MAX_SCAN_PORTS ∧
        collect texts (ports ++ portRange a b) = .ok out := by
  have hne : ¬ (trim piece).isEmpty = true := by
    intro h
    rw [List.isEmpty_iff.mp h] at hs
    cases hs
  rw [collect, if_neg hne, hs]
  dsimp only
  cases hlo : port lo with
  | error e => exact ⟨nofun, fun ⟨_, _, h, _⟩ => by cases h⟩
  | ok a =>
      cases hhi : port hi with
      | error e => exact ⟨nofun, fun ⟨_, _, _, h, _⟩ => by cases h⟩
      | ok b =>
          simp only [bind, Except.bind, Except.ok.injEq, exists_eq_left', exists_and_left]
          split
          · next hlt => exact ⟨nofun, fun h => absurd h.1 (UInt16.not_le.mpr hlt)⟩
          · next hle =>
              split
              · next hmany => exact ⟨nofun, fun h => absurd h.2.1 (Nat.not_le.mpr hmany)⟩
              · next hfew =>
                  exact ⟨fun h => ⟨UInt16.not_lt.mp hle, Nat.le_of_not_lt hfew, h⟩, fun h => h.2.2⟩

theorem collect_one {piece : Text} {texts : List Text} {ports out : List UInt16}
    (hne : trim piece ≠ []) (hs : splitOnce '-' (trim piece) = none) :
    collect (piece :: texts) ports = .ok out ↔
      ∃ p, port (trim piece) = .ok p ∧ collect texts (ports ++ [p]) = .ok out := by
  rw [collect, if_neg (by simpa using hne), hs]
  cases hp : port (trim piece) with
  | error e => exact ⟨nofun, fun ⟨_, h, _⟩ => by cases h⟩
  | ok p => simp [bind, Except.bind]

/-- A piece of the loop. -/
theorem collect_cons {piece : Text} {texts : List Text} {ports out : List UInt16}
    (hne : trim piece ≠ []) : collect (piece :: texts) ports = .ok out ↔
      ∃ span, Names (trim piece) span ∧
        (span.isRange = true → ports.length + span.ports.length ≤ MAX_SCAN_PORTS) ∧
        collect texts (ports ++ span.ports.map UInt16.ofNat) = .ok out := by
  have hone : ∀ p : UInt16, (Span.ports ⟨false, p.toNat, p.toNat⟩).map UInt16.ofNat = [p] := by
    intro p
    simp [Span.ports]
  cases hs : splitOnce '-' (trim piece) with
  | none =>
      rw [collect_one hne hs]
      constructor
      · rintro ⟨p, hp, h⟩
        exact ⟨⟨false, p.toNat, p.toNat⟩, .one (port_eq_ok.mp hp), nofun, by rwa [hone]⟩
      · rintro ⟨⟨isRange, a, b⟩, hn, -, h⟩
        rw [names_iff, hs] at hn
        obtain ⟨hp, rfl, rfl⟩ := hn
        obtain ⟨p, e, rfl⟩ := hp.port
        exact ⟨p, e, by rwa [hone] at h⟩
  | some q =>
      obtain ⟨lo, hi⟩ := q
      rw [collect_range hs]
      constructor
      · rintro ⟨a, b, ha, hb, hle, hfew, h⟩
        refine ⟨⟨true, a.toNat, b.toNat⟩, ?_, fun _ => ?_, h⟩
        · rw [names_iff, hs]
          exact ⟨port_eq_ok.mp ha, port_eq_ok.mp hb, UInt16.le_iff_toNat_le.mp hle, rfl⟩
        · rw [UInt16.toNat_sub_of_le _ _ hle] at hfew
          have hle' := UInt16.le_iff_toNat_le.mp hle
          rw [length_ports]
          omega
      · rintro ⟨⟨isRange, a, b⟩, hn, hfit, h⟩
        rw [names_iff, hs] at hn
        obtain ⟨ha, hb, hle, rfl⟩ := hn
        obtain ⟨a, ea, rfl⟩ := ha.port
        obtain ⟨b, eb, rfl⟩ := hb.port
        have hle' : a ≤ b := UInt16.le_iff_toNat_le.mpr hle
        have hfit' := hfit rfl
        rw [length_ports] at hfit'
        refine ⟨a, b, ea, eb, hle', ?_, h⟩
        rw [UInt16.toNat_sub_of_le _ _ hle']
        omega

/-- The loop collects what the pieces name, while no range goes too far. -/
theorem collect_eq_ok {texts : List Text} {ports out : List UInt16} :
    collect texts ports = .ok out ↔ ∃ spans,
      List.Forall₂ Names ((texts.map trim).filter (· ≠ [])) spans ∧
        Span.Fit ports.length spans ∧
        out = ports ++ (spans.flatMap Span.ports).map UInt16.ofNat := by
  induction texts generalizing ports with
  | nil =>
      refine ⟨fun h => ⟨[], .nil, trivial, ?_⟩, fun ⟨spans, hs, _, ho⟩ => ?_⟩
      · cases h
        simp
      · cases hs
        simp [ho, collect]
  | cons piece texts ih =>
      rw [List.map_cons]
      by_cases hne : trim piece = []
      · rw [collect_blank texts ports hne, ih, List.filter_cons_of_neg (by simpa using hne)]
      · rw [collect_cons hne, List.filter_cons_of_pos (by simpa using hne)]
        simp only [ih, List.length_append, List.length_map]
        constructor
        · rintro ⟨span, hn, hfit, spans, hs, hfits, rfl⟩
          refine ⟨span :: spans, .cons hn hs, ⟨hfit, hfits⟩, ?_⟩
          rw [List.flatMap_cons, List.map_append, List.append_assoc]
        · rintro ⟨_, hs, hfits, rfl⟩
          cases hs with
          | @cons _ span _ spans hn hs =>
              refine ⟨span, hn, hfits.1, spans, hs, hfits.2, ?_⟩
              rw [List.flatMap_cons, List.map_append, List.append_assoc]

/-! ### Sorting -/

theorem mem_destutter' {α : Type} [DecidableEq α] {x a : α} {xs : List α} :
    x ∈ xs.destutter' (· ≠ ·) a ↔ x = a ∨ x ∈ xs := by
  induction xs generalizing a with
  | nil => simp
  | cons b xs ih =>
      by_cases h : a = b
      · rw [List.destutter'_cons_neg _ (not_not.mpr h), ih, h, List.mem_cons, or_self_left]
      · rw [List.destutter'_cons_pos _ h, List.mem_cons, ih, List.mem_cons]

theorem mem_destutter {α : Type} [DecidableEq α] {x : α} {xs : List α} :
    x ∈ xs.destutter (· ≠ ·) ↔ x ∈ xs := by
  cases xs with
  | nil => rfl
  | cons a xs => rw [List.destutter_cons', mem_destutter', List.mem_cons]

theorem mem_normal {ports : List UInt16} {p : UInt16} : p ∈ normal ports ↔ p ∈ ports := by
  rw [normal, mem_destutter, List.mem_mergeSort]

theorem pairwise_lt {ports : List UInt16} (hle : ports.Pairwise (· ≤ ·))
    (hne : ports.IsChain (· ≠ ·)) : ports.Pairwise (· < ·) := by
  induction ports with
  | nil => exact .nil
  | cons p ports ih =>
      rw [List.pairwise_cons] at hle
      rw [List.isChain_cons] at hne
      refine List.pairwise_cons.mpr ⟨fun r hr => ?_, ih hle.2 hne.2⟩
      cases ports with
      | nil => cases hr
      | cons q ports =>
          have hpq : p < q := UInt16.lt_of_le_of_ne (hle.1 q (by simp)) (hne.1 q (by simp))
          rcases List.mem_cons.mp hr with rfl | hr
          · exact hpq
          · exact UInt16.lt_of_lt_of_le hpq ((List.pairwise_cons.mp hle.2).1 r hr)

theorem pairwise_normal (ports : List UInt16) : (normal ports).Pairwise (· < ·) := by
  have hsorted : (ports.mergeSort fun a b => a ≤ b).Pairwise fun a b => decide (a ≤ b) = true := by
    refine List.pairwise_mergeSort (fun a b c hab hbc => ?_) (fun a b => ?_) ports
    · exact decide_eq_true (UInt16.le_trans (of_decide_eq_true hab) (of_decide_eq_true hbc))
    · simpa using UInt16.le_total a b
  simp only [decide_eq_true_eq] at hsorted
  exact pairwise_lt (hsorted.sublist (List.destutter_sublist (· ≠ ·) _))
    (List.isChain_destutter (· ≠ ·) _)

/-- Ports in order are told by their numbers. -/
theorem eq_of_mem_iff {as bs : List UInt16} (ha : as.Pairwise (· < ·)) (hb : bs.Pairwise (· < ·))
    (h : ∀ p, p ∈ as ↔ p ∈ bs) : as = bs := by
  have : Std.Irrefl fun a b : UInt16 => a < b := ⟨UInt16.lt_irrefl⟩
  have : Std.Antisymm fun a b : UInt16 => a < b :=
    ⟨fun a b hab hba => absurd hab (UInt16.lt_asymm hba)⟩
  exact List.Pairwise.eq_of_mem_iff ha hb h

/-! ### The result -/

section Result

variable {spec : Text} {spans : List Span} {ports : List UInt16}

theorem IsPort.bounds {s : Text} {p : ℕ} (h : IsPort s p) : p ≤ 65535 := by
  obtain ⟨-, -, -, -, -, -, hle⟩ := h
  exact hle

theorem Names.bounds {s : Text} {span : Span} (h : Names s span) :
    span.lo ≤ span.hi ∧ span.hi ≤ 65535 := by
  cases h with
  | one h => exact ⟨Nat.le_refl _, h.bounds⟩
  | range ha hb hle => exact ⟨hle, hb.bounds⟩

theorem Reads.bounds (h : Reads spec spans) : ∀ s ∈ spans, s.lo ≤ s.hi ∧ s.hi ≤ 65535 := by
  unfold Reads at h
  generalize pieces spec = texts at h
  induction h with
  | nil => simp
  | cons hn _ ih => exact List.forall_mem_cons.mpr ⟨hn.bounds, ih⟩

/-- The ports collected are those named. -/
theorem Reads.mem_normal (h : Reads spec spans) (p : UInt16) :
    p ∈ normal ((spans.flatMap Span.ports).map UInt16.ofNat) ↔ p.toNat ∈ Span.union spans := by
  rw [Tunnel.Probe.mem_normal, Span.union, List.mem_toFinset, List.mem_map]
  constructor
  · rintro ⟨n, hn, rfl⟩
    have hm : n ∈ Span.union spans := List.mem_toFinset.mpr hn
    obtain ⟨s, hs, -, hle⟩ := Span.mem_union.mp hm
    rwa [UInt16.toNat_ofNat_of_lt' (Nat.lt_succ_of_le (hle.trans (h.bounds s hs).2))]
  · exact fun hp => ⟨p.toNat, hp, UInt16.ofNat_toNat⟩

theorem Reads.card (h : Reads spec spans) (hp : ports.Pairwise (· < ·))
    (hm : ∀ p, p ∈ ports ↔ p.toNat ∈ Span.union spans) :
    (Span.union spans).card = ports.length := by
  have hnodup : (ports.map UInt16.toNat).Nodup := by
    refine List.Nodup.map (fun a b => UInt16.toNat_inj.mp) (hp.imp fun {a b} hab => ?_)
    rintro rfl
    exact UInt16.lt_irrefl a hab
  have hset : Span.union spans = (ports.map UInt16.toNat).toFinset := by
    ext n
    rw [List.mem_toFinset, List.mem_map]
    constructor
    · intro hn
      obtain ⟨s, hs, -, hle⟩ := Span.mem_union.mp hn
      have hn' := UInt16.toNat_ofNat_of_lt' (Nat.lt_succ_of_le (hle.trans (h.bounds s hs).2))
      exact ⟨UInt16.ofNat n, (hm _).mpr (hn'.symm ▸ hn), hn'⟩
    · rintro ⟨p, hp, rfl⟩
      exact (hm p).mp hp
  rw [hset, List.toFinset_card_of_nodup hnodup, List.length_map]

/-- What the code returns, and for which texts. -/
theorem parsePorts_eq_ok : parsePorts spec = .ok ports ↔
    ∃ spans, Reads spec spans ∧ Span.Fit 0 spans ∧ spans ≠ [] ∧
      (Span.union spans).card ≤ MAX_SCAN_PORTS ∧ ports.Pairwise (· < ·) ∧
      ∀ p, p ∈ ports ↔ p.toNat ∈ Span.union spans := by
  have hloop : parsePorts spec = .ok ports ↔ ∃ out, collect (spec.splitOn ',') [] = .ok out ∧
      normal out ≠ [] ∧ (normal out).length ≤ MAX_SCAN_PORTS ∧ ports = normal out := by
    rw [parsePorts]
    cases collect (spec.splitOn ',') [] with
    | error e => exact ⟨nofun, fun ⟨_, h, _⟩ => by cases h⟩
    | ok out =>
        simp only [bind, Except.bind, Except.ok.injEq, exists_eq_left']
        split
        · next h => exact ⟨nofun, fun hn => absurd (List.isEmpty_iff.mp h) hn.1⟩
        · next h =>
            split
            · next hmany => exact ⟨nofun, fun hn => absurd hn.2.1 (Nat.not_le.mpr hmany)⟩
            · next hfew =>
                rw [Except.ok.injEq, eq_comm]
                refine ⟨fun he => ⟨?_, Nat.le_of_not_lt hfew, he⟩, fun hn => hn.2.2⟩
                rwa [List.isEmpty_iff] at h
  rw [hloop]
  constructor
  · rintro ⟨out, h, hne, hlen, rfl⟩
    obtain ⟨spans, hr, hfit, rfl⟩ := collect_eq_ok.mp h
    rw [List.nil_append] at hne hlen ⊢
    have hr' : Reads spec spans := hr
    refine ⟨spans, hr', hfit, ?_, ?_, pairwise_normal _, hr'.mem_normal⟩
    · rintro rfl
      exact hne (by simp [normal])
    · rwa [hr'.card (pairwise_normal _) hr'.mem_normal]
  · rintro ⟨spans, hr, hfit, hne, hcard, hp, hm⟩
    have heq : ports = normal ((spans.flatMap Span.ports).map UInt16.ofNat) :=
      eq_of_mem_iff hp (pairwise_normal _) fun p => (hm p).trans (hr.mem_normal p).symm
    refine ⟨_, collect_eq_ok.mpr ⟨spans, hr, hfit, rfl⟩, ?_, ?_, ?_⟩
    · rw [List.nil_append, ← heq]
      rintro rfl
      obtain ⟨s, hs⟩ := List.exists_mem_of_ne_nil _ hne
      have hb := hr.bounds s hs
      have hlo := (hm (UInt16.ofNat s.lo)).mpr
      rw [UInt16.toNat_ofNat_of_lt' (Nat.lt_succ_of_le (hb.1.trans hb.2))] at hlo
      cases hlo (Span.mem_union.mpr ⟨s, hs, Nat.le_refl _, hb.1⟩)
    · rwa [List.nil_append, ← heq, ← hr.card hp hm]
    · rw [List.nil_append, heq]

end Result

/-- **A port list means the set it names.**  For every text the result is that of the set, exactly
when no range takes the running count over `MAX_SCAN_PORTS`, if the text is in order and the ports
it names are no more. -/
theorem parse_ports_iff (spec : Text) : Agrees spec ↔
    ∀ spans, Reads spec spans → spans ≠ [] → (Span.union spans).card ≤ MAX_SCAN_PORTS →
      Span.Fit 0 spans := by
  constructor
  · intro h spans hr hne hcard
    obtain ⟨spans', hr', hfit, -⟩ := parsePorts_eq_ok.mp
      ((h _).mpr ⟨spans, hr, hne, hcard, pairwise_normal _, hr.mem_normal⟩)
    rwa [hr.unique hr']
  · intro h ports
    rw [parsePorts_eq_ok]
    refine exists_congr fun spans => and_congr_right fun hr => ?_
    exact ⟨fun hs => hs.2, fun hs => ⟨h spans hr hs.1 hs.2.1, hs⟩⟩

/-- A range is refused for a port that is in it. -/
theorem parse_ports_refuses : ¬ ∀ spec, Agrees spec := by
  intro h
  have hreads : Reads (lit "5,1-1024") [⟨false, 5, 5⟩, ⟨true, 1, 1024⟩] := by
    have hport : ∀ s n, trim (lit s) = lit s → lit s ≠ [] →
        (lit s).all Char.isDigit = true → valueOf (lit s) = n → 1 ≤ n → n ≤ 65535 →
          IsPort (lit s) n :=
      fun s n ht hne hd hv hpos hle =>
        ⟨lit s, .inl ht, hne, List.all_eq_true.mp hd, hv, hpos, hle⟩
    have hpieces : pieces (lit "5,1-1024") = [lit "5", lit "1" ++ '-' :: lit "1024"] := by decide
    rw [Reads, hpieces]
    refine .cons (.one ?_) (.cons (.range ?_ ?_ (by decide)) .nil) <;>
      exact hport _ _ (by decide) (by decide) (by decide) (by decide) (by decide) (by decide)
  have hcard : (Span.union [⟨false, 5, 5⟩, ⟨true, 1, 1024⟩]).card ≤ MAX_SCAN_PORTS := by
    have hsub : Span.union [⟨false, 5, 5⟩, ⟨true, 1, 1024⟩] ⊆ (List.range' 1 1024).toFinset := by
      intro p hp
      obtain ⟨s, hs, hle⟩ := Span.mem_union.mp hp
      simp only [List.mem_cons, List.not_mem_nil, or_false] at hs
      rw [List.mem_toFinset, List.mem_range'_1]
      rcases hs with rfl | rfl <;> dsimp only at hle <;> omega
    have hlen := (Finset.card_le_card hsub).trans (List.toFinset_card_le _)
    rwa [List.length_range'] at hlen
  have hok := (h _ _).mpr ⟨_, hreads, by decide, hcard, pairwise_normal _, hreads.mem_normal⟩
  have herr : parsePorts (lit "5,1-1024") = .error .moreThan := by decide +kernel
  rw [herr] at hok
  cases hok

end Tunnel.Probe
