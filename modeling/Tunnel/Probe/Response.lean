import Tunnel.Probe.Query

/-!
# Probe — A response

`parse_response`: the header, the questions and the records of a DNS message, each record's data
rendered for display.  Slices are indexed as the source indexes them, so a function may panic, and
what it returns may be an error of its own.

* `returns_renderRdata`, `returns_readAnswers`, `returns_parseResponse`: no message panics, and every
  loop ends.
* `isRead_parseResponse`: what an accepted message shows are records read from it.
* `decoder_total`: no message panics, with what `read_name` says of its offsets.
-/

namespace Tunnel.Probe
open Support Text

def MAX_ANSWERS : ℕ := 64
def MAX_RDATA_CHARS : ℕ := 240

/-! ### Names of codes -/

def typeName (code : UInt16) : Text :=
  match code.toNat with
  | 1 => lit "A"
  | 2 => lit "NS"
  | 5 => lit "CNAME"
  | 6 => lit "SOA"
  | 12 => lit "PTR"
  | 15 => lit "MX"
  | 16 => lit "TXT"
  | 28 => lit "AAAA"
  | 33 => lit "SRV"
  | 35 => lit "NAPTR"
  | 39 => lit "DNAME"
  | 41 => lit "OPT"
  | 43 => lit "DS"
  | 46 => lit "RRSIG"
  | 47 => lit "NSEC"
  | 48 => lit "DNSKEY"
  | 50 => lit "NSEC3"
  | 52 => lit "TLSA"
  | 64 => lit "SVCB"
  | 65 => lit "HTTPS"
  | 257 => lit "CAA"
  | other => lit "TYPE" ++ decimal other

def rcodeName (rcode : UInt8) : Text :=
  match rcode.toNat with
  | 0 => lit "NOERROR"
  | 1 => lit "FORMERR"
  | 2 => lit "SERVFAIL"
  | 3 => lit "NXDOMAIN"
  | 4 => lit "NOTIMP"
  | 5 => lit "REFUSED"
  | 6 => lit "YXDOMAIN"
  | 7 => lit "YXRRSET"
  | 8 => lit "NXRRSET"
  | 9 => lit "NOTAUTH"
  | 10 => lit "NOTZONE"
  | _ => lit "RCODE?"

/-! ### Record data -/

/-- Shorten to `max` characters, marking the cut with an ellipsis. -/
def clampTo (s : Text) (max : ℕ) : Text :=
  if s.length ≤ max then s else s.take (max - 1) ++ ['…']

theorem length_clampTo {max : ℕ} (hmax : 0 < max) (s : Text) : (clampTo s max).length ≤ max := by
  rw [clampTo]
  split
  · next h => exact h
  · rw [List.length_append, List.length_take, List.length_singleton]
    omega

def clampText (s : Text) : Text := clampTo s MAX_RDATA_CHARS

/-- The first 32 bytes as hex, and an ellipsis for the others. -/
def hexHead (bytes : Bytes) : Text :=
  (bytes.take 32).flatMap hex2 ++ if 32 < bytes.length then ['…'] else []

def malformed (rdata : Bytes) : Text :=
  let s := hexHead rdata
  if s.isEmpty then lit "<empty>" else lit "0x" ++ s

def renderCaa (rdata : Bytes) : Checked Text := do
  match rdata[0]?, rdata[1]? with
  | some flags, some taglen =>
    if taglen = 0 ∨ 15 < taglen then return malformed rdata
    let some tag := getRange rdata 2 (2 + taglen.toNat) | return malformed rdata
    let out := pushEscaped (decimal flags.toNat ++ [' ']) tag
    let value ← sliceFrom rdata (2 + taglen.toNat)
    return pushEscaped (out ++ [' ', '"']) value ++ ['"']
  | _, _ => return malformed rdata

def renderTlsa (rdata : Bytes) : Checked Text := do
  let some head := getRange rdata 0 3 | return malformed rdata
  let assoc ← sliceFrom rdata 3
  if assoc.isEmpty then return malformed rdata
  return decimal (← nth head 0).toNat ++ [' '] ++ decimal (← nth head 1).toNat ++ [' '] ++
    decimal (← nth head 2).toNat ++ [' '] ++ hexHead assoc

/-- `None` where a part does not decode. -/
def renderSoa (msg : Bytes) (off : ℕ) : Checked (Option Text) := do
  let .ok (mname, afterM) ← readName msg off | return none
  let .ok (rname, afterR) ← readName msg afterM | return none
  let .ok serial ← readU32 msg afterR | return none
  let .ok refresh ← readU32 msg (afterR + 4) | return none
  let .ok retry ← readU32 msg (afterR + 8) | return none
  let .ok expire ← readU32 msg (afterR + 12) | return none
  let .ok minimum ← readU32 msg (afterR + 16) | return none
  return some (join [' '] ([mname, rname] ++
    [serial, refresh, retry, expire, minimum].map fun n => decimal n.toNat))

/-- The loop of `render_txt`, for at most `fuel` turns. -/
def renderTxtFrom (rdata : Bytes) : ℕ → ℕ → Text → Checked Text
  | 0, _, _ => .error .outOfFuel
  | fuel + 1, i, out => do
    if i < rdata.length then
      let len := (← nth rdata i).toNat
      let i := i + 1
      let some chunk := getRange rdata i (i + len) | return out
      let i := i + len
      let out := if out.isEmpty then out else out ++ [' ']
      renderTxtFrom rdata fuel i (pushEscaped (out ++ ['"']) chunk ++ ['"'])
    else return out

def renderTxt (rdata : Bytes) : Checked Text := do
  let out ← renderTxtFrom rdata (rdata.length + 1) 0 []
  return if out.isEmpty then malformed rdata else out

/-- A name, or why it does not decode. -/
def renderName (msg : Bytes) (off : ℕ) : Checked Text := do
  match ← readName msg off with
  | .ok (n, _) => return n
  | .error e => return ['<'] ++ e ++ ['>']

def renderMx (msg : Bytes) (off : ℕ) (rdata : Bytes) : Checked Text := do
  match ← readU16 rdata 0, ← readName msg (off + 2) with
  | .ok pref, .ok (n, _) => return decimal pref.toNat ++ [' '] ++ n
  | _, _ => return malformed rdata

/-- One record's data, at its full length.  Names in it may compress against the whole message. -/
def rdataText (msg : Bytes) (off : ℕ) (rdata : Bytes) (kind : UInt16) : Checked Text :=
  match kind.toNat with
  | 1 => .ok (if rdata.length = 4 then (addr rdata 0).display else malformed rdata)
  | 28 => .ok (if h : rdata.length = 16 then Ipv6Addr.display ⟨rdata, h⟩ else malformed rdata)
  | 2 | 5 | 12 | 39 => renderName msg off
  | 15 => renderMx msg off rdata
  | 6 => do return (← renderSoa msg off).getD (malformed rdata)
  | 16 => renderTxt rdata
  | 52 => renderTlsa rdata
  | 257 => renderCaa rdata
  | _ => .ok (malformed rdata)

def renderRdata (msg : Bytes) (off : ℕ) (rdata : Bytes) (kind : UInt16) : Checked Text := do
  return clampText (← rdataText msg off rdata kind)

/-! ### The message -/

/-- One record from a response, already rendered to text. -/
structure Answer where
  name : Text
  kind : Text
  ttl : UInt32
  data : Text
deriving DecidableEq

structure Parsed where
  rcode : Text
  authoritative : Bool
  answers : List Answer
  capped : Bool
deriving DecidableEq

/-- The first question must be the one that was asked. -/
def checkQuestion (query : Bytes) (name : Text) (qtype qclass : UInt16) :
    Checked (Except Text Unit) := do
  match ← readName query 12 with
  | .error e => return .error e
  | .ok (wantName, wantNext) =>
    match ← readU16 query wantNext with
    | .error e => return .error e
    | .ok wantType =>
      if eqIgnoreAsciiCase name wantName = false ∨ qtype ≠ wantType ∨ qclass ≠ 1 then
        return .error (lit "response answers a different question (" ++ name ++ [')'])
      return .ok ()

/-- `n` questions from `pos` on, the next one being question `i`.  Returns the offset past them. -/
def readQuestions (msg query : Bytes) : ℕ → ℕ → ℕ → Checked (Except Text ℕ)
  | 0, _, pos => return .ok pos
  | n + 1, i, pos => do
    match ← readName msg pos with
    | .error e => return .error e
    | .ok (name, pos) =>
      match ← readU16 msg pos with
      | .error e => return .error e
      | .ok qtype =>
        match ← readU16 msg (pos + 2) with
        | .error e => return .error e
        | .ok qclass =>
          let checked ← if i = 0 then checkQuestion query name qtype qclass else pure (.ok ())
          match checked with
          | .error e => return .error e
          | .ok () => readQuestions msg query n (i + 1) (pos + 4)

/-- `n` records from `pos` on, after these.  Also says whether some were left out.  A record that runs
off the end of the message ends the section. -/
def readAnswers (msg : Bytes) : ℕ → ℕ → List Answer → Checked (List Answer × Bool)
  | 0, _, answers => return (answers, false)
  | n + 1, pos, answers => do
    if MAX_ANSWERS ≤ answers.length then return (answers, true)
    match ← readName msg pos with
    | .error _ => return (answers, false)
    | .ok (name, pos) =>
      match ← readU16 msg pos, ← readU16 msg (pos + 2), ← readU32 msg (pos + 4),
        ← readU16 msg (pos + 8) with
      | .ok kind, .ok _, .ok ttl, .ok rdlen =>
        let pos := pos + 10
        let some rdata := getRange msg pos (pos + rdlen.toNat) | return (answers, false)
        let data ← renderRdata msg pos rdata kind
        readAnswers msg n (pos + rdlen.toNat)
          (answers ++ [{ name, kind := typeName kind, ttl, data }])
      | _, _, _, _ => return (answers, false)

def parseResponse (msg query : Bytes) : Checked (Except Text Parsed) := do
  if msg.length < 12 then return .error (lit "response shorter than a DNS header")
  if (← wordAt msg 0) ≠ (← wordAt query 0) then
    return .error (lit "response ID does not match the query")
  let flags ← wordAt msg 2
  if flags &&& 0x8000 = 0 then return .error (lit "response is not marked as a reply")
  let rcode := rcodeName (flags &&& 0x000f).toUInt8
  let authoritative := flags &&& 0x0400 != 0
  let qdcount := (← wordAt msg 4).toNat
  let ancount := (← wordAt msg 6).toNat
  match ← readQuestions msg query qdcount 0 12 with
  | .error e => return .error e
  | .ok pos =>
    let (answers, capped) ← readAnswers msg ancount pos []
    return .ok { rcode, authoritative, answers, capped }

/-! ### No message panics -/

theorem returns_readU16 (buf : Bytes) (pos : ℕ) : Returns (readU16 buf pos) := by
  unfold readU16
  cases h : getRange buf pos (pos + 2) with
  | none => exact .ok _
  | some b =>
      have hl := (length_of_getRange h).2.2
      exact (Returns.wordAt (by omega)).bind fun _ _ => .ok _

theorem returns_readU32 (buf : Bytes) (pos : ℕ) : Returns (readU32 buf pos) := by
  unfold readU32
  cases h : getRange buf pos (pos + 4) with
  | none => exact .ok _
  | some b =>
      have hl := (length_of_getRange h).2.2
      refine (Returns.wordAt (by omega)).bind fun _ _ => ?_
      exact (Returns.wordAt (by omega)).bind fun _ _ => .ok _

/-- A value or an error of the decoder, and what is done with it. -/
theorem Returns.bind_result {α β : Type} {x : Checked (Except Text α)} {f : Except Text α → Checked β}
    (hx : Returns x) (he : ∀ e, Returns (f (.error e))) (hf : ∀ a, Returns (f (.ok a))) :
    Returns (x >>= f) := by
  refine hx.bind fun r _ => ?_
  cases r with
  | error e => exact he e
  | ok a => exact hf a

theorem returns_renderCaa (rdata : Bytes) : Returns (renderCaa rdata) := by
  unfold renderCaa
  cases rdata[0]? with
  | none => exact .ok _
  | some flags =>
      cases rdata[1]? with
      | none => exact .ok _
      | some taglen =>
          refine .ite (fun _ => .ok _) fun _ => ?_
          cases h : getRange rdata 2 (2 + taglen.toNat) with
          | none => exact .ok _
          | some tag =>
              have hl := (length_of_getRange h).2.1
              exact (Returns.sliceFrom (by omega)).bind fun _ _ => .ok _

theorem returns_renderTlsa (rdata : Bytes) : Returns (renderTlsa rdata) := by
  unfold renderTlsa
  cases h : getRange rdata 0 3 with
  | none => exact .ok _
  | some head =>
      obtain ⟨-, hle, hl⟩ := length_of_getRange h
      refine (Returns.sliceFrom (by omega)).bind fun _ _ => .ite (fun _ => .ok _) fun _ => ?_
      refine (Returns.nth (by omega)).bind fun _ _ => ?_
      refine (Returns.nth (by omega)).bind fun _ _ => ?_
      exact (Returns.nth (by omega)).bind fun _ _ => .ok _

theorem returns_renderSoa (msg : Bytes) (off : ℕ) : Returns (renderSoa msg off) := by
  unfold renderSoa
  refine Returns.bind_result (returns_readName ..) (fun _ => .ok _) fun m => ?_
  refine Returns.bind_result (returns_readName ..) (fun _ => .ok _) fun r => ?_
  refine Returns.bind_result (returns_readU32 ..) (fun _ => .ok _) fun _ => ?_
  refine Returns.bind_result (returns_readU32 ..) (fun _ => .ok _) fun _ => ?_
  refine Returns.bind_result (returns_readU32 ..) (fun _ => .ok _) fun _ => ?_
  refine Returns.bind_result (returns_readU32 ..) (fun _ => .ok _) fun _ => ?_
  exact Returns.bind_result (returns_readU32 ..) (fun _ => .ok _) fun _ => .ok _

/-- Each turn reads at least the length of a string. -/
theorem returns_renderTxtFrom (rdata : Bytes) {fuel i : ℕ} (out : Text)
    (hfuel : rdata.length - i < fuel) : Returns (renderTxtFrom rdata fuel i out) := by
  induction fuel generalizing i out with
  | zero => cases hfuel
  | succ fuel ih =>
      rw [renderTxtFrom]
      refine .ite (fun hi => ?_) fun _ => .ok _
      refine (Returns.nth hi).bind fun len _ => ?_
      dsimp only
      cases h : getRange rdata (i + 1) (i + 1 + len.toNat) with
      | none => exact .ok _
      | some chunk => exact ih _ (by omega)

theorem returns_renderTxt (rdata : Bytes) : Returns (renderTxt rdata) :=
  (returns_renderTxtFrom rdata [] (by omega)).bind fun _ _ => .ok _

theorem returns_rdataText (msg : Bytes) (off : ℕ) (rdata : Bytes) (kind : UInt16) :
    Returns (rdataText msg off rdata kind) := by
  have hname : Returns (renderName msg off) :=
    Returns.bind_result (returns_readName ..) (fun _ => .ok _) fun _ => .ok _
  have hmx : Returns (renderMx msg off rdata) := by
    refine Returns.bind_result (returns_readU16 ..) (fun _ => ?_) fun _ => ?_
    · exact (returns_readName ..).bind fun _ _ => .ok _
    · exact Returns.bind_result (returns_readName ..) (fun _ => .ok _) fun _ => .ok _
  unfold rdataText
  split
  case h_1 | h_2 | h_12 => exact .ok _
  case h_3 | h_4 | h_5 | h_6 => exact hname
  case h_7 => exact hmx
  case h_8 => exact (returns_renderSoa ..).bind fun _ _ => .ok _
  case h_9 => exact returns_renderTxt rdata
  case h_10 => exact returns_renderTlsa rdata
  case h_11 => exact returns_renderCaa rdata

theorem returns_renderRdata (msg : Bytes) (off : ℕ) (rdata : Bytes) (kind : UInt16) :
    Returns (renderRdata msg off rdata kind) :=
  (returns_rdataText msg off rdata kind).bind fun _ _ => .ok _

theorem returns_checkQuestion (query : Bytes) (name : Text) (qtype qclass : UInt16) :
    Returns (checkQuestion query name qtype qclass) := by
  unfold checkQuestion
  refine Returns.bind_result (returns_readName ..) (fun _ => .ok _) fun want => ?_
  refine Returns.bind_result (returns_readU16 ..) (fun _ => .ok _) fun _ => ?_
  exact .ite (fun _ => .ok _) fun _ => .ok _

theorem returns_readQuestions (msg query : Bytes) (n i pos : ℕ) :
    Returns (readQuestions msg query n i pos) := by
  induction n generalizing i pos with
  | zero => exact .ok _
  | succ n ih =>
      rw [readQuestions]
      refine Returns.bind_result (returns_readName ..) (fun _ => .ok _) fun name => ?_
      refine Returns.bind_result (returns_readU16 ..) (fun _ => .ok _) fun qtype => ?_
      refine Returns.bind_result (returns_readU16 ..) (fun _ => .ok _) fun qclass => ?_
      dsimp only
      rw [ite_bind]
      refine Returns.bind_result (.ite (fun _ => ?_) fun _ => .ok _) (fun _ => .ok _) fun _ => ih _ _
      exact returns_checkQuestion ..

theorem returns_readAnswers (msg : Bytes) (n pos : ℕ) (answers : List Answer) :
    Returns (readAnswers msg n pos answers) := by
  induction n generalizing pos answers with
  | zero => exact .ok _
  | succ n ih =>
      rw [readAnswers]
      refine .ite (fun _ => .ok _) fun _ => ?_
      refine Returns.bind_result (returns_readName ..) (fun _ => .ok _) fun name => ?_
      refine (returns_readU16 ..).bind fun kind _ => ?_
      refine (returns_readU16 ..).bind fun cls _ => ?_
      refine (returns_readU32 ..).bind fun ttl _ => ?_
      refine (returns_readU16 ..).bind fun rdlen _ => ?_
      cases kind with
      | error e => exact .ok _
      | ok kind =>
      cases cls with
      | error e => exact .ok _
      | ok cls =>
      cases ttl with
      | error e => exact .ok _
      | ok ttl =>
      cases rdlen with
      | error e => exact .ok _
      | ok rdlen =>
          dsimp only
          cases getRange msg (name.2 + 10) (name.2 + 10 + rdlen.toNat) with
          | none => exact .ok _
          | some rdata => exact (returns_renderRdata ..).bind fun _ _ => ih _ _

/-- The ID of a query is all that is read of it by index. -/
theorem returns_parseResponse (msg : Bytes) {query : Bytes} (hq : 2 ≤ query.length) :
    Returns (parseResponse msg query) := by
  unfold parseResponse
  refine .ite (fun _ => .ok _) fun hlen => ?_
  refine (Returns.wordAt (by omega)).bind fun _ _ => ?_
  refine (Returns.wordAt (by omega)).bind fun _ _ => .ite (fun _ => .ok _) fun _ => ?_
  refine (Returns.wordAt (by omega)).bind fun flags _ => .ite (fun _ => .ok _) fun _ => ?_
  refine (Returns.wordAt (by omega)).bind fun qdcount _ => ?_
  refine (Returns.wordAt (by omega)).bind fun ancount _ => ?_
  refine Returns.bind_result (returns_readQuestions ..) (fun _ => .ok _) fun pos => ?_
  exact (returns_readAnswers ..).bind fun _ _ => .ok _

/-! ### Where the records come from -/

/-- The answer is a record of the message: its name read there, its data rendered from bytes there. -/
def Answer.IsRead (msg : Bytes) (a : Answer) : Prop :=
  ∃ pos next off rdata kind, readName msg pos = .ok (.ok (a.name, next)) ∧
    getRange msg off (off + rdata.length) = some rdata ∧ a.kind = typeName kind ∧
    renderRdata msg off rdata kind = .ok a.data

/-- A record joins the others only while there is room for it. -/
theorem isRead_readAnswers {msg : Bytes} {n pos : ℕ} {answers : List Answer}
    (hlen : answers.length ≤ MAX_ANSWERS) (h : ∀ a ∈ answers, a.IsRead msg) :
    Yields (fun r => r.1.length ≤ MAX_ANSWERS ∧ ∀ a ∈ r.1, a.IsRead msg)
      (readAnswers msg n pos answers) := by
  induction n generalizing pos answers with
  | zero => exact .ok ⟨hlen, h⟩
  | succ n ih =>
      rw [readAnswers]
      refine .ite (fun _ => .ok ⟨hlen, h⟩) fun hroom => ?_
      have hread : Yields (fun r => readName msg pos = .ok r) (readName msg pos) := fun _ hr => hr
      refine hread.bind fun name hname => ?_
      cases name with
      | error e => exact .ok ⟨hlen, h⟩
      | ok name =>
      refine .bind_any fun kind => .bind_any fun cls => .bind_any fun ttl => .bind_any fun rdlen => ?_
      split
      · -- the four fields are there
        next kind cls ttl rdlen =>
          dsimp only
          cases hs : getRange msg (name.2 + 10) (name.2 + 10 + rdlen.toNat) with
          | none => exact .ok ⟨hlen, h⟩
          | some rdata =>
              have hrdlen := (length_of_getRange hs).2.2
              rw [Nat.add_sub_cancel_left] at hrdlen
              rw [← hrdlen] at hs
              have hdata : Yields (fun data => renderRdata msg (name.2 + 10) rdata kind = .ok data)
                  (renderRdata msg (name.2 + 10) rdata kind) := fun _ hd => hd
              refine hdata.bind fun data hdata => ih ?_ ?_
              · rw [List.length_append]
                exact Nat.not_le.mp hroom
              · intro a ha
                rcases List.mem_append.mp ha with ha | ha
                · exact h a ha
                · rw [List.mem_singleton.mp ha]
                  exact ⟨pos, name.2, name.2 + 10, rdata, kind, hname, hs, rfl, hdata⟩
      · exact .ok ⟨hlen, h⟩

theorem isRead_parseResponse {msg query : Bytes} {parsed : Parsed}
    (h : parseResponse msg query = .ok (.ok parsed)) :
    parsed.answers.length ≤ MAX_ANSWERS ∧ ∀ a ∈ parsed.answers, a.IsRead msg := by
  suffices hy : Yields (fun r => ∀ parsed, r = .ok parsed →
      parsed.answers.length ≤ MAX_ANSWERS ∧ ∀ a ∈ parsed.answers, a.IsRead msg)
      (parseResponse msg query) from hy _ h parsed rfl
  have hrefused : ∀ e : Text, Yields (fun r : Except Text Parsed => ∀ parsed, r = .ok parsed →
      parsed.answers.length ≤ MAX_ANSWERS ∧ ∀ a ∈ parsed.answers, a.IsRead msg)
      (.ok (.error e)) := by
    intro e
    exact .ok fun _ hp => by cases hp
  rw [parseResponse]
  refine .ite (fun _ => hrefused _) fun _ => .bind_any fun id => .bind_any fun want => ?_
  refine .ite (fun _ => hrefused _) fun _ => .bind_any fun flags => ?_
  refine .ite (fun _ => hrefused _) fun _ => .bind_any fun qdcount => .bind_any fun ancount => ?_
  refine .bind_any fun pos => ?_
  cases pos with
  | error e => exact hrefused e
  | ok pos =>
      have hread : Yields _ (readAnswers msg ancount.toNat pos []) :=
        isRead_readAnswers (Nat.zero_le _) (by simp)
      refine hread.bind fun r hr => .ok fun parsed hp => ?_
      cases hp
      exact hr

/-! ### The law -/

/-- **The decoder is total.**  No message panics, whatever was asked: the walk over its sections ends, as
does every record's rendering and every name, wherever its pointers lead.  The offset past a name is
ahead of it, and in the buffer or at its end. -/
theorem decoder_total :
    (∀ (msg query : Bytes) (id qtype : UInt16) (name : Text),
      buildQuery id name qtype = .ok query → Returns (parseResponse msg query)) ∧
    (∀ (msg : Bytes) (off : ℕ) (rdata : Bytes) (kind : UInt16),
      Returns (renderRdata msg off rdata kind)) ∧
    ∀ (buf : Bytes) (start : ℕ), Returns (readName buf start) ∧
      ∀ (text : Text) (next : ℕ), readName buf start = .ok (.ok (text, next)) →
        start < next ∧ next ≤ buf.length := by
  refine ⟨?_, returns_renderRdata, fun buf start => ⟨returns_readName buf start, ?_⟩⟩
  · intro msg query id qtype name hq
    obtain ⟨rfl, -⟩ := buildQuery_eq hq
    exact returns_parseResponse msg (by simp [queryHeader])
  · intro text next h
    obtain ⟨labels, hn, -⟩ := readName_nameAt h
    exact hn.bounds

/-- A name that points to itself, asked for as `a`. -/
theorem decoder_total_cycle :
    Returns (parseResponse [0, 7, 0x80, 0, 0, 1, 0, 0, 0, 0, 0, 0, 0xc0, 0x0c]
      [0, 7, 1, 0, 0, 1, 0, 0, 0, 0, 0, 0, 1, 0x61, 0, 0, 1, 0, 1]) ∧
    0 < 3 ∧ 3 ≤ ([1, 0x61, 0] : Bytes).length :=
  ⟨decoder_total.1 _ _ 7 1 (lit "a") (by decide +kernel),
    (decoder_total.2.2 [1, 0x61, 0] 0).2 (lit "a") 3 (by decide +kernel)⟩

end Tunnel.Probe
