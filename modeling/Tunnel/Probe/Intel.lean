import Tunnel.Inspect.Protocol
import Tunnel.Probe.Lookup
import Tunnel.Probe.Ports

/-!
# Probe — What DNS says about an address

`lookup_first_at`, `asn_origin`, `resolve_one` and `intel`: lookups made one after another, each on a
socket of its own, whose failures are missing fields.

* `parseOrigin_record`: an origin record, as Team Cymru writes it, is read back.
* `lookups_declared`: every socket of a lookup is announced before anything goes out on it, and what
  goes out is for the server asked: the host itself is never contacted.
* `intel_ends`: a dossier comes to an end.
-/

namespace Tunnel.Probe
open Support Text
open Inspect (AsnInfo)

/-! ### The records of Team Cymru -/

/-- The digits after those of value `n`; none for a character that is no digit, or an overflow. -/
def digitsU32 : Text → ℕ → Option ℕ
  | [], n => some n
  | c :: cs, n =>
    if c.isDigit then
      let n := 10 * n + (c.toNat - '0'.toNat)
      if 4294967295 < n then none else digitsU32 cs n
    else none

/-- `s.parse::<u32>()`. -/
def parseU32 (s : Text) : Option UInt32 :=
  if unsigned s = [] then none else (digitsU32 (unsigned s) 0).map UInt32.ofNat

/-- `s.split_whitespace().next()`. -/
def firstWord (s : Text) : Option Text :=
  match (s.dropWhile isWhitespace).takeWhile (!isWhitespace ·) with
  | [] => none
  | word => some word

def cymruFields (data : Text) : List Text :=
  ((data.filter (· != '"')).splitOn '|').map trim

def nonEmpty (f : Option Text) : Option Text := f.filter (!·.isEmpty)

def parseOrigin (txt : Text) : Option AsnInfo := do
  let fields := cymruFields txt
  let first ← fields.head?
  let asn ← parseU32 (← firstWord first)
  return { asn, announced := String.ofList (fields[1]?.getD []), org := "" }

example : parseOrigin (lit "\"23028 | 216.90.108.0/24 | US | arin | 1998-09-25\"") =
    some ⟨23028, "216.90.108.0/24", ""⟩ := by decide +kernel

/-! ### Lookups -/

/-- What one lookup is made with: its ID, and its socket. -/
structure Ask where
  id : UInt16
  sock : UdpSocket

def lookupFirstAt (server : SocketAddr) (timeout : ℕ) (name : Text) (qtype : UInt16)
    (beforeSend : UInt16 → Probing Unit) (ask : Ask) : Probing (Option Text) := do
  match buildQuery ask.id name qtype with
  | .error _ => return none
  | .ok query =>
    match ← (queryUdpWith server query timeout beforeSend ask.sock).caught with
    | .error _ => return none
    | .ok bytes =>
      match ← (Traced.ofChecked (parseResponse bytes query) : Probing Parsed).caught with
      | .error _ => return none
      | .ok parsed => return (parsed.answers.find? (·.kind == typeName qtype)).map (·.data)

def lookupFirst (req : Request) (name : Text) (qtype : UInt16) (ask : Ask) :
    Probing (Option Text) :=
  lookupFirstAt req.server req.timeout name qtype req.udpHook ask

/-- The name of an address's origin record. -/
def originName (ip : IpAddr) : Text :=
  let zone := match ip with
    | .v4 _ => lit "origin.asn.cymru.com"
    | .v6 _ => lit "origin6.asn.cymru.com"
  reverseLabels ip ++ ['.'] ++ zone

/-- The name of a network's own record. -/
def asnName (asn : UInt32) : Text := lit "AS" ++ decimal asn.toNat ++ lit ".asn.cymru.com"

def asnOrigin (server : SocketAddr) (ip : IpAddr) (timeout : ℕ)
    (beforeSend : UInt16 → Probing Unit) (origin org : Ask) : Probing (Option AsnInfo) := do
  match ← lookupFirstAt server timeout (originName ip) 16 beforeSend origin with
  | none => return none
  | some txt =>
    match parseOrigin txt with
    | none => return none
    | some info =>
      let found ← lookupFirstAt server timeout (asnName info.asn) 16 beforeSend org
      let org := (found.map cymruFields).bind fun f => nonEmpty f[4]?
      return some { info with org := String.ofList (org.getD []) }

/-- `{s:?}`, of the printable text that records are rendered to. -/
def debugText (s : Text) : Text :=
  ['"'] ++ s.flatMap (fun c => if c = '"' ∨ c = '\\' then ['\\', c] else [c]) ++ ['"']

structure IntelOutcome where
  target : Text
  ptr : Option Text
  asn : Option UInt32
  announced : Option Text
  country : Option Text
  registry : Option Text
  allocated : Option Text
  org : Option Text
  elapsed : ℕ
  note : Option Text

section Intel

-- `target.parse::<IpAddr>()`
variable (parseIp : Text → Option IpAddr)

def resolveOne (req : Request) (ask : Ask) : Probing IpAddr := do
  let target := trim req.target
  if target.isEmpty then .ofExcept (.error (lit "no target: pick a host or type a name"))
  else match parseIp target with
    | some ip => return ip
    | none =>
      match ← lookupFirst req target 1 ask with
      | none => .ofExcept (.error (target ++ lit " does not resolve to an address"))
      | some data =>
        match parseIp data with
        | some ip => return ip
        | none => .ofExcept (.error (target ++ lit " resolved to " ++ debugText data ++
            lit ", which is not an address"))

/-- The organisation behind a network, if there is one to ask about. -/
def orgOf (req : Request) (asn : Option UInt32) (ask : Ask) : Probing (Option Text) :=
  match asn with
  | none => pure none
  | some asn => do
    let name ← lookupFirst req (asnName asn) 16 ask
    return (name.map cymruFields).bind fun f => nonEmpty f[4]?

/-- The lookups of a dossier. -/
structure Asks where
  target : Ask
  ptr : Ask
  origin : Ask
  org : Ask

def intel (req : Request) (asks : Asks) (elapsed : ℕ) : Probing IntelOutcome := do
  let target ← resolveOne parseIp req asks.target
  let ptr ← lookupFirst req (reverseName target) 12 asks.ptr
  let origin ← lookupFirst req (originName target) 16 asks.origin
  let fields := origin.map cymruFields
  let info := origin.bind parseOrigin
  let asn := info.map AsnInfo.asn
  let org ← orgOf req asn asks.org
  return {
    target := target.display
    ptr
    asn
    announced := nonEmpty (info.map fun i => i.announced.toList)
    country := fields.bind fun f => nonEmpty f[2]?
    registry := fields.bind fun f => nonEmpty f[3]?
    allocated := fields.bind fun f => nonEmpty f[4]?
    org
    elapsed
    note := if ptr.isNone && asn.isNone then
        some (lit "no reverse name and no ASN from " ++ req.server.display ++
          lit " — the resolver may not be reaching cymru.com, or the address is not routed")
      else none }

end Intel

/-! ### An origin record is read back -/

theorem le_ofDigitChars (s : Text) (n : ℕ) : n ≤ Nat.ofDigitChars 10 s n := by
  induction s generalizing n with
  | nil => exact Nat.le_refl n
  | cons c s ih =>
      rw [Nat.ofDigitChars_cons]
      exact Nat.le_trans (by omega) (ih _)

theorem digitsU32_eq {s : Text} {n : ℕ} (h : ∀ c ∈ s, c.isDigit = true)
    (hle : Nat.ofDigitChars 10 s n ≤ 4294967295) :
    digitsU32 s n = some (Nat.ofDigitChars 10 s n) := by
  induction s generalizing n with
  | nil => rfl
  | cons c s ih =>
      rw [Nat.ofDigitChars_cons] at hle ⊢
      have hn := Nat.le_trans (le_ofDigitChars s _) hle
      rw [digitsU32, if_pos (h c (by simp))]
      dsimp only
      rw [if_neg (Nat.not_lt.mpr hn)]
      exact ih (fun c hc => h c (List.mem_cons_of_mem _ hc)) hle

theorem isDigit_decimal {n : ℕ} : ∀ c ∈ decimal n, c.isDigit = true := fun _ hc =>
  Nat.isDigit_of_mem_toDigits (by decide) (by decide) hc

theorem parseU32_decimal (n : UInt32) : parseU32 (decimal n.toNat) = some n := by
  have hvalue : Nat.ofDigitChars 10 (decimal n.toNat) 0 = n.toNat :=
    Nat.ofDigitChars_toDigits (by decide) (by decide)
  have hunsigned : unsigned (decimal n.toNat) = decimal n.toNat :=
    (unsigned_eq_iff isDigit_decimal).mpr (.inl rfl)
  have hmax : n.toNat ≤ 4294967295 := Nat.le_of_lt_succ n.toNat_lt
  have hread := digitsU32_eq isDigit_decimal (n := 0) (by rw [hvalue]; exact hmax)
  have hne : decimal n.toNat ≠ [] := Nat.toDigits_ne_nil
  rw [parseU32, hunsigned, if_neg hne, hread, hvalue, Option.map_some,
    UInt32.ofNat_toNat]

theorem filter_intercalate {sep : Char} {p : Char → Bool} (hsep : p sep = true) (fields : List Text) :
    ([sep].intercalate fields).filter p = [sep].intercalate (fields.map (List.filter p)) := by
  induction fields with
  | nil => simp
  | cons f fields ih =>
      cases fields with
      | nil => simp
      | cons f' fields =>
          rw [List.intercalate_cons_cons, List.filter_append, List.filter_append, ih]
          simp [List.intercalate_cons_cons, hsep]

/-- The fields of a record, quoted: what stays of each is what is not a quote. -/
theorem cymruFields_intercalate {fields : List Text} (hne : fields ≠ []) (h : ∀ f ∈ fields, '|' ∉ f) :
    cymruFields ('"' :: ['|'].intercalate fields ++ ['"']) =
      fields.map fun f => trim (f.filter (· != '"')) := by
  have hfilter : ('"' :: ['|'].intercalate fields ++ ['"']).filter (· != '"') =
      ['|'].intercalate (fields.map (List.filter (· != '"'))) := by
    rw [← filter_intercalate (by decide)]
    simp
  have hbars : ∀ f ∈ fields.map (List.filter (· != '"')), '|' ∉ f := by
    intro f hf hc
    obtain ⟨g, hg, rfl⟩ := List.mem_map.mp hf
    exact h g hg (List.mem_of_mem_filter hc)
  rw [cymruFields, hfilter, List.splitOn_intercalate '|' hbars (by simpa using hne), List.map_map]
  rfl

theorem filter_quote {s : Text} (h : '"' ∉ s) : s.filter (· != '"') = s :=
  List.filter_eq_self.mpr fun _ hc => bne_iff_ne.mpr fun he => h (he ▸ hc)

/-- A word with white space after it, or nothing. -/
theorem firstWord_trim {word more : Text} (hne : word ≠ [])
    (hword : ∀ c ∈ word, isWhitespace c = false) (hmore : ∀ c ∈ more.head?, isWhitespace c = true) :
    firstWord (trim (word ++ more)) = some word := by
  -- what is trimmed at the end is of what follows the word
  have hright : ∃ m, m <+: more ∧ (word ++ more).rdropWhile isWhitespace = word ++ m := by
    clear hmore
    induction more using List.reverseRecOn with
    | nil =>
        refine ⟨[], List.nil_prefix, ?_⟩
        rw [List.append_nil, List.rdropWhile_eq_self_iff]
        intro hn
        simp [hword _ (List.getLast_mem hn)]
    | append_singleton more c ih =>
        obtain ⟨m, hm, heq⟩ := ih
        rw [← List.append_assoc]
        by_cases hc : isWhitespace c = true
        · rw [List.rdropWhile_concat_pos _ _ _ hc]
          exact ⟨m, hm.trans (List.prefix_append _ _), heq⟩
        · rw [List.rdropWhile_concat_neg _ _ _ hc]
          exact ⟨more ++ [c], List.prefix_rfl, List.append_assoc _ _ _⟩
  have hleft : ∀ m, (word ++ m).dropWhile isWhitespace = word ++ m := by
    intro m
    refine List.dropWhile_eq_self_iff.mpr fun hl => ?_
    rw [List.getElem_append_left (List.length_pos_of_ne_nil hne)]
    simp [hword _ (List.getElem_mem _)]
  obtain ⟨m, hprefix, hm⟩ := hright
  have hhead : m.takeWhile (!isWhitespace ·) = [] := by
    cases m with
    | nil => rfl
    | cons c m =>
        obtain ⟨rest, rfl⟩ := hprefix
        have hc := hmore c (by simp)
        rw [List.takeWhile_cons, hc]
        rfl
  rw [firstWord, trim, hleft, hm, hleft,
    List.takeWhile_append_of_pos (fun c hc => by simp [hword c hc]), hhead, List.append_nil]
  cases word with
  | nil => exact absurd rfl hne
  | cons c word => rfl

/-- **An origin record is read back**: its first number and its prefix, whatever other networks the
first field names and whatever fields follow. -/
theorem parseOrigin_record (asn : UInt32) {more : Text} {rest : List Text}
    (hmore : ∀ c ∈ more.head?, isWhitespace c = true)
    (hbars : ∀ f ∈ more :: rest, '|' ∉ f)
    (hquotes : ∀ f ∈ more :: rest.take 1, '"' ∉ f) :
    parseOrigin ('"' :: ['|'].intercalate ((decimal asn.toNat ++ more) :: rest) ++ ['"']) =
      some ⟨asn, String.ofList ((rest.head?.map trim).getD []), ""⟩ := by
  have hspace : ∀ c ∈ decimal asn.toNat, isWhitespace c = false := by
    intro c hc
    obtain ⟨hlo, hhi⟩ := Char.isDigit_iff_toNat.mp (isDigit_decimal c hc)
    simp only [isWhitespace]
    grind
  have hdigits : ∀ {d : Char}, d.isDigit = false → d ∉ decimal asn.toNat := by
    intro d hd hc
    rw [isDigit_decimal d hc] at hd
    cases hd
  have hfirst : ∀ f ∈ (decimal asn.toNat ++ more) :: rest, '|' ∉ f := by
    intro f hf
    rcases List.mem_cons.mp hf with rfl | hf
    · exact List.not_mem_append (hdigits rfl) (hbars more (by simp))
    · exact hbars f (List.mem_cons_of_mem _ hf)
  have hfield : (decimal asn.toNat ++ more).filter (· != '"') = decimal asn.toNat ++ more :=
    filter_quote (List.not_mem_append (hdigits rfl) (hquotes more (by simp)))
  have hne : decimal asn.toNat ≠ [] := Nat.toDigits_ne_nil
  have hword := firstWord_trim hne hspace hmore
  rw [parseOrigin, cymruFields_intercalate (List.cons_ne_nil _ _) hfirst]
  simp only [List.map_cons, List.head?_cons, Option.bind_eq_bind, Option.bind_some, hfield, hword,
    parseU32_decimal]
  cases rest with
  | nil => rfl
  | cons f rest =>
      have hf : f.filter (· != '"') = f := filter_quote (hquotes f (by simp))
      simp [hf]

theorem parseOrigin_record_two :
    parseOrigin (lit "\"23028 4134 | 216.90.108.0/24 | \"US\"\"") =
      some ⟨23028, "216.90.108.0/24", ""⟩ := by
  have htext : lit "\"23028 4134 | 216.90.108.0/24 | \"US\"\"" = '"' :: ['|'].intercalate
      ((decimal (23028 : UInt32).toNat ++ lit " 4134 ") ::
        [lit " 216.90.108.0/24 ", lit " \"US\""]) ++ ['"'] := by decide +kernel
  have hprefix : "216.90.108.0/24" = String.ofList
      (([lit " 216.90.108.0/24 ", lit " \"US\""].head?.map trim).getD []) := by decide +kernel
  have hmore : ∀ c ∈ (lit " 4134 ").head?, isWhitespace c = true := by
    intro c hc
    cases hc
    rfl
  have hbars : ∀ f ∈ [lit " 4134 ", lit " 216.90.108.0/24 ", lit " \"US\""], '|' ∉ f := by
    decide +kernel
  have hquotes : ∀ f ∈ lit " 4134 " :: [lit " 216.90.108.0/24 ", lit " \"US\""].take 1, '"' ∉ f := by
    decide +kernel
  rw [htext, hprefix]
  exact parseOrigin_record 23028 hmore hbars hquotes

/-! ### Announced, and to the server alone -/

/-- To the server and, where the lookup is `watched`, from a socket that was announced. -/
def Declared (server : SocketAddr) (watched : Prop) (before : List Effect) : Effect → Prop
  | .announced remote _ _ => remote = server
  | .sent remote localPort tcp _ =>
    remote = server ∧ (watched → .announced remote localPort tcp ∈ before)

/-- So is all that is done. -/
def AllDeclared (server : SocketAddr) (watched : Prop) (trace : List Effect) : Prop :=
  ∀ pre e post, trace = pre ++ e :: post → Declared server watched pre e

/-- The hook announces the socket to the monitor, if there is one. -/
def Hooked (server : SocketAddr) (watched : Prop) (tcp : Bool) (hook : UInt16 → Probing Unit) : Prop :=
  ∀ port, hook port = .emit (.announced server port tcp) ∨ ¬ watched ∧ hook port = pure ()

section Declared

variable {server : SocketAddr} {watched : Prop} {before : List Effect} {req : Request} {query : Bytes}
  {timeout : ℕ}

theorem allDeclared {α : Type} {x : Probing α} (h : x.Keeps (Declared server watched) []) :
    AllDeclared server watched x.trace := by
  intro pre e post he
  rw [Traced.Keeps, he] at h
  exact ordered_split h

theorem Hooked.declared {tcp : Bool} {hook : UInt16 → Probing Unit}
    (hhook : Hooked server watched tcp hook) (port : UInt16) :
    (hook port).Keeps (Declared server watched) before := by
  rcases hhook port with h | ⟨-, h⟩
  · rw [h]
    exact .emit rfl
  · rw [h]
    exact .silent rfl

theorem Hooked.announced {tcp : Bool} {hook : UInt16 → Probing Unit}
    (hhook : Hooked server watched tcp hook) (port : UInt16) (hw : watched) :
    .announced server port tcp ∈ (hook port).trace := by
  rcases hhook port with h | ⟨hn, -⟩
  · rw [h]
    exact List.mem_singleton_self _
  · exact absurd hw hn

theorem queryUdpWith_declared {hook : UInt16 → Probing Unit} {sock : UdpSocket}
    (hhook : Hooked server watched false hook) (hl : watched → sock.localAddr = .ok ()) :
    (queryUdpWith server query timeout hook sock).Keeps (Declared server watched) before := by
  have hhooked : (whenOk sock.localAddr (hook sock.port)).Keeps (Declared server watched)
      before := by
    rw [whenOk]
    split
    · exact hhook.declared _
    · exact .silent rfl
  unfold queryUdpWith
  refine .bind_silent rfl fun _ => .bind_silent rfl fun _ => .bind_silent rfl fun _ => ?_
  refine .bind hhooked fun _ _ => .bind (.emit ⟨rfl, fun hw => List.mem_append_right _ ?_⟩) fun _ _ => ?_
  · rw [hl hw]
    exact hhook.announced _ hw
  · exact .bind_silent rfl fun _ => .bind_silent rfl fun _ => .silent rfl

theorem tcpConnect_declared {hook : UInt16 → Probing Unit} {sock : TcpSocket}
    (hhook : Hooked server watched true hook) :
    (tcpConnect server hook sock).Keeps (Declared server watched) before := by
  unfold tcpConnect
  refine .bind_silent rfl fun _ => .bind_silent rfl fun _ => .bind_silent rfl fun _ => ?_
  refine .bind (hhook.declared _) fun _ _ => .bind (.emit ⟨rfl, fun hw => ?_⟩) fun _ _ => ?_
  · exact List.mem_append_right _ (hhook.announced _ hw)
  · exact .silent rfl

/-- The socket of a connection was announced. -/
theorem tcpConnect_announced {hook : UInt16 → Probing Unit} {sock : TcpSocket}
    (hhook : Hooked server watched true hook) (hw : watched)
    (h : (tcpConnect server hook sock).result = .ok (.ok ())) :
    .announced server sock.port true ∈ (tcpConnect server hook sock).trace := by
  unfold tcpConnect at h ⊢
  obtain ⟨_, hcreate, h⟩ := Traced.bind_eq_ok.mp h
  obtain ⟨_, hbind, h⟩ := Traced.bind_eq_ok.mp h
  obtain ⟨_, haddr, -⟩ := Traced.bind_eq_ok.mp h
  refine Traced.mem_bind_right hcreate (Traced.mem_bind_right hbind ?_)
  exact Traced.mem_bind_right haddr (Traced.mem_bind_left (hhook.announced _ hw))

theorem queryTcp_declared {hook : UInt16 → Probing Unit} {sock : TcpSocket}
    (hhook : Hooked server watched true hook) :
    (queryTcp server query hook sock).Keeps (Declared server watched) before := by
  unfold queryTcp
  refine .bind (Traced.Keeps.caught (tcpConnect_declared hhook)) fun r hr => ?_
  cases r with
  | error e => exact .silent rfl
  | ok u =>
      have hann := fun hw => tcpConnect_announced hhook hw (Traced.caught_eq_ok.mp hr)
      dsimp only
      split
      · exact .silent rfl
      · refine .bind (.emit ⟨rfl, fun hw => List.mem_append_right _ (hann hw)⟩) fun _ _ => ?_
        exact .bind_silent rfl fun _ => .silent rfl

theorem hooked_announce (hm : watched → req.monitored = true) (remote : SocketAddr) (tcp : Bool) :
    Hooked remote watched tcp fun port => req.announce remote port tcp := by
  intro port
  by_cases h : req.monitored = true
  · exact .inl (if_pos h)
  · exact .inr ⟨fun hw => h (hm hw), if_neg h⟩

theorem fetch_declared {socks : Sockets} (hm : watched → req.monitored = true)
    (hl : watched → socks.udp.localAddr = .ok ()) :
    (fetch req query socks).Keeps (Declared req.server watched) before := by
  unfold fetch
  refine .bind (queryUdpWith_declared (hooked_announce hm _ _) hl) fun bytes _ => ?_
  split
  · refine .bind (Traced.Keeps.caught (queryTcp_declared (hooked_announce hm _ _))) fun r _ => ?_
    cases r <;> exact .silent rfl
  · exact .silent rfl

theorem nslookup_declared {parseIp : Text → Option IpAddr} {id : UInt16} {socks : Sockets}
    {elapsed : ℕ} (hm : watched → req.monitored = true)
    (hl : watched → socks.udp.localAddr = .ok ()) :
    (nslookup parseIp req id socks elapsed).Keeps (Declared req.server watched) before := by
  unfold nslookup
  refine .bind_silent rfl fun asked => .bind_silent rfl fun query => ?_
  refine .bind (fetch_declared hm hl) fun reply _ => ?_
  exact .bind_silent rfl fun parsed => .silent rfl

theorem lookupFirstAt_declared {name : Text} {qtype : UInt16} {hook : UInt16 → Probing Unit}
    {ask : Ask} (hhook : Hooked server watched false hook)
    (hl : watched → ask.sock.localAddr = .ok ()) :
    (lookupFirstAt server timeout name qtype hook ask).Keeps (Declared server watched) before := by
  unfold lookupFirstAt
  split
  · exact .silent rfl
  · refine .bind (Traced.Keeps.caught (queryUdpWith_declared hhook hl)) fun r _ => ?_
    cases r with
    | error e => exact .silent rfl
    | ok bytes =>
        refine .bind_silent rfl fun r => ?_
        cases r <;> exact .silent rfl

theorem lookupFirst_declared {name : Text} {qtype : UInt16} {ask : Ask}
    (hm : watched → req.monitored = true) (hl : watched → ask.sock.localAddr = .ok ()) :
    (lookupFirst req name qtype ask).Keeps (Declared req.server watched) before :=
  lookupFirstAt_declared (hooked_announce hm _ _) hl

theorem resolveOne_declared {parseIp : Text → Option IpAddr} {ask : Ask}
    (hm : watched → req.monitored = true) (hl : watched → ask.sock.localAddr = .ok ()) :
    (resolveOne parseIp req ask).Keeps (Declared req.server watched) before := by
  unfold resolveOne
  dsimp only
  split
  · exact .silent rfl
  split
  · exact .silent rfl
  refine .bind (lookupFirst_declared hm hl) fun r _ => ?_
  cases r with
  | none => exact .silent rfl
  | some data =>
      dsimp only
      split <;> exact .silent rfl

theorem asnOrigin_declared {ip : IpAddr} {hook : UInt16 → Probing Unit} {origin org : Ask}
    (hhook : Hooked server watched false hook) (ho : watched → origin.sock.localAddr = .ok ())
    (hg : watched → org.sock.localAddr = .ok ()) :
    (asnOrigin server ip timeout hook origin org).Keeps (Declared server watched) before := by
  unfold asnOrigin
  refine .bind (lookupFirstAt_declared hhook ho) fun r _ => ?_
  cases r with
  | none => exact .silent rfl
  | some txt =>
      dsimp only
      split
      · exact .silent rfl
      · exact .bind (lookupFirstAt_declared hhook hg) fun _ _ => .silent rfl

/-- The system says where each socket is bound. -/
structure Asks.Bound (asks : Asks) : Prop where
  target : asks.target.sock.localAddr = .ok ()
  ptr : asks.ptr.sock.localAddr = .ok ()
  origin : asks.origin.sock.localAddr = .ok ()
  org : asks.org.sock.localAddr = .ok ()

theorem intel_declared {parseIp : Text → Option IpAddr} {asks : Asks} {elapsed : ℕ}
    (hm : watched → req.monitored = true) (hb : watched → asks.Bound) :
    (intel parseIp req asks elapsed).Keeps (Declared req.server watched) before := by
  unfold intel
  refine .bind (resolveOne_declared hm fun hw => (hb hw).target) fun target _ => ?_
  refine .bind (lookupFirst_declared hm fun hw => (hb hw).ptr) fun ptr _ => ?_
  refine .bind (lookupFirst_declared hm fun hw => (hb hw).origin) fun origin _ => ?_
  refine .bind ?_ fun org _ => .silent rfl
  unfold orgOf
  split
  · exact .silent rfl
  · exact .bind (lookupFirst_declared hm fun hw => (hb hw).org) fun _ _ => .silent rfl

/-- Four lookups on sockets that hear nothing of their own. -/
def aDossier : Asks := ⟨⟨7, aUdp⟩, ⟨8, aUdp⟩, ⟨9, aUdp⟩, ⟨10, aUdp⟩⟩

end Declared

/-! ### A dossier ends -/

/-- The waits of all its sockets come to an end. -/
structure Asks.Timely (asks : Asks) (timeout : ℕ) : Prop where
  target : asks.target.sock.Timely timeout
  ptr : asks.ptr.sock.Timely timeout
  origin : asks.origin.sock.Timely timeout
  org : asks.org.sock.Timely timeout

section Ends

variable {req : Request}

/-- A failed lookup is a missing field. -/
theorem lookupFirst_succeeds {name : Text} {qtype : UInt16} {ask : Ask}
    (h : ask.sock.Timely req.timeout) : (lookupFirst req name qtype ask).Succeeds := by
  unfold lookupFirst lookupFirstAt
  split
  · exact Traced.succeeds_pure _
  · next query hquery =>
      obtain ⟨hlen, -⟩ := length_buildQuery hquery
      refine Traced.succeeds_bind (Traced.succeeds_caught
        (queryUdpWith_ends hlen (fun _ => announce_ends _ _ _) h)) fun r => ?_
      cases r with
      | error e => exact Traced.succeeds_pure _
      | ok bytes =>
          refine Traced.succeeds_bind (Traced.succeeds_caught (returns_parseResponse bytes hlen))
            fun r => ?_
          cases r <;> exact Traced.succeeds_pure _

theorem orgOf_succeeds {asn : Option UInt32} {ask : Ask} (h : ask.sock.Timely req.timeout) :
    (orgOf req asn ask).Succeeds := by
  unfold orgOf
  split
  · exact Traced.succeeds_pure _
  · exact Traced.succeeds_bind (lookupFirst_succeeds h) fun _ => Traced.succeeds_pure _

theorem resolveOne_ends {parseIp : Text → Option IpAddr} {ask : Ask}
    (h : ask.sock.Timely req.timeout) : (resolveOne parseIp req ask).Ends := by
  unfold resolveOne
  dsimp only
  split
  · exact Traced.ends_ofExcept _
  split
  · exact Traced.ends_pure _
  refine Traced.ends_bind (lookupFirst_succeeds h).ends fun r _ => ?_
  cases r with
  | none => exact Traced.ends_ofExcept _
  | some data =>
      dsimp only
      split
      · exact Traced.ends_pure _
      · exact Traced.ends_ofExcept _

theorem dossier_ends {parseIp : Text → Option IpAddr} {asks : Asks} {elapsed : ℕ}
    (h : asks.Timely req.timeout) : (intel parseIp req asks elapsed).Ends := by
  unfold intel
  refine Traced.ends_bind (resolveOne_ends h.target) fun target _ => ?_
  refine Traced.ends_bind (lookupFirst_succeeds h.ptr).ends fun ptr _ => ?_
  refine Traced.ends_bind (lookupFirst_succeeds h.origin).ends fun origin _ => ?_
  exact Traced.ends_bind (orgOf_succeeds h.org).ends fun org _ => Traced.ends_pure _

/-- **A dossier ends**, and once its target is resolved it is an outcome: no lookup's failure, and
nothing that is sent to it, is an error of the whole. -/
theorem intel_ends (parseIp : Text → Option IpAddr) (req : Request) (asks : Asks) (elapsed : ℕ)
    (h : asks.Timely req.timeout) :
    Returns (intel parseIp req asks elapsed).result ∧
      ∀ target, (resolveOne parseIp req asks.target).result = .ok (.ok target) →
        ∃ o, (intel parseIp req asks elapsed).result = .ok (.ok o) ∧ o.target = target.display := by
  refine ⟨dossier_ends h, fun target htarget => ?_⟩
  unfold intel
  obtain ⟨ptr, hptr⟩ : (lookupFirst req (reverseName target) 12 asks.ptr).Succeeds :=
    lookupFirst_succeeds h.ptr
  obtain ⟨origin, horigin⟩ : (lookupFirst req (originName target) 16 asks.origin).Succeeds :=
    lookupFirst_succeeds h.origin
  obtain ⟨org, horg⟩ : (orgOf req ((origin.bind parseOrigin).map AsnInfo.asn) asks.org).Succeeds :=
    orgOf_succeeds h.org
  exact ⟨_, Traced.bind_eq_ok.mpr ⟨target, htarget, Traced.bind_eq_ok.mpr ⟨ptr, hptr,
    Traced.bind_eq_ok.mpr ⟨origin, horigin, Traced.bind_eq_ok.mpr ⟨org, horg, rfl⟩⟩⟩⟩, rfl⟩

theorem intel_ends_late :
    Returns (intel (fun _ => some aServer.ip) aRequest aDossier 5).result ∧
      ∀ target, (resolveOne (fun _ => some aServer.ip) aRequest aDossier.target).result =
          .ok (.ok target) →
        ∃ o, (intel (fun _ => some aServer.ip) aRequest aDossier 5).result = .ok (.ok o) ∧
          o.target = target.display := by
  exact intel_ends _ aRequest aDossier 5 ⟨timely_aUdp, timely_aUdp, timely_aUdp, timely_aUdp⟩

end Ends

end Tunnel.Probe
