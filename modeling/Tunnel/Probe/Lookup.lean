import Tunnel.Probe.Question
import Tunnel.Probe.Reverse
import Tunnel.Support.Traced

/-!
# Probe — A lookup

`nslookup`: the question a target stands for, its query sent over UDP, and over TCP where the reply is
truncated, and what the reply holds.  What the sockets do is an argument; what the lookup does to the
world, announcing a socket to the traffic monitor and sending on it, is its trace.

* `awaitReply_ok_iff`, `awaitReply_returns`: the loop that waits for the reply takes the first
  datagram of the query's ID, and ends with the time it was given.
* `lookup_answered`: what an outcome shows was read from the reply to the question it names, and a
  truncated reply is never shown without a note.
* `lookup_ends`: a lookup ends, whatever is sent to it, and no message makes it panic.
-/

namespace Tunnel.Probe
open Support Text

def MAX_UDP_RESPONSE : ℕ := 4096

/-! ### Text -/

/-- A number with a fraction of `width` digits, without the zeros it ends in. -/
def fmtDecimal (integer fraction width : ℕ) : Text :=
  let digits := decimal fraction
  let padded := List.replicate (width - digits.length) '0' ++ digits
  decimal integer ++ if fraction = 0 then [] else '.' :: trimEndMatches '0' padded

/-- `{d:?}` of a `Duration`, in nanoseconds. -/
def debugDuration (d : ℕ) : Text :=
  if 1000000000 ≤ d then fmtDecimal (d / 1000000000) (d % 1000000000) 9 ++ lit "s"
  else if 1000000 ≤ d then fmtDecimal (d / 1000000) (d % 1000000) 6 ++ lit "ms"
  else if 1000 ≤ d then fmtDecimal (d / 1000) (d % 1000) 3 ++ lit "µs"
  else decimal d ++ lit "ns"

example : debugDuration 1500000000 = lit "1.5s" ∧ debugDuration 20000000 = lit "20ms" := by
  decide +kernel

structure SocketAddr where
  ip : IpAddr
  port : UInt16
deriving DecidableEq

def SocketAddr.display (a : SocketAddr) : Text :=
  match a.ip with
  | .v4 ip => ip.display ++ [':'] ++ decimal a.port.toNat
  | .v6 ip => ['['] ++ ip.display ++ lit "]:" ++ decimal a.port.toNat

/-! ### The question -/

inductive RecordType where
  | auto | a | aaaa | ptr | cname | txt | mx | ns | soa | caa | tlsa
deriving DecidableEq, Repr

namespace RecordType

def label : RecordType → Text
  | auto => lit "AUTO"
  | a => lit "A"
  | aaaa => lit "AAAA"
  | ptr => lit "PTR"
  | cname => lit "CNAME"
  | txt => lit "TXT"
  | mx => lit "MX"
  | ns => lit "NS"
  | soa => lit "SOA"
  | caa => lit "CAA"
  | tlsa => lit "TLSA"

/-- `Auto` picks by the shape of the target. -/
def concrete (r : RecordType) (targetIsIp : Bool) : RecordType :=
  match r with
  | auto => if targetIsIp then ptr else a
  | other => other

def code : RecordType → UInt16
  | auto | a => 1
  | ns => 2
  | cname => 5
  | soa => 6
  | ptr => 12
  | mx => 15
  | txt => 16
  | aaaa => 28
  | tlsa => 52
  | caa => 257

end RecordType

structure Request where
  target : Text
  record : RecordType
  server : SocketAddr
  timeout : ℕ
  /-- `monitor.is_some()`. -/
  monitored : Bool

/-! ### The sockets -/

/-- What a lookup does. -/
inductive Effect where
  /-- `mark_own`. -/
  | announced (remote : SocketAddr) (localPort : UInt16) (tcp : Bool)
  /-- Of a connection being opened, no bytes. -/
  | sent (remote : SocketAddr) (localPort : UInt16) (tcp : Bool) (bytes : Bytes)
deriving DecidableEq

abbrev Probing (α : Type) := Traced Effect Text α

/-- A call of the system, with the text of its error. -/
abbrev Called := Except Text Unit

/-- `call.map_err(|e| format!("{context}{e}"))?`. -/
def attempt {α : Type} (context : Text) (call : Except Text α) : Probing α :=
  .ofExcept (call.mapError (context ++ ·))

def Request.announce (req : Request) (remote : SocketAddr) (localPort : UInt16) (tcp : Bool) :
    Probing Unit :=
  if req.monitored then .emit (.announced remote localPort tcp) else pure ()

/-- `if let Ok(_) = call { .. }`. -/
def whenOk (call : Called) (x : Probing Unit) : Probing Unit :=
  if call.isOk then x else pure ()

/-- The hook every UDP lookup to `self.server` passes down the transport. -/
def Request.udpHook (req : Request) (port : UInt16) : Probing Unit :=
  req.announce req.server port false

inductive Received where
  | datagram (bytes : Bytes)
  /-- `WouldBlock` or `TimedOut`. -/
  | timedOut
  | failed (e : Text)
deriving DecidableEq

/-- A turn of the loop that waits: when it begins, and what it receives if it does. -/
structure Wait where
  now : Instant
  received : Received
deriving DecidableEq

/-- A UDP socket, and what the system answers each call with. -/
structure UdpSocket where
  port : UInt16
  bind : Called
  connect : Called
  setTimeout : Called
  localAddr : Called
  send : Called
  /-- When the query has been sent. -/
  opened : Instant
  waits : List Wait

def noResponse (server : SocketAddr) (timeout : ℕ) : Text :=
  lit "no response from " ++ server.display ++ lit " within " ++ debugDuration timeout

/-- A datagram of the query's ID. -/
def isReply (want : UInt16) (buf : Bytes) : Bool := 12 ≤ buf.length && word buf 0 == want

/-- The loop of `query_udp_with`. -/
def awaitReply (server : SocketAddr) (timeout : ℕ) (want : UInt16) (deadline : Instant) :
    List Wait → Checked (Except Text Bytes)
  | [] => .error .outOfFuel
  | w :: ws =>
    let remaining := durationSince deadline w.now
    if remaining = 0 then return .error (noResponse server timeout)
    else match w.received with
      | .datagram bytes =>
        let buf := bytes.take MAX_UDP_RESPONSE
        if isReply want buf then return .ok buf
        else awaitReply server timeout want deadline ws
      | .timedOut => return .error (noResponse server timeout)
      | .failed e => return .error (lit "recv from " ++ server.display ++ lit ": " ++ e)

def queryUdpWith (server : SocketAddr) (query : Bytes) (timeout : ℕ)
    (beforeSend : UInt16 → Probing Unit) (sock : UdpSocket) : Probing Bytes := do
  attempt (lit "bind: ") sock.bind
  attempt (lit "connect " ++ server.display ++ lit ": ") sock.connect
  attempt (lit "set timeout: ") sock.setTimeout
  whenOk sock.localAddr (beforeSend sock.port)
  .emit (.sent server sock.port false query)
  attempt (lit "send to " ++ server.display ++ lit ": ") sock.send
  let want ← .ofChecked ((wordAt query 0).map .ok)
  .ofChecked (awaitReply server timeout want (sock.opened + timeout) sock.waits)

/-- A TCP socket, what the system answers each call with, and what can be read of it. -/
structure TcpSocket where
  port : UInt16
  create : Called
  bind : Called
  localAddr : Called
  connect : Called
  write : Called
  stream : Bytes
  /-- The error of a read past the end of the stream. -/
  readError : Text

/-- `read_exact` of `n` bytes, and what is left. -/
def readExact (n : ℕ) (stream : Bytes) (e : Text) : Except Text (Bytes × Bytes) :=
  if n ≤ stream.length then .ok (stream.take n, stream.drop n) else .error e

def tcpConnect (addr : SocketAddr) (beforeConnect : UInt16 → Probing Unit) (sock : TcpSocket) :
    Probing Unit := do
  .ofExcept sock.create
  .ofExcept sock.bind
  -- the address of a socket of this family is always an internet one
  .ofExcept sock.localAddr
  beforeConnect sock.port
  .emit (.sent addr sock.port true [])
  .ofExcept sock.connect

/-- A message with its length before it. -/
def framed (query : Bytes) : Bytes := beBytes (UInt16.ofNat query.length) ++ query

/-- The message of a stream: a length, and as many bytes. -/
def readMessage (stream : Bytes) (e : Text) : Except Text Bytes := do
  let (hdr, rest) ← (readExact 2 stream e).mapError (lit "tcp read: " ++ ·)
  let n := (word hdr 0).toNat
  if n < 12 then throw (lit "tcp response too short to be a DNS message")
  let (buf, _) ← (readExact n rest e).mapError (lit "tcp read: " ++ ·)
  return buf

def queryTcp (server : SocketAddr) (query : Bytes) (beforeConnect : UInt16 → Probing Unit)
    (sock : TcpSocket) : Probing Bytes := do
  match ← (tcpConnect server beforeConnect sock).caught with
  | .error e => .ofExcept (.error (lit "tcp connect " ++ server.display ++ lit ": " ++ e))
  | .ok () =>
    if 65535 < query.length then .ofExcept (.error (lit "query too long for TCP"))
    else do
      .emit (.sent server sock.port true (framed query))
      attempt (lit "tcp write: ") sock.write
      .ofExcept (readMessage sock.stream sock.readError)

def headerTruncated (msg : Bytes) : Bool := 4 ≤ msg.length && msg.getD 2 0 &&& 0x02 != 0

/-! ### The lookup -/

/-- The sockets of a lookup. -/
structure Sockets where
  udp : UdpSocket
  tcp : TcpSocket

structure DnsOutcome where
  question : Text
  record : RecordType
  server : SocketAddr
  transport : Text
  elapsed : ℕ
  rcode : Text
  authoritative : Bool
  answers : List Answer
  note : Option Text

section Nslookup

-- `target.parse::<IpAddr>()`
variable (parseIp : Text → Option IpAddr)

/-- The name and the record a target stands for. -/
def questionOf (req : Request) : Except Text (Text × RecordType) :=
  let target := trim req.target
  if target.isEmpty then .error (lit "no target: pick a host or type a name")
  else
    let asIp := parseIp target
    let record := req.record.concrete asIp.isSome
    match asIp, record with
    | some ip, .ptr => .ok (reverseName ip, record)
    | some _, other =>
      .error (target ++ lit " is an address: only PTR (or AUTO) applies, not " ++ other.label)
    | none, _ => .ok (target, record)

/-- The reply to a query, the transport it came by, and what there is to say of that. -/
def fetch (req : Request) (query : Bytes) (socks : Sockets) :
    Probing (Bytes × Text × Option Text) := do
  let bytes ← queryUdpWith req.server query req.timeout req.udpHook socks.udp
  if headerTruncated bytes then
    let tcpHook := fun port => req.announce req.server port true
    match ← (queryTcp req.server query tcpHook socks.tcp).caught with
    | .ok full =>
      return (full, lit "tcp", some (lit "response was truncated over UDP; retried over TCP"))
    | .error e =>
      return (bytes, lit "udp", some (lit "response truncated and TCP retry failed: " ++ e))
  else return (bytes, lit "udp", none)

/-- The note of an answer list that was capped. -/
def cappedNote (note : Option Text) : Text :=
  let capped := lit "answer list capped at " ++ decimal MAX_ANSWERS ++ lit " records"
  match note with
  | some n => n ++ lit "; " ++ capped
  | none => capped

def nslookup (req : Request) (id : UInt16) (socks : Sockets) (elapsed : ℕ) :
    Probing DnsOutcome := do
  let (question, record) ← .ofExcept (questionOf parseIp req)
  let query ← .ofExcept (buildQuery id question record.code)
  let (bytes, transport, note) ← fetch req query socks
  let parsed ← .ofChecked (parseResponse bytes query)
  return {
    question
    record
    server := req.server
    transport
    elapsed
    rcode := parsed.rcode
    authoritative := parsed.authoritative
    answers := parsed.answers
    note := if parsed.capped then some (cappedNote note) else note }

end Nslookup

/-! ### The reply -/

/-- A datagram that is not the reply. -/
def Wait.Stale (want : UInt16) (w : Wait) : Prop :=
  ∃ bytes, w.received = .datagram bytes ∧ isReply want (bytes.take MAX_UDP_RESPONSE) = false

/-- The first datagram of the query's ID, which arrives in time. -/
inductive FirstReply (want : UInt16) (deadline : Instant) : List Wait → Bytes → Prop where
  | here {w : Wait} {ws : List Wait} {bytes : Bytes} (intime : w.now < deadline)
      (received : w.received = .datagram bytes)
      (own : isReply want (bytes.take MAX_UDP_RESPONSE) = true) :
      FirstReply want deadline (w :: ws) (bytes.take MAX_UDP_RESPONSE)
  | later {w : Wait} {ws : List Wait} {msg : Bytes} (intime : w.now < deadline)
      (stale : w.Stale want) (rest : FirstReply want deadline ws msg) :
      FirstReply want deadline (w :: ws) msg

section Await

variable {server : SocketAddr} {timeout : ℕ} {want : UInt16} {deadline : Instant} {ws : List Wait}

/-- The loop takes the first reply, and nothing else. -/
theorem awaitReply_ok_iff {msg : Bytes} :
    awaitReply server timeout want deadline ws = .ok (.ok msg) ↔
      FirstReply want deadline ws msg := by
  induction ws with
  | nil => exact ⟨nofun, nofun⟩
  | cons w ws ih =>
      rw [awaitReply]
      dsimp only
      by_cases hnow : durationSince deadline w.now = 0
      · rw [if_pos hnow]
        have hlate : deadline ≤ w.now := Nat.le_of_sub_eq_zero hnow
        refine ⟨nofun, ?_⟩
        rintro (⟨hintime, -, -⟩ | ⟨hintime, -, -⟩) <;> exact absurd hintime (Nat.not_lt.mpr hlate)
      rw [if_neg hnow]
      have hintime : w.now < deadline := Nat.lt_of_sub_ne_zero hnow
      cases hr : w.received with
      | datagram bytes =>
          dsimp only
          by_cases hown : isReply want (bytes.take MAX_UDP_RESPONSE) = true
          · rw [if_pos hown]
            constructor
            · intro h
              cases h
              exact .here hintime hr hown
            · rintro (⟨-, hr', -⟩ | ⟨-, ⟨bytes', hr', hstale⟩, -⟩)
              · cases hr.symm.trans hr'
                rfl
              · cases hr.symm.trans hr'
                rw [hown] at hstale
                cases hstale
          · rw [if_neg hown, ih]
            constructor
            · exact .later hintime ⟨bytes, hr, by simpa using hown⟩
            · rintro (⟨-, hr', hown'⟩ | ⟨-, -, hrest⟩)
              · cases hr.symm.trans hr'
                exact absurd hown' hown
              · exact hrest
      | timedOut =>
          refine ⟨nofun, ?_⟩
          rintro (⟨-, hr', -⟩ | ⟨-, ⟨bytes, hr', -⟩, -⟩) <;> cases hr.symm.trans hr'
      | failed e =>
          refine ⟨nofun, ?_⟩
          rintro (⟨-, hr', -⟩ | ⟨-, ⟨bytes, hr', -⟩, -⟩) <;> cases hr.symm.trans hr'

/-- A turn that is not another datagram in time. -/
def Wait.Last (deadline : Instant) (w : Wait) : Prop :=
  deadline ≤ w.now ∨ ∀ bytes, w.received ≠ .datagram bytes

/-- The loop ends by its deadline, whatever is sent to it. -/
theorem awaitReply_returns (h : ∃ w ∈ ws, w.Last deadline) :
    Returns (awaitReply server timeout want deadline ws) := by
  induction ws with
  | nil => exact absurd h (by simp)
  | cons w ws ih =>
      rw [awaitReply]
      refine .ite (fun _ => .ok _) fun hnow => ?_
      split
      · next bytes hr =>
          refine .ite (fun _ => .ok _) fun _ => ih ?_
          obtain ⟨w', hmem, hlast⟩ := h
          rcases List.mem_cons.mp hmem with rfl | hmem
          · rcases hlast with hlate | hlast
            · exact absurd (Nat.sub_eq_zero_of_le hlate) hnow
            · exact absurd hr (hlast bytes)
          · exact ⟨w', hmem, hlast⟩
      · exact .ok _
      · exact .ok _

end Await

/-- A reply begins with the ID, and has a header. -/
theorem FirstReply.isReply {want : UInt16} {deadline : Instant} {ws : List Wait} {msg : Bytes}
    (h : FirstReply want deadline ws msg) : isReply want msg = true := by
  induction h with
  | here _ _ own => exact own
  | later _ _ _ ih => exact ih

/-- The system lets no UDP socket wait past its deadline. -/
def UdpSocket.Timely (sock : UdpSocket) (timeout : ℕ) : Prop :=
  ∃ w ∈ sock.waits, w.Last (sock.opened + timeout)

section Udp

variable {server : SocketAddr} {query : Bytes} {timeout : ℕ} {hook : UInt16 → Probing Unit}
  {sock : UdpSocket}

theorem queryUdpWith_reply {msg : Bytes} (hq : 2 ≤ query.length)
    (h : (queryUdpWith server query timeout hook sock).result = .ok (.ok msg)) :
    FirstReply (word query 0) (sock.opened + timeout) sock.waits msg := by
  unfold queryUdpWith at h
  obtain ⟨-, -, h⟩ := Traced.bind_eq_ok.mp h
  obtain ⟨-, -, h⟩ := Traced.bind_eq_ok.mp h
  obtain ⟨-, -, h⟩ := Traced.bind_eq_ok.mp h
  obtain ⟨-, -, h⟩ := Traced.bind_eq_ok.mp h
  obtain ⟨-, -, h⟩ := Traced.bind_eq_ok.mp h
  obtain ⟨-, -, h⟩ := Traced.bind_eq_ok.mp h
  obtain ⟨want, hwant, h⟩ := Traced.bind_eq_ok.mp h
  rw [Traced.ofChecked_result, wordAt_eq hq] at hwant
  cases hwant
  exact awaitReply_ok_iff.mp h

/-- A reply comes to a query that was sent. -/
theorem queryUdpWith_sent {msg : Bytes}
    (h : (queryUdpWith server query timeout hook sock).result = .ok (.ok msg)) :
    .sent server sock.port false query ∈
      (queryUdpWith server query timeout hook sock).trace := by
  unfold queryUdpWith at h ⊢
  obtain ⟨_, hbind, h⟩ := Traced.bind_eq_ok.mp h
  obtain ⟨_, hconnect, h⟩ := Traced.bind_eq_ok.mp h
  obtain ⟨_, htimeout, h⟩ := Traced.bind_eq_ok.mp h
  obtain ⟨_, hhook, -⟩ := Traced.bind_eq_ok.mp h
  refine Traced.mem_bind_right hbind (Traced.mem_bind_right hconnect ?_)
  refine Traced.mem_bind_right htimeout (Traced.mem_bind_right hhook ?_)
  exact Traced.mem_bind_left (List.mem_singleton_self _)

theorem attempt_ends {α : Type} (context : Text) (call : Except Text α) :
    (attempt context call).Ends := Traced.ends_ofExcept _

theorem whenOk_ends {call : Called} {x : Probing Unit} (hx : x.Ends) : (whenOk call x).Ends := by
  rw [whenOk]
  split
  · exact hx
  · exact Traced.ends_pure ()

theorem queryUdpWith_ends (hq : 2 ≤ query.length) (hhook : ∀ port, (hook port).Ends)
    (h : sock.Timely timeout) : (queryUdpWith server query timeout hook sock).Ends := by
  unfold queryUdpWith
  refine Traced.ends_bind (attempt_ends _ _) fun _ _ => ?_
  refine Traced.ends_bind (attempt_ends _ _) fun _ _ => ?_
  refine Traced.ends_bind (attempt_ends _ _) fun _ _ => ?_
  refine Traced.ends_bind (whenOk_ends (hhook _)) fun _ _ => ?_
  refine Traced.ends_bind (Traced.ends_emit _) fun _ _ => ?_
  refine Traced.ends_bind (attempt_ends _ _) fun _ _ => ?_
  refine Traced.ends_bind ?_ fun want _ => awaitReply_returns h
  rw [wordAt_eq hq]
  exact .ok _

end Udp

/-! ### An outcome -/

/-- What an outcome shows is read from the message, a reply of these sockets to the question it
names. -/
structure Grounded (req : Request) (id : UInt16) (socks : Sockets) (o : DnsOutcome)
    (msg : Bytes) : Prop where
  /-- The first datagram of the ID, unless that is truncated and TCP has a message. -/
  source : ∃ datagram,
    FirstReply id (socks.udp.opened + req.timeout) socks.udp.waits datagram ∧
      (msg = datagram ∧ o.transport = lit "udp" ∨ headerTruncated datagram = true ∧
        readMessage socks.tcp.stream socks.tcp.readError = .ok msg ∧ o.transport = lit "tcp")
  own : word msg 0 = id
  reply : word msg 2 &&& 0x8000 ≠ 0
  /-- The first question it repeats, if it repeats one, is for the record asked for, of the class IN,
  and for the name, label by label; where a label has a dot byte, only the text is the same. -/
  repeated : 1 ≤ (word msg 4).toNat → ∃ labels next, NameAt msg 12 labels next ∧
    next + 4 ≤ msg.length ∧ word msg next = o.record.code ∧ word msg (next + 2) = 1 ∧
    eqIgnoreAsciiCase (render labels) (render (labelsOf o.question)) = true ∧
    ((∀ l ∈ labels, 0x2e ∉ l) → foldCase labels = foldCase (labelsOf o.question))
  read : ∀ a ∈ o.answers, a.IsRead msg
  length_le : o.answers.length ≤ MAX_ANSWERS
  /-- A partial answer is never shown as if it were the whole one. -/
  whole : headerTruncated msg = true → o.note ≠ none

section Nslookup

variable {parseIp : Text → Option IpAddr} {req : Request} {id : UInt16} {socks : Sockets}
  {elapsed : ℕ} {query : Bytes}

theorem queryTcp_message {hook : UInt16 → Probing Unit} {sock : TcpSocket} {msg : Bytes}
    (h : (queryTcp req.server query hook sock).result = .ok (.ok msg)) :
    readMessage sock.stream sock.readError = .ok msg := by
  unfold queryTcp at h
  obtain ⟨r, -, h⟩ := Traced.bind_eq_ok.mp h
  cases r with
  | error e => cases h
  | ok u =>
      dsimp only at h
      split at h
      · cases h
      obtain ⟨-, -, h⟩ := Traced.bind_eq_ok.mp h
      obtain ⟨-, -, h⟩ := Traced.bind_eq_ok.mp h
      exact Except.ok.inj h

/-- Where the message comes from, and what is said of it. -/
theorem fetch_source {msg : Bytes} {transport : Text} {note : Option Text} (hq : 2 ≤ query.length)
    (h : (fetch req query socks).result = .ok (.ok (msg, transport, note))) :
    ∃ datagram,
      FirstReply (word query 0) (socks.udp.opened + req.timeout) socks.udp.waits datagram ∧
      (msg = datagram ∧ transport = lit "udp" ∨ headerTruncated datagram = true ∧
        readMessage socks.tcp.stream socks.tcp.readError = .ok msg ∧ transport = lit "tcp") ∧
      (headerTruncated datagram = true → note ≠ none) := by
  unfold fetch at h
  obtain ⟨datagram, hudp, h⟩ := Traced.bind_eq_ok.mp h
  refine ⟨datagram, queryUdpWith_reply hq hudp, ?_⟩
  by_cases htrunc : headerTruncated datagram = true
  · rw [if_pos htrunc] at h
    obtain ⟨r, htcp, h⟩ := Traced.bind_eq_ok.mp h
    cases r with
    | ok full =>
        cases h
        exact ⟨.inr ⟨htrunc, queryTcp_message (Traced.caught_eq_ok.mp htcp), rfl⟩, fun _ => nofun⟩
    | error e =>
        cases h
        exact ⟨.inl ⟨rfl, rfl⟩, fun _ => nofun⟩
  · rw [if_neg htrunc] at h
    cases h
    exact ⟨.inl ⟨rfl, rfl⟩, fun ht => absurd ht htrunc⟩

theorem fetch_sent {r : Bytes × Text × Option Text}
    (h : (fetch req query socks).result = .ok (.ok r)) :
    .sent req.server socks.udp.port false query ∈ (fetch req query socks).trace := by
  unfold fetch at h ⊢
  obtain ⟨datagram, hudp, -⟩ := Traced.bind_eq_ok.mp h
  exact Traced.mem_bind_left (queryUdpWith_sent hudp)

theorem length_buildQuery {name : Text} {qtype : UInt16} (h : buildQuery id name qtype = .ok query) :
    2 ≤ query.length ∧ word query 0 = id := by
  obtain ⟨rfl, -, -⟩ := buildQuery_eq h
  exact ⟨by simp [queryHeader], be16_beBytes id⟩

theorem announce_ends (remote : SocketAddr) (localPort : UInt16) (tcp : Bool) :
    (req.announce remote localPort tcp).Ends := by
  rw [Request.announce]
  split
  · exact Traced.ends_emit _
  · exact Traced.ends_pure ()

theorem tcpConnect_ends {addr : SocketAddr} {hook : UInt16 → Probing Unit} {sock : TcpSocket}
    (hhook : ∀ port, (hook port).Ends) : (tcpConnect addr hook sock).Ends := by
  unfold tcpConnect
  refine Traced.ends_bind (Traced.ends_ofExcept _) fun _ _ => ?_
  refine Traced.ends_bind (Traced.ends_ofExcept _) fun _ _ => ?_
  refine Traced.ends_bind (Traced.ends_ofExcept _) fun _ _ => ?_
  refine Traced.ends_bind (hhook _) fun _ _ => ?_
  exact Traced.ends_bind (Traced.ends_emit _) fun _ _ => Traced.ends_ofExcept _

theorem queryTcp_ends {hook : UInt16 → Probing Unit} {sock : TcpSocket}
    (hhook : ∀ port, (hook port).Ends) : (queryTcp req.server query hook sock).Ends := by
  unfold queryTcp
  refine Traced.ends_bind (Traced.succeeds_caught (tcpConnect_ends hhook)).ends fun r _ => ?_
  cases r with
  | error e => exact Traced.ends_ofExcept _
  | ok u =>
      dsimp only
      split
      · exact Traced.ends_ofExcept _
      · refine Traced.ends_bind (Traced.ends_emit _) fun _ _ => ?_
        exact Traced.ends_bind (attempt_ends _ _) fun _ _ => Traced.ends_ofExcept _

theorem fetch_ends (hq : 2 ≤ query.length) (h : socks.udp.Timely req.timeout) :
    (fetch req query socks).Ends := by
  unfold fetch
  refine Traced.ends_bind (queryUdpWith_ends hq (fun _ => announce_ends _ _ _) h) fun bytes _ => ?_
  split
  · refine Traced.ends_bind
      (Traced.succeeds_caught (queryTcp_ends fun _ => announce_ends _ _ _)).ends fun r _ => ?_
    cases r <;> exact Traced.ends_pure _
  · exact Traced.ends_pure _

theorem nslookup_ends (h : socks.udp.Timely req.timeout) :
    (nslookup parseIp req id socks elapsed).Ends := by
  unfold nslookup
  refine Traced.ends_bind (Traced.ends_ofExcept _) fun asked _ => ?_
  refine Traced.ends_bind (Traced.ends_ofExcept _) fun query hquery => ?_
  obtain ⟨hlen, -⟩ := length_buildQuery (Except.ok.inj hquery)
  refine Traced.ends_bind (fetch_ends hlen h) fun reply _ => ?_
  refine Traced.ends_bind ?_ fun parsed _ => Traced.ends_pure _
  exact returns_parseResponse _ hlen

/-- **A lookup ends**: whatever is sent to its sockets, it returns an outcome or an error, and nothing
it reads makes it panic. -/
theorem lookup_ends (parseIp : Text → Option IpAddr) (req : Request) (id : UInt16)
    (socks : Sockets) (elapsed : ℕ) (h : socks.udp.Timely req.timeout) :
    Returns (nslookup parseIp req id socks elapsed).result := nslookup_ends h

end Nslookup

/-! ### A lookup of `a.b` -/

/-- A server, at `192.0.2.1`. -/
def aServer : SocketAddr := ⟨.v4 ⟨192, 0, 2, 1⟩, 53⟩

def aRequest : Request := ⟨lit " a.b", .auto, aServer, secs 3, true⟩

/-- A reply of another ID, which comes first. -/
def lateReply : Bytes := [0, 6, 0x80, 0, 0, 0, 0, 0, 0, 0, 0, 0]

def aReply : Bytes := [0, 7, 0x80, 0, 0, 1, 0, 0, 0, 0, 0, 0, 1, 0x41, 1, 0x42, 0, 0, 1, 0, 1]

/-- Both come in time. -/
def aUdp : UdpSocket where
  port := 40000
  bind := .ok ()
  connect := .ok ()
  setTimeout := .ok ()
  localAddr := .ok ()
  send := .ok ()
  opened := 0
  waits := [⟨1, .datagram lateReply⟩, ⟨2, .datagram aReply⟩, ⟨3, .timedOut⟩]

def aTcp : TcpSocket where
  port := 40001
  create := .ok ()
  bind := .ok ()
  localAddr := .ok ()
  connect := .error (lit "connection refused")
  write := .ok ()
  stream := []
  readError := lit "unexpected end of file"

/-- What is shown of the reply. -/
def aOutcome : DnsOutcome :=
  ⟨lit "a.b", .a, aServer, lit "udp", 5, lit "NOERROR", false, [], none⟩

theorem timely_aUdp : aUdp.Timely aRequest.timeout :=
  ⟨⟨3, .timedOut⟩, by simp [aUdp], .inr nofun⟩

theorem lookup_ends_late :
    Returns (nslookup (fun _ => none) aRequest 7 ⟨aUdp, aTcp⟩ 5).result :=
  lookup_ends _ aRequest 7 ⟨aUdp, aTcp⟩ 5 timely_aUdp

end Tunnel.Probe
