import Tunnel.Text

/-!
# Portmap — NAT-PMP on the wire

The requests a lease is asked for with, what is checked of a response before any of it is trusted
(`check_header`, `parse_mapping`), and `exchange`: a request sent at most three times, and the first
datagram that comes back.

What the sockets do at an attempt is an `Attempt`, so that a gateway is any source of datagrams.

* `returns_parseMapping`, `returns_parseExternalAddress`: no response panics.
-/

namespace Tunnel.Portmap
open Support Text

def OP_EXTERNAL : UInt8 := 0
def OP_MAP_UDP : UInt8 := 1
def OP_MAP_TCP : UInt8 := 2
def RESPONSE_BIT : UInt8 := 0x80

def MAP_RESPONSE_LEN : ℕ := 16
def ADDR_RESPONSE_LEN : ℕ := 12

/-- In milliseconds. -/
def ATTEMPTS : List ℕ := [250, 500, 1000]

inductive Proto where
  | udp
  | tcp
deriving DecidableEq

def Proto.opcode : Proto → UInt8
  | .udp => OP_MAP_UDP
  | .tcp => OP_MAP_TCP

/-- One granted mapping. -/
structure Mapping where
  external : UInt16
  lifetime : ℕ
  epoch : UInt32
deriving DecidableEq

/-! ### Requests -/

/-- `w.to_be_bytes()`. -/
def beBytes32 (w : UInt32) : Bytes := beBytes (w >>> 16).toUInt16 ++ beBytes w.toUInt16

def buildRequest (opcode : UInt8) (internal suggested : UInt16) (lifetime : UInt32) : Bytes :=
  -- the version, and two reserved bytes
  [0, opcode, 0, 0] ++ beBytes internal ++ beBytes suggested ++ beBytes32 lifetime

/-! ### Responses -/

def resultText (code : UInt16) : Text :=
  match code.toNat with
  | 1 => lit "gateway does not support this NAT-PMP version"
  | 2 =>
    lit "not authorised — the exit is refusing to forward for this peer " ++
      lit "(on Proton: regenerate the WireGuard config with NAT-PMP enabled, " ++
      lit "and check the server supports port forwarding)"
  | 3 => lit "gateway has no network connectivity"
  | 4 => lit "gateway is out of resources"
  | 5 => lit "gateway does not support this operation"
  | _ => lit "unrecognised result code"

/-- The fields every response shares. -/
def checkHeader (buf : Bytes) (wantOpcode : UInt8) (minLen : ℕ) : Checked (Except Text Unit) := do
  if buf.length < minLen then
    return .error (lit "short response: " ++ decimal buf.length ++ lit " bytes, want " ++
      decimal minLen)
  let version ← nth buf 0
  if version ≠ 0 then
    return .error (lit "unexpected protocol version " ++ decimal version.toNat)
  let opcode ← nth buf 1
  if opcode ≠ wantOpcode ||| RESPONSE_BIT then
    return .error (lit "response opcode " ++ decimal opcode.toNat ++
      lit " does not answer request " ++ decimal wantOpcode.toNat)
  let code ← wordAt buf 2
  if code ≠ 0 then
    return .error (lit "gateway refused: " ++ resultText code ++ lit " (code " ++
      decimal code.toNat ++ [')'])
  return .ok ()

/-- `u32::from_be_bytes([b[i], b[i + 1], b[i + 2], b[i + 3]])`. -/
def u32At (b : Bytes) (i : ℕ) : Checked UInt32 := do
  return UInt32.ofNat ((← wordAt b i).toNat * 65536 + (← wordAt b (i + 2)).toNat)

def parseMapping (buf : Bytes) (proto : Proto) : Checked (Except Text Mapping) := do
  match ← checkHeader buf proto.opcode MAP_RESPONSE_LEN with
  | .error e => return .error e
  | .ok () =>
    let external ← wordAt buf 10
    if external = 0 then return .error (lit "gateway granted port 0")
    let lifetime := secs (← u32At buf 12).toNat
    return .ok { external, lifetime, epoch := ← u32At buf 4 }

def parseExternalAddress (buf : Bytes) : Checked (Except Text Ipv4Addr) := do
  match ← checkHeader buf OP_EXTERNAL ADDR_RESPONSE_LEN with
  | .error e => return .error e
  | .ok () => return .ok (← addrAt buf 8)

/-! ### Exchanges -/

/-- What the sockets do when a request is sent.  The system's own errors are texts. -/
inductive Attempt where
  | unbound (e : Text)
  | unrouted (e : Text)
  | noTimeout
  | unsent (e : Text)
  | silent
  | answered (datagram : Bytes)
deriving DecidableEq

/-- `send` succeeds. -/
def Attempt.sends : Attempt → Bool
  | .silent | .answered _ => true
  | _ => false

/-- What becomes of a request. -/
structure Outcome where
  first : Attempt
  second : Attempt
  third : Attempt
deriving DecidableEq

/-- The request is sent: the first attempt that can send it is made. -/
def Outcome.sends (o : Outcome) : Bool := o.first.sends || o.second.sends || o.third.sends

/-- `{timeout:?}` of a time below a second or of whole ones. -/
def millisDebug (n : ℕ) : Text :=
  if n < 1000 then decimal n ++ lit "ms" else decimal (n / 1000) ++ ['s']

/-- The loop of `exchange`, over the attempts that are left. -/
def exchangeFrom (gateway : Ipv4Addr) : List (ℕ × Attempt) → Text → Bool → Except Text Bytes
  | [], last, true =>
    .error (last ++ lit " — the exit is not answering NAT-PMP at all. Check the server " ++
      lit "supports port forwarding (it must be a P2P server) and that the " ++
      lit "WireGuard config was generated with NAT-PMP enabled")
  | [], last, false => .error (last ++ lit " — the tunnel is not carrying traffic yet")
  | (timeout, attempt) :: rest, _, sent =>
    match attempt with
    | .unbound e => exchangeFrom gateway rest (lit "bind: " ++ e) sent
    | .unrouted e =>
      exchangeFrom gateway rest (lit "no route to " ++ gateway.display ++ lit " (" ++ e ++ [')']) sent
    | .noTimeout => exchangeFrom gateway rest (lit "cannot set socket timeout") sent
    | .unsent e => exchangeFrom gateway rest (lit "send to " ++ gateway.display ++ lit ": " ++ e) sent
    | .silent =>
      exchangeFrom gateway rest
        (gateway.display ++ lit " did not answer within " ++ millisDebug timeout) true
    -- a datagram is cut to the buffer
    | .answered datagram => .ok (datagram.take 64)

def exchange (gateway : Ipv4Addr) (outcome : Outcome) : Except Text Bytes :=
  exchangeFrom gateway (ATTEMPTS.zip [outcome.first, outcome.second, outcome.third])
    (lit "no reply") false

/-! ### No response panics -/

theorem returns_checkHeader {buf : Bytes} {wantOpcode : UInt8} {minLen : ℕ} (h : 4 ≤ minLen) :
    Returns (checkHeader buf wantOpcode minLen) := by
  rw [checkHeader]
  refine .ite (fun _ => .ok _) fun hlen => ?_
  refine (Returns.nth (by omega)).bind fun _ _ => .ite (fun _ => .ok _) fun _ => ?_
  refine (Returns.nth (by omega)).bind fun _ _ => .ite (fun _ => .ok _) fun _ => ?_
  exact (Returns.wordAt (by omega)).bind fun _ _ => .ite (fun _ => .ok _) fun _ => .ok _

/-- A header that passes. -/
theorem length_of_checkHeader {buf : Bytes} {wantOpcode : UInt8} {minLen : ℕ}
    (h : checkHeader buf wantOpcode minLen = .ok (.ok ())) : minLen ≤ buf.length := by
  rw [checkHeader] at h
  split at h
  · cases h
  · next hlen => exact Nat.not_lt.mp hlen

theorem returns_u32At {b : Bytes} {i : ℕ} (h : i + 4 ≤ b.length) : Returns (u32At b i) :=
  (Returns.wordAt (by omega)).bind fun _ _ => (Returns.wordAt (by omega)).bind fun _ _ => .ok _

theorem returns_parseMapping (buf : Bytes) (proto : Proto) : Returns (parseMapping buf proto) := by
  refine (returns_checkHeader (by decide)).bind fun r hr => ?_
  cases r with
  | error e => exact .ok _
  | ok u =>
      have hlen : 16 ≤ buf.length := length_of_checkHeader hr
      refine (Returns.wordAt (by omega)).bind fun _ _ => .ite (fun _ => .ok _) fun _ => ?_
      refine (returns_u32At (by omega)).bind fun _ _ => ?_
      exact (returns_u32At (by omega)).bind fun _ _ => .ok _

theorem returns_parseExternalAddress (buf : Bytes) : Returns (parseExternalAddress buf) := by
  refine (returns_checkHeader (by decide)).bind fun r hr => ?_
  cases r with
  | error e => exact .ok _
  | ok u =>
      have hlen : 12 ≤ buf.length := length_of_checkHeader hr
      exact ⟨_, by dsimp only; rw [addrAt_eq (by omega)]; rfl⟩

end Tunnel.Portmap
