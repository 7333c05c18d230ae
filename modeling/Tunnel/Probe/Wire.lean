import Tunnel.Text

/-!
# Probe — Names on the wire

A DNS query as `build_query` encodes it, and `read_name`: a possibly compressed name decoded to text,
with the offset past it in its original position.

A slice that may be out of range is read with `get`, so that it is an error of the decoder and not a
panic.  The loop of `read_name` takes a bound, which is checked as a panic of its own (`outOfFuel`).
-/

namespace Tunnel.Probe
open Support Text

def MAX_NAME_JUMPS : ℕ := 32

/-! ### Encode -/

/-- The bytes `encode_name` lets into a label. -/
def isLabelByte (b : UInt8) : Bool :=
  (0x30 ≤ b && b ≤ 0x39) || (0x41 ≤ b && b ≤ 0x5a) || (0x61 ≤ b && b ≤ 0x7a) ||
    b == 0x2d || b == 0x5f || b == 0x2a

def encodeLabels (name : Text) : List Text → Bytes → Except Text Bytes
  | [], out => return out
  | label :: labels, out => do
    if label.isEmpty then throw (name ++ lit ": empty label (doubled dot?)")
    if 63 < label.len then throw (name ++ lit ": label longer than 63 bytes")
    if !(label.utf8.all isLabelByte) then
      throw (name ++ lit ": only letters, digits, '-', '_' and '*' are allowed in a label")
    encodeLabels name labels (out ++ UInt8.ofNat label.len :: label.utf8)

def encodeName (name : Text) (out : Bytes) : Except Text Bytes := do
  let name := trimEndMatches '.' (trim name)
  let start := out.length
  let out ← if name.isEmpty then pure out else encodeLabels name (name.splitOn '.') out
  let out := out ++ [0]
  if 255 < out.length - start then throw (name ++ lit ": encoded name exceeds 255 bytes")
  return out

def buildQuery (id : UInt16) (name : Text) (qtype : UInt16) : Except Text Bytes := do
  -- a standard query, recursion desired, with one question
  let p := beBytes id ++ [0x01, 0x00] ++ beBytes 1 ++ [0, 0, 0, 0, 0, 0]
  let p ← encodeName name p
  return p ++ beBytes qtype ++ beBytes 1

/-! ### Decode -/

def escape (b : UInt8) : Text :=
  if b = 0x22 ∨ b = 0x5c then ['\\', Char.ofNat b.toNat]
  else if 0x20 ≤ b ∧ b ≤ 0x7e then [Char.ofNat b.toNat]
  else ['\\', 'x'] ++ hex2 b

/-- Append `bytes` as printable ASCII, escaping everything else. -/
def pushEscaped (out : Text) (bytes : Bytes) : Text := out ++ bytes.flatMap escape

def readU16 (buf : Bytes) (pos : ℕ) : Checked (Except Text UInt16) := do
  match getRange buf pos (pos + 2) with
  | some b => return .ok (← wordAt b 0)
  | none => return .error (lit "truncated record")

/-- `u32::from_be_bytes` of the halves. -/
def be32 (hi lo : UInt16) : UInt32 := UInt32.ofNat (hi.toNat * 65536 + lo.toNat)

def readU32 (buf : Bytes) (pos : ℕ) : Checked (Except Text UInt32) := do
  match getRange buf pos (pos + 4) with
  | some b => return .ok (be32 (← wordAt b 0) (← wordAt b 2))
  | none => return .error (lit "truncated record")

/-- The offset a compression pointer names. -/
def pointerOf (hi lo : UInt8) : ℕ := ((hi &&& 0x3f).toNat <<< 8) ||| lo.toNat

/-- The loop of `read_name`, for at most `fuel` turns. -/
def readNameFrom (buf : Bytes) :
    ℕ → Text → ℕ → ℕ → Option ℕ → Checked (Except Text (Text × ℕ))
  | 0, _, _, _, _ => .error .outOfFuel
  | fuel + 1, out, pos, jumps, resume => do
    let some len := buf[pos]? | return .error (lit "truncated name")
    let pos := pos + 1
    if len &&& 0xc0 = 0x00 then
      if len = 0 then return .ok (if out.isEmpty then ['.'] else out, resume.getD pos)
      let some label := getRange buf pos (pos + len.toNat) | return .error (lit "truncated label")
      let out := pushEscaped (if out.isEmpty then out else out ++ ['.']) label
      let pos := pos + len.toNat
      if 255 < out.len then return .error (lit "name longer than 255 bytes")
      readNameFrom buf fuel out pos jumps resume
    else if len &&& 0xc0 = 0xc0 then
      let some lo := buf[pos]? | return .error (lit "truncated compression pointer")
      let target := pointerOf len lo
      let pos := pos + 1
      let resume := some (resume.getD pos)
      let jumps := jumps + 1
      if MAX_NAME_JUMPS < jumps then return .error (lit "compression pointer loop")
      if buf.length ≤ target then return .error (lit "compression pointer past end of message")
      readNameFrom buf fuel out target jumps resume
    else return .error (lit "reserved label type in name")

def readName (buf : Bytes) (start : ℕ) : Checked (Except Text (Text × ℕ)) :=
  readNameFrom buf ((MAX_NAME_JUMPS + 2) * (buf.length + 1)) [] start 0 none

example : readName [0xc0, 0x00] 0 = .ok (.error (lit "compression pointer loop")) := by
  decide +kernel

end Tunnel.Probe
