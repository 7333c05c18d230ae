import Mathlib.Algebra.GroupWithZero.Nat
import Mathlib.Data.List.DropRight
import Tunnel.Net

/-!
# Text

Strings as lists of characters, and what the standard library's `Display` writes for numbers and
addresses.
-/

namespace Tunnel
open Support

/-- A string. -/
abbrev Text := List Char

namespace Text

/-- `s.len()`: the bytes of its UTF-8 encoding. -/
def len (s : Text) : ℕ := (s.map Char.utf8Size).sum

@[simp] theorem len_nil : len [] = 0 := rfl

@[simp] theorem len_cons (c : Char) (s : Text) : len (c :: s) = c.utf8Size + len s := rfl

@[simp] theorem len_append (s t : Text) : len (s ++ t) = len s + len t := by
  simp [len]

/-- `s.as_bytes()`. -/
def utf8 (s : Text) : Bytes := s.flatMap String.utf8EncodeChar

@[simp] theorem length_utf8 (s : Text) : (utf8 s).length = len s := by
  simp [utf8, len, List.length_flatMap]

/-- `char::is_whitespace`. -/
def isWhitespace (c : Char) : Bool :=
  let n := c.toNat
  (0x09 ≤ n && n ≤ 0x0d) || n == 0x20 || n == 0x85 || n == 0xa0 || n == 0x1680 ||
    (0x2000 ≤ n && n ≤ 0x200a) || n == 0x2028 || n == 0x2029 || n == 0x202f || n == 0x205f ||
    n == 0x3000

/-- `s.trim()`. -/
def trim (s : Text) : Text := (s.dropWhile isWhitespace).rdropWhile isWhitespace

/-- `s.trim_end_matches(c)`. -/
def trimEndMatches (c : Char) (s : Text) : Text := s.rdropWhile (· == c)

/-- `s.eq_ignore_ascii_case(t)`. -/
def eqIgnoreAsciiCase (s t : Text) : Bool := s.map Char.toLower == t.map Char.toLower

/-- A string literal. -/
def lit (s : String) : Text := s.toList

/-- `{n}`. -/
def decimal (n : ℕ) : Text := Nat.toDigits 10 n

/-- `{n:x}`. -/
def hex (n : ℕ) : Text := Nat.toDigits 16 n

/-- `{b:02x}`. -/
def hex2 (b : UInt8) : Text := [(b.toNat / 16).digitChar, (b.toNat % 16).digitChar]

/-- The parts, with a separator between. -/
def join (sep : Text) : List Text → Text
  | [] => []
  | [s] => s
  | s :: rest => s ++ sep ++ join sep rest

end Text

open Text

def Ipv4Addr.display (ip : Ipv4Addr) : Text :=
  join ['.'] (ip.octets.map fun b => decimal b.toNat)

namespace Ipv6Addr

/-- `segments()`. -/
def segments (ip : Ipv6Addr) : List UInt16 := (List.range 8).map fun i => word ip.octets (2 * i)

/-- A run of zero segments. -/
structure Span where
  start : ℕ
  len : ℕ
deriving DecidableEq, Repr

/-- The first longest run, from segment `i` on. -/
def zeroes : List UInt16 → ℕ → Span → Span → Span
  | [], _, _, longest => longest
  | s :: rest, i, current, longest =>
    if s = 0 then
      let current : Span := ⟨if current.len = 0 then i else current.start, current.len + 1⟩
      zeroes rest (i + 1) current (if longest.len < current.len then current else longest)
    else zeroes rest (i + 1) ⟨0, 0⟩ longest

/-- The segments, with colons between. -/
def part (segments : List UInt16) : Text := join [':'] (segments.map fun s => hex s.toNat)

def display (ip : Ipv6Addr) : Text :=
  if ip.octets.take 12 = List.replicate 10 0 ++ [0xff, 0xff] then
    lit "::ffff:" ++ (addr ip.octets 12).display
  else
    let z := zeroes ip.segments 0 ⟨0, 0⟩ ⟨0, 0⟩
    if 1 < z.len then
      part (ip.segments.take z.start) ++ lit "::" ++ part (ip.segments.drop (z.start + z.len))
    else part ip.segments

end Ipv6Addr

namespace IpAddr

def display : IpAddr → Text
  | .v4 ip => ip.display
  | .v6 ip => ip.display

def isLoopback : IpAddr → Bool
  | .v4 ip => ip.isLoopback
  | .v6 ip => ip.octets == List.replicate 15 0 ++ [1]

def isUnspecified : IpAddr → Bool
  | .v4 ip => ip.isUnspecified
  | .v6 ip => ip.octets == List.replicate 16 0

end IpAddr

end Tunnel
