import Tunnel.Support.Words

/-!
# Addresses and time

IPv4 addresses as four octets, with the predicates of the standard library the engine tests them
with, IPv6 addresses as sixteen, and instants as nanoseconds from a common origin.
`durationSince` saturates at zero, as `Instant::duration_since` does.
-/

namespace Tunnel
open Support

/-- `Ipv4Addr::new(a, b, c, d)`. -/
structure Ipv4Addr where
  a : UInt8
  b : UInt8
  c : UInt8
  d : UInt8
deriving DecidableEq, Repr

namespace Ipv4Addr

def octets (ip : Ipv4Addr) : Bytes := [ip.a, ip.b, ip.c, ip.d]

@[simp] theorem length_octets (ip : Ipv4Addr) : ip.octets.length = 4 := rfl

/-- `224.0.0.0/4`. -/
def isMulticast (ip : Ipv4Addr) : Bool := 224 ≤ ip.a && ip.a ≤ 239

/-- `255.255.255.255`. -/
def isBroadcast (ip : Ipv4Addr) : Bool := ip == ⟨255, 255, 255, 255⟩

/-- `127.0.0.0/8`. -/
def isLoopback (ip : Ipv4Addr) : Bool := ip.a == 127

/-- `0.0.0.0`. -/
def isUnspecified (ip : Ipv4Addr) : Bool := ip == ⟨0, 0, 0, 0⟩

/-- `169.254.0.0/16`. -/
def isLinkLocal (ip : Ipv4Addr) : Bool := ip.a == 169 && ip.b == 254

/-- `10.0.0.0/8`, `172.16.0.0/12`, `192.168.0.0/16`. -/
def isPrivate (ip : Ipv4Addr) : Bool :=
  ip.a == 10 || (ip.a == 172 && 16 ≤ ip.b && ip.b ≤ 31) || (ip.a == 192 && ip.b == 168)

end Ipv4Addr

/-- `Ipv4Addr::new(b[i], b[i + 1], b[i + 2], b[i + 3])`. -/
def addrAt (b : Bytes) (i : ℕ) : Checked Ipv4Addr := do
  return ⟨← nth b i, ← nth b (i + 1), ← nth b (i + 2), ← nth b (i + 3)⟩

/-- The address at offset `i`. -/
def addr (b : Bytes) (i : ℕ) : Ipv4Addr :=
  ⟨b.getD i 0, b.getD (i + 1) 0, b.getD (i + 2) 0, b.getD (i + 3) 0⟩

theorem addrAt_eq {b : Bytes} {i : ℕ} (h : i + 4 ≤ b.length) : addrAt b i = .ok (addr b i) := by
  rw [addrAt, nth_eq (by omega) 0, nth_eq (by omega) 0, nth_eq (by omega) 0, nth_eq (by omega) 0]
  rfl

theorem addr_splice_self {b : Bytes} {i : ℕ} (ip : Ipv4Addr) (h : i + 4 ≤ b.length) :
    addr (splice b i ip.octets) i = ip := by
  have e : ∀ k, k < 4 → (splice b i ip.octets).getD (i + k) 0 = ip.octets.getD k 0 := by
    intro k hk
    rw [getD_splice, if_pos (by rw [Ipv4Addr.length_octets]; omega), Nat.add_sub_cancel_left]
  have e₀ := e 0 (by omega)
  rw [Nat.add_zero] at e₀
  rw [addr, e₀, e 1 (by omega), e 2 (by omega), e 3 (by omega)]
  rfl

theorem addr_splice_of_disjoint {b ys : Bytes} {i j : ℕ} (h : j + 4 ≤ i ∨ i + ys.length ≤ j) :
    addr (splice b i ys) j = addr b j := by
  have e : ∀ k, k < 4 → (splice b i ys).getD (j + k) 0 = b.getD (j + k) 0 := by
    intro k hk
    rw [getD_splice, if_neg (by omega)]
  have e₀ := e 0 (by omega)
  rw [Nat.add_zero] at e₀
  rw [addr, addr, e₀, e 1 (by omega), e 2 (by omega), e 3 (by omega)]

/-- An IPv6 address. -/
structure Ipv6Addr where
  octets : Bytes
  len : octets.length = 16
deriving DecidableEq

/-- `segments()[0]`. -/
def Ipv6Addr.firstSegment (ip : Ipv6Addr) : UInt16 :=
  be16 (ip.octets.getD 0 0) (ip.octets.getD 1 0)

/-- The address at offset `i`. -/
def addr6At (b : Bytes) (i : ℕ) : Checked Ipv6Addr :=
  if h : i + 16 ≤ b.length then
    .ok ⟨(b.drop i).take 16, by rw [List.length_take, List.length_drop]; omega⟩
  else .error .outOfRange

inductive IpAddr where
  | v4 (ip : Ipv4Addr)
  | v6 (ip : Ipv6Addr)
deriving DecidableEq

/-- An instant, in nanoseconds. -/
abbrev Instant := ℕ

/-- `now.duration_since(t)`. -/
def durationSince (now t : Instant) : ℕ := now - t

/-- `Duration::from_secs(n)`. -/
def secs (n : ℕ) : ℕ := n * 1000000000

end Tunnel
