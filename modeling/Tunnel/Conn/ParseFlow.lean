import Tunnel.Conn.Manager
import Tunnel.Wg.Packet

/-!
# Conn — Which flow a packet belongs to

`parse_flow`, which reads the endpoints of a TCP or UDP packet, and whether it opens a connection.

* `parseFlow_eq`: it never panics, and reads the ports and the flags of every IPv4 packet whose L4
  part is long enough, whatever the packet's fragment offset.
-/

namespace Tunnel.Conn
open Support
open Wg (HdrOk ihlOf)

def parseFlow (pkt : Bytes) : Checked (Option Flow) := do
  if pkt.length < 20 then return none
  if (← nth pkt 0) >>> 4 ≠ 4 then return none
  let ihl := ((← nth pkt 0) &&& 0x0f).toNat * 4
  if ihl < 20 ∨ pkt.length < ihl then return none
  let proto ← nth pkt 9
  let srcIp ← addrAt pkt 12
  let dstIp ← addrAt pkt 16
  let l4 ← sliceFrom pkt ihl
  if proto = 6 then
    if l4.length < 20 then return none
    let sport ← wordAt l4 0
    let dport ← wordAt l4 2
    let flags ← nth l4 13
    -- SYN set, ACK clear
    let syn := flags &&& 0x02 != 0 && flags &&& 0x10 == 0
    return some { proto, src := ⟨srcIp, sport⟩, dst := ⟨dstIp, dport⟩, syn }
  else if proto = 17 then
    if l4.length < 8 then return none
    let sport ← wordAt l4 0
    let dport ← wordAt l4 2
    return some { proto, src := ⟨srcIp, sport⟩, dst := ⟨dstIp, dport⟩, syn := false }
  else return none

/-- The flow of an IPv4 packet. -/
def flowOf (pkt : Bytes) : Option Flow :=
  let proto := pkt.getD 9 0
  let src : SockAddr := ⟨addr pkt 12, word pkt (ihlOf pkt)⟩
  let dst : SockAddr := ⟨addr pkt 16, word pkt (ihlOf pkt + 2)⟩
  let flags := pkt.getD (ihlOf pkt + 13) 0
  if proto = 6 ∧ ihlOf pkt + 20 ≤ pkt.length then
    some { proto, src, dst, syn := flags &&& 0x02 != 0 && flags &&& 0x10 == 0 }
  else if proto = 17 ∧ ihlOf pkt + 8 ≤ pkt.length then some { proto, src, dst, syn := false }
  else none

theorem parseFlow_eq (pkt : Bytes) :
    parseFlow pkt = .ok (if HdrOk pkt then flowOf pkt else none) := by
  unfold parseFlow
  by_cases h₀ : pkt.length < 20
  · have hn : ¬ HdrOk pkt := fun h => absurd h.1 (by omega)
    simp [h₀, hn]
  have hd : ∀ {i}, i < 20 → nth pkt i = .ok (pkt.getD i 0) := fun hi => nth_eq (by omega) 0
  rw [if_neg h₀, hd (by omega), ok_bind]
  by_cases h₁ : pkt.getD 0 0 >>> 4 = 4
  swap
  · have hn : ¬ HdrOk pkt := fun h => h₁ h.2.1
    rw [if_pos h₁, if_neg hn]
    rfl
  rw [if_neg (not_not.mpr h₁), ok_bind]
  dsimp only
  rw [show (pkt.getD 0 0 &&& 0x0f).toNat * 4 = ihlOf pkt from rfl]
  by_cases h₂ : ihlOf pkt < 20 ∨ pkt.length < ihlOf pkt
  · have hn : ¬ HdrOk pkt := fun h => by obtain ⟨-, -, h, h'⟩ := h; omega
    rw [if_pos h₂, if_neg hn]
    rfl
  have hok : HdrOk pkt := ⟨by omega, h₁, by omega, by omega⟩
  have hdrop : (pkt.drop (ihlOf pkt)).length = pkt.length - ihlOf pkt := List.length_drop
  rw [if_neg h₂, if_pos hok, hd (by omega), ok_bind, addrAt_eq (by omega), ok_bind,
    addrAt_eq (by omega), ok_bind, sliceFrom_eq (by omega), ok_bind, flowOf]
  by_cases ht : pkt.getD 9 0 = 6
  · rw [if_pos ht]
    by_cases hl : ihlOf pkt + 20 ≤ pkt.length
    · rw [if_neg (by omega), if_pos ⟨ht, hl⟩, wordAt_eq (by omega), ok_bind,
        wordAt_eq (by omega), ok_bind, nth_eq (by omega) 0, ok_bind, word_drop, word_drop]
      simp
    · have hu : ¬ (pkt.getD 9 0 = 17 ∧ ihlOf pkt + 8 ≤ pkt.length) := fun h =>
        absurd (ht.symm.trans h.1) (by decide)
      rw [if_pos (by omega), if_neg fun h => hl h.2, if_neg hu]
      rfl
  have hn : ¬ (pkt.getD 9 0 = 6 ∧ ihlOf pkt + 20 ≤ pkt.length) := fun h => ht h.1
  rw [if_neg ht, if_neg hn]
  by_cases hu : pkt.getD 9 0 = 17
  · rw [if_pos hu]
    by_cases hl : ihlOf pkt + 8 ≤ pkt.length
    · rw [if_neg (by omega), if_pos ⟨hu, hl⟩, wordAt_eq (by omega), ok_bind,
        wordAt_eq (by omega), ok_bind, word_drop, word_drop]
      rfl
    · rw [if_pos (by omega), if_neg fun h => hl h.2]
      rfl
  · rw [if_neg hu, if_neg fun h => hu h.1]
    rfl

end Tunnel.Conn
