import Mathlib.Data.Nat.ModEq
import Tunnel.Support.Words

/-!
# Support — One's-complement sums

Sums of 16-bit words with end-around carry.  Two naturals have the same carried sum when they are
both zero or both positive and congruent modulo `2¹⁶ - 1`: the carried sum has two representations
of zero, and a positive sum never folds to the word `0`.

* `carryLoop`, `carryLoop_toNat`: the folding loop on a 32-bit accumulator; two rounds suffice, and
  the result is `carried` of the accumulator.
* `carried_congr`: congruent positive sums fold to one word.
* `Represents`: a complemented word stands for a sum up to congruence.  `represents_replace` is the
  incremental update of a checksum: replacing a word of the sum, the updated word stands for the
  new sum; `eq_of_represents` recovers the word itself when it is not the second zero.
* `Verifies`: a sum, its checksum included, that a receiver accepts.  `verifies_replace`: the
  incremental update keeps it so, unless all that is summed becomes zero.
-/

namespace Support

/-- `while s >> 16 != 0 { s = (s & 0xffff) + (s >> 16) }`, at most `n` rounds of it. -/
def carryLoop : ℕ → UInt32 → UInt32
  | 0, s => s
  | n + 1, s => if s >>> 16 = 0 then s else carryLoop n ((s &&& (0xffff : UInt32)) + (s >>> 16))

/-- The word a sum folds to. -/
def carried (s : ℕ) : ℕ := if s = 0 then 0 else (s - 1) % 65535 + 1

theorem carried_le (s : ℕ) : carried s ≤ 65535 := by
  unfold carried; split <;> omega

theorem carried_pos {s : ℕ} (h : 0 < s) : 0 < carried s := by
  unfold carried; split <;> omega

theorem carried_of_lt {s : ℕ} (h : s < 65536) : carried s = s := by
  unfold carried; split <;> omega

/-- One round of the loop keeps the word the sum folds to. -/
theorem carried_round (s : ℕ) : carried (s % 65536 + s / 65536) = carried s := by
  unfold carried; split <;> split <;> omega

theorem carried_modEq (s : ℕ) : carried s ≡ s [MOD 65535] := by
  unfold carried Nat.ModEq; split <;> omega

/-- Positive sums congruent modulo `2¹⁶ - 1` fold to one word. -/
theorem carried_congr {s t : ℕ} (hs : 0 < s) (ht : 0 < t) (h : s ≡ t [MOD 65535]) :
    carried s = carried t := by
  unfold Nat.ModEq at h
  rw [carried, carried, if_neg (by omega), if_neg (by omega)]
  omega

/-! ### The folding loop -/

theorem shiftRight_eq_zero (s : UInt32) : s >>> 16 = 0 ↔ s.toNat < 65536 := by
  rw [← UInt32.toNat_inj, UInt32.toNat_shiftRight]
  simp [Nat.shiftRight_eq_div_pow]

theorem round_toNat (s : UInt32) :
    ((s &&& (0xffff : UInt32)) + (s >>> 16)).toNat = s.toNat % 65536 + s.toNat / 65536 := by
  have h := s.toNat_lt
  have e : s.toNat &&& 65535 = s.toNat % 65536 := Nat.and_two_pow_sub_one_eq_mod s.toNat 16
  simp only [UInt32.toNat_add, UInt32.toNat_and, UInt32.toNat_shiftRight, UInt32.reduceToNat, e,
    Nat.shiftRight_eq_div_pow, Nat.reduceMod, Nat.reducePow]
  omega

/-- Two rounds fold any 32-bit sum to its word; further rounds do nothing. -/
theorem carryLoop_toNat (n : ℕ) (s : UInt32) : (carryLoop (n + 2) s).toNat = carried s.toNat := by
  have h := s.toNat_lt
  by_cases h₁ : s.toNat < 65536
  · rw [carryLoop, if_pos ((shiftRight_eq_zero s).mpr h₁), carried_of_lt h₁]
  · rw [carryLoop, if_neg (fun e => h₁ ((shiftRight_eq_zero s).mp e)), ← carried_round,
      ← round_toNat]
    generalize hr : (s &&& (0xffff : UInt32)) + (s >>> 16) = r
    have hrn : r.toNat = s.toNat % 65536 + s.toNat / 65536 := hr ▸ round_toNat s
    by_cases h₂ : r.toNat < 65536
    · rw [carryLoop, if_pos ((shiftRight_eq_zero r).mpr h₂), carried_of_lt h₂]
    · rw [carryLoop, if_neg (fun e => h₂ ((shiftRight_eq_zero r).mp e)), ← carried_round,
        ← round_toNat]
      have h₃ : ((r &&& (0xffff : UInt32)) + (r >>> 16)).toNat < 65536 := by rw [round_toNat]; omega
      cases n with
      | zero => rw [carryLoop, carried_of_lt h₃]
      | succ n => rw [carryLoop, if_pos ((shiftRight_eq_zero _).mpr h₃), carried_of_lt h₃]

/-- The loop has left its condition false: the result is a word. -/
theorem carryLoop_lt (n : ℕ) (s : UInt32) : (carryLoop (n + 2) s).toNat < 65536 := by
  rw [carryLoop_toNat]; exact Nat.lt_succ_of_le (carried_le _)

/-! ### Complemented words -/

/-- The complement of `c` is congruent to the sum `s`. -/
def Represents (c : UInt16) (s : ℕ) : Prop := 65535 - c.toNat ≡ s [MOD 65535]

/-- The complement of the word `s` folds to. -/
theorem represents_of_carried {c : UInt16} {s : ℕ} (h : c.toNat = 65535 - carried s) :
    Represents c s := by
  have hl := carried_le s
  have e : 65535 - c.toNat = carried s := by omega
  rw [Represents, e]
  exact carried_modEq s

/-- A word that is not the second zero is determined by the positive sum it stands for. -/
theorem eq_of_represents {c : UInt16} {s : ℕ} (h : Represents c s) (hc : c ≠ 65535) (hs : 0 < s) :
    c.toNat = 65535 - carried s := by
  have hl := c.toNat_lt
  have hne : c.toNat ≠ 65535 := fun e => hc (UInt16.toNat_inj.mp e)
  have hlt : 65535 - c.toNat < 65536 := by omega
  have e := carried_congr (by omega) hs h
  rw [carried_of_lt hlt] at e
  omega

/-- The complemented sum of three words, carried: the incremental update. -/
theorem represents_replace {c c' : UInt16} {r old new : ℕ} (h : Represents c (r + old))
    (hold : old < 65536)
    (hc : c'.toNat = 65535 - carried ((65535 - c.toNat) + (65535 - old) + new)) :
    Represents c' (r + new) := by
  have h' := represents_of_carried hc
  unfold Represents Nat.ModEq at *
  omega

/-- The update of a word that is not the second zero is not either. -/
theorem ne_replace {c c' : UInt16} {old new : ℕ} (h : c ≠ 65535)
    (hc : c'.toNat = 65535 - carried ((65535 - c.toNat) + (65535 - old) + new)) : c' ≠ 65535 := by
  have hl := c.toNat_lt
  have hne : c.toNat ≠ 65535 := fun e => h (UInt16.toNat_inj.mp e)
  have hp : 0 < carried ((65535 - c.toNat) + (65535 - old) + new) := carried_pos (by omega)
  rintro rfl
  simp only [UInt16.reduceToNat] at hc
  omega

/-! ### Verification -/

/-- The sum folds to all ones: the receiver of a checksum accepts it. -/
def Verifies (s : ℕ) : Prop := carried s = 65535

instance (s : ℕ) : Decidable (Verifies s) := inferInstanceAs (Decidable (_ = _))

theorem verifies_iff {s : ℕ} : Verifies s ↔ 0 < s ∧ s ≡ 0 [MOD 65535] := by
  unfold Verifies carried Nat.ModEq
  split <;> omega

/-- The update of a checksum `c` for another word keeps the sum verifying, unless the new word and the
rest of the sum are zero: it then makes the checksum zero too, except where it was all ones. -/
theorem verifies_replace {c c' : UInt16} {rest old new : ℕ} (hs : Verifies (rest + c.toNat + old))
    (hold : old < 65536) (hne : old ≠ new)
    (hc : c'.toNat = 65535 - carried ((65535 - c.toNat) + (65535 - old) + new)) :
    Verifies (rest + c'.toNat + new) ↔ ¬ (rest = 0 ∧ new = 0 ∧ c ≠ 65535) := by
  have hl := c.toNat_lt
  have hc0 : c ≠ 65535 ↔ c.toNat ≠ 65535 := by rw [Ne, ← UInt16.toNat_inj]; rfl
  obtain ⟨hpos, hmod⟩ := verifies_iff.mp hs
  have hmod' : rest + c'.toNat + new ≡ 0 [MOD 65535] := by
    have hrep := represents_of_carried hc
    unfold Represents Nat.ModEq at *
    omega
  rw [verifies_iff, and_iff_left hmod', hc0]
  by_cases hz : rest = 0 ∧ new = 0
  swap
  · exact iff_of_true (by omega) fun h => hz ⟨h.1, h.2.1⟩
  obtain ⟨rfl, rfl⟩ := hz
  -- nothing is left of the sum but the checksum and the old word
  have hsum : c.toNat + old = 65535 ∨ c.toNat = 65535 ∧ old = 65535 := by
    unfold Nat.ModEq at hmod
    omega
  rcases hsum with hsum | ⟨hc1, ho1⟩
  · have hfold : carried ((65535 - c.toNat) + (65535 - old) + 0) = 65535 := by
      rw [show (65535 - c.toNat) + (65535 - old) + 0 = 65535 by omega, carried_of_lt (by decide)]
    rw [hfold] at hc
    omega
  · have hfold : carried ((65535 - c.toNat) + (65535 - old) + 0) = 0 := by
      rw [hc1, ho1, carried_of_lt (by decide)]
    rw [hfold] at hc
    omega

end Support
