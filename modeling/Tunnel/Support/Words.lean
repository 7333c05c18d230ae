import Mathlib.Algebra.Group.Nat.Even
import Mathlib.Data.List.GetD
import Tunnel.Support.Checked

/-!
# Support — Big-endian words

The 16-bit words of a byte string: reading one (`word`), writing one (`splice` with `beBytes`), and
the sum of a byte string's words, an odd last byte padded with a zero (`wordSum`).

* `word_splice_self`, `word_splice_of_disjoint`: reading a word back after a write.
* `wordSum_append`: the sum over a concatenation, the first part of even length.
* `wordSum_splice`: a word written at an even offset replaces one term of the sum.
-/

namespace Support

/-- A byte string. -/
abbrev Bytes := List UInt8

/-- `u16::from_be_bytes([hi, lo])`. -/
def be16 (hi lo : UInt8) : UInt16 := UInt16.ofNat (hi.toNat * 256 + lo.toNat)

/-- `w.to_be_bytes()`. -/
def beBytes (w : UInt16) : Bytes := [UInt8.ofNat (w.toNat / 256), UInt8.ofNat w.toNat]

/-- `u16::from_be_bytes([b[i], b[i + 1]])`. -/
def wordAt (b : Bytes) (i : ℕ) : Checked UInt16 := do
  return be16 (← nth b i) (← nth b (i + 1))

/-- The word at offset `i`. -/
def word (b : Bytes) (i : ℕ) : UInt16 := be16 (b.getD i 0) (b.getD (i + 1) 0)

/-- The sum of the words of a byte string, an odd last byte being the high half of its word. -/
def wordSum : Bytes → ℕ
  | [] => 0
  | [a] => a.toNat * 256
  | a :: b :: rest => (be16 a b).toNat + wordSum rest

theorem wordAt_eq {b : Bytes} {i : ℕ} (h : i + 2 ≤ b.length) : wordAt b i = .ok (word b i) := by
  rw [wordAt, nth_eq (by omega) 0, nth_eq (by omega) 0]
  rfl

theorem Returns.wordAt {b : Bytes} {i : ℕ} (h : i + 2 ≤ b.length) : Returns (wordAt b i) :=
  ⟨_, wordAt_eq h⟩

@[simp] theorem be16_toNat (hi lo : UInt8) : (be16 hi lo).toNat = hi.toNat * 256 + lo.toNat := by
  have h₁ := hi.toNat_lt
  have h₂ := lo.toNat_lt
  simp only [be16, UInt16.toNat_ofNat']
  omega

@[simp] theorem length_beBytes (w : UInt16) : (beBytes w).length = 2 := rfl

/-- `from_be_bytes` undoes `to_be_bytes`. -/
theorem be16_beBytes (w : UInt16) :
    be16 ((beBytes w).getD 0 0) ((beBytes w).getD 1 0) = w := by
  have h := w.toNat_lt
  apply UInt16.toNat_inj.mp
  simp only [be16_toNat, beBytes, List.getD_cons_zero, List.getD_cons_succ, UInt8.toNat_ofNat']
  omega

/-- `to_be_bytes` undoes `from_be_bytes`. -/
theorem beBytes_be16 (hi lo : UInt8) : beBytes (be16 hi lo) = [hi, lo] := by
  have h₁ := hi.toNat_lt
  have h₂ := lo.toNat_lt
  have e₁ : UInt8.ofNat ((hi.toNat * 256 + lo.toNat) / 256) = hi := by
    apply UInt8.toNat_inj.mp; simp only [UInt8.toNat_ofNat']; omega
  have e₂ : UInt8.ofNat (hi.toNat * 256 + lo.toNat) = lo := by
    apply UInt8.toNat_inj.mp; simp only [UInt8.toNat_ofNat']; omega
  simp only [beBytes, be16_toNat, e₁, e₂]

/-! ### Words of a string written over -/

theorem word_splice_self {b : Bytes} {i : ℕ} (w : UInt16) (h : i + 2 ≤ b.length) :
    word (splice b i (beBytes w)) i = w := by
  have e₁ : (splice b i (beBytes w)).getD i 0 = (beBytes w).getD 0 0 := by
    rw [getD_splice, if_pos (by rw [length_beBytes]; omega), Nat.sub_self]
  have e₂ : (splice b i (beBytes w)).getD (i + 1) 0 = (beBytes w).getD 1 0 := by
    rw [getD_splice, if_pos (by rw [length_beBytes]; omega), Nat.add_sub_cancel_left]
  rw [word, e₁, e₂, be16_beBytes]

theorem word_splice_of_disjoint {b ys : Bytes} {i j : ℕ} (h : j + 2 ≤ i ∨ i + ys.length ≤ j) :
    word (splice b i ys) j = word b j := by
  rw [word, word, getD_splice, getD_splice, if_neg (by omega), if_neg (by omega)]

theorem word_drop (b : Bytes) (i j : ℕ) : word (b.drop i) j = word b (i + j) := by
  simp [word, Nat.add_assoc]

/-! ### Sums of words -/

theorem wordSum_append {a : Bytes} (b : Bytes) (h : Even a.length) :
    wordSum (a ++ b) = wordSum a + wordSum b := by
  induction a using wordSum.induct with
  | case1 => simp [wordSum]
  | case2 x => exact absurd h (by simp)
  | case3 x y rest ih =>
      have hr : Even rest.length := by simpa [Nat.even_add_one] using h
      simp only [List.cons_append, wordSum, ih hr, Nat.add_assoc]

/-- A sum is zero when every byte is. -/
theorem wordSum_eq_zero {b : Bytes} : wordSum b = 0 ↔ ∀ x ∈ b, x = 0 := by
  have hbyte : ∀ x : UInt8, x.toNat = 0 ↔ x = 0 := fun x => by rw [← UInt8.toNat_inj]; rfl
  fun_induction wordSum b with
  | case1 => simp
  | case2 x =>
      rw [List.forall_mem_singleton, ← hbyte]
      omega
  | case3 x y rest ih =>
      have hword : (be16 x y).toNat = 0 ↔ x = 0 ∧ y = 0 := by
        rw [be16_toNat, ← hbyte, ← hbyte]
        omega
      rw [List.forall_mem_cons, List.forall_mem_cons, ← and_assoc]
      exact Nat.add_eq_zero_iff.trans (and_congr hword ih)

/-- The sum around the word at an even offset. -/
theorem wordSum_split {b : Bytes} {i : ℕ} (hi : Even i) (h : i + 2 ≤ b.length) :
    wordSum b = wordSum (b.take i) + (word b i).toNat + wordSum (b.drop (i + 2)) := by
  have e : b = b.take i ++ ([b.getD i 0, b.getD (i + 1) 0] ++ b.drop (i + 2)) := by
    have e₁ : b.drop i = b.getD i 0 :: b.getD (i + 1) 0 :: b.drop (i + 2) := by
      rw [List.drop_eq_getElem_cons (by omega), List.drop_eq_getElem_cons (by omega),
        List.getD_eq_getElem _ _ (by omega), List.getD_eq_getElem _ _ (by omega)]
    exact (List.take_append_drop i b).symm.trans (congrArg _ e₁)
  have hl : Even (b.take i).length := by rwa [List.length_take, Nat.min_eq_left (by omega)]
  conv_lhs => rw [e, wordSum_append _ hl, wordSum_append _ ⟨1, rfl⟩]
  simp [wordSum, word, Nat.add_assoc]

/-- A word written at an even offset replaces one term of the sum. -/
theorem wordSum_splice {b : Bytes} {i : ℕ} (w : UInt16) (hi : Even i) (h : i + 2 ≤ b.length) :
    wordSum (splice b i (beBytes w)) + (word b i).toNat = wordSum b + w.toNat := by
  have hl : i + 2 ≤ (splice b i (beBytes w)).length := by rwa [length_splice]
  have e : splice b i (beBytes w) = b.take i ++ beBytes w ++ b.drop (i + (beBytes w).length) :=
    splice_eq (by simpa using h)
  have et : (splice b i (beBytes w)).take i = b.take i := by
    rw [e, List.append_assoc]
    exact List.take_left' (by rw [List.length_take, Nat.min_eq_left (by omega)])
  have ed : (splice b i (beBytes w)).drop (i + 2) = b.drop (i + 2) := by
    rw [e]
    exact List.drop_left' (by simp; omega)
  rw [wordSum_split hi hl, wordSum_split hi h, et, ed, word_splice_self w h]
  omega

/-! ### Sums around one word -/

/-- The sum of the words, the one at offset `c` taken as zero. -/
def sumExcept (b : Bytes) (c : ℕ) : ℕ := wordSum (splice b c (beBytes 0))

theorem sumExcept_add {b : Bytes} {c : ℕ} (hc : Even c) (h : c + 2 ≤ b.length) :
    sumExcept b c + (word b c).toNat = wordSum b :=
  wordSum_splice 0 hc h

/-- The word at `c` does not count. -/
theorem sumExcept_splice_self {b : Bytes} {c : ℕ} (w : UInt16) (hc : Even c)
    (h : c + 2 ≤ b.length) : sumExcept (splice b c (beBytes w)) c = sumExcept b c := by
  have h₁ := sumExcept_add (b := splice b c (beBytes w)) hc (by rwa [length_splice])
  have h₂ := sumExcept_add hc h
  have h₃ := wordSum_splice w hc h
  rw [word_splice_self w h] at h₁
  omega

/-- A word written elsewhere replaces one term. -/
theorem sumExcept_splice {b : Bytes} {i c : ℕ} (w : UInt16) (hi : Even i) (hc : Even c)
    (h : i + 2 ≤ b.length) (h' : c + 2 ≤ b.length) (hd : i + 2 ≤ c ∨ c + 2 ≤ i) :
    sumExcept (splice b i (beBytes w)) c + (word b i).toNat = sumExcept b c + w.toNat := by
  have h₁ := sumExcept_add (b := splice b i (beBytes w)) hc (by rwa [length_splice])
  have h₂ := sumExcept_add hc h'
  have h₃ := wordSum_splice w hi h
  rw [word_splice_of_disjoint (by rw [length_beBytes]; omega)] at h₁
  omega

end Support
