import Mathlib.Data.List.Basic

/-!
# Support — Checked slices

Computations that may panic, and the slice operations that can make them: an index `xs[i]`, a
suffix `xs[i..]`, and `copy_from_slice`.  A panic is the value `.error`, so that a function's
freedom from panics is the statement that its result is an `.ok`.

* `Returns.bind`, `Returns.ite`: a computation does not panic when its parts do not.
* `Yields.bind`, `Yields.ite`: what a computation returns has a property when what its last part
  returns does.
* `nth_eq`, `sliceFrom_eq`, `copyFromSlice_eq`: each operation in range, as the list function it
  computes.
* `getD_splice`, `splice_eq`: the elements of a list written over, one by one and as a whole.
-/

namespace Support

/-- Why a computation stopped. -/
inductive Panic where
  /-- An index or a range outside a slice. -/
  | outOfRange
  /-- A key that a table does not hold, or holds at another type. -/
  | noSuchKey
  /-- A subtraction below zero. -/
  | underflow
  /-- A loop that outlasted the bound it was given. -/
  | outOfFuel
deriving DecidableEq, Repr

/-- A computation that may panic. -/
abbrev Checked (α : Type) := Except Panic α

variable {α β : Type}

@[simp] theorem ok_bind (a : α) (f : α → Checked β) : (Except.ok a >>= f : Checked β) = f a := rfl

@[simp] theorem error_bind (e : Panic) (f : α → Checked β) :
    (Except.error e >>= f : Checked β) = .error e := rfl

@[simp] theorem pure_eq_ok (a : α) : (pure a : Checked α) = .ok a := rfl

/-- A step both branches go on with. -/
theorem ite_bind (c : Prop) [Decidable c] (x y : Checked α) (f : α → Checked β) :
    (if c then x >>= f else y >>= f) = (if c then x else y) >>= f := by
  split <;> rfl

/-- A sequence returns when its parts do. -/
theorem bind_eq_ok {x : Checked α} {f : α → Checked β} {b : β} :
    x >>= f = .ok b ↔ ∃ a, x = .ok a ∧ f a = .ok b := by
  cases x with
  | error e => simp
  | ok a => simp

/-- The computation does not panic. -/
def Returns (x : Checked α) : Prop := ∃ a, x = .ok a

namespace Returns

theorem ok (a : α) : Returns (.ok a : Checked α) := ⟨a, rfl⟩

theorem bind {x : Checked α} {f : α → Checked β} (hx : Returns x)
    (hf : ∀ a, x = .ok a → Returns (f a)) : Returns (x >>= f) := by
  obtain ⟨a, ha⟩ := hx
  rw [ha, ok_bind]
  exact hf a ha

theorem ite {c : Prop} [Decidable c] {x y : Checked α} (hx : c → Returns x)
    (hy : ¬ c → Returns y) : Returns (if c then x else y) := by
  split
  · next h => exact hx h
  · next h => exact hy h

end Returns

/-- What the computation returns, if it does, has the property. -/
def Yields (P : α → Prop) (x : Checked α) : Prop := ∀ a, x = .ok a → P a

namespace Yields

theorem ok {P : α → Prop} {a : α} (h : P a) : Yields P (.ok a) := by
  intro b hb
  cases hb
  exact h

theorem error {P : α → Prop} {e : Panic} : Yields P (.error e) := by
  intro a ha
  cases ha

/-- A sequence goes on from what its first part returns. -/
theorem bind {P : α → Prop} {Q : β → Prop} {x : Checked α} {f : α → Checked β} (hx : Yields P x)
    (hf : ∀ a, P a → Yields Q (f a)) : Yields Q (x >>= f) := by
  intro b hb
  obtain ⟨a, ha, hfa⟩ := bind_eq_ok.mp hb
  exact hf a (hx a ha) b hfa

/-- Nothing is needed of what the first part returns. -/
theorem bind_any {Q : β → Prop} {x : Checked α} {f : α → Checked β} (hf : ∀ a, Yields Q (f a)) :
    Yields Q (x >>= f) := by
  intro b hb
  obtain ⟨a, -, hfa⟩ := bind_eq_ok.mp hb
  exact hf a b hfa

theorem ite {P : α → Prop} {c : Prop} [Decidable c] {x y : Checked α} (hx : c → Yields P x)
    (hy : ¬ c → Yields P y) : Yields P (if c then x else y) := by
  split
  · next h => exact hx h
  · next h => exact hy h

end Yields

/-! ### Slices -/

/-- `xs[i]`. -/
def nth (xs : List α) (i : ℕ) : Checked α :=
  match xs[i]? with
  | some x => .ok x
  | none => .error .outOfRange

/-- `&xs[i..]`. -/
def sliceFrom (xs : List α) (i : ℕ) : Checked (List α) :=
  if i ≤ xs.length then .ok (xs.drop i) else .error .outOfRange

/-- `xs.get(i..)`. -/
def getFrom (xs : List α) (i : ℕ) : Option (List α) :=
  if i ≤ xs.length then some (xs.drop i) else none

/-- `xs.get(i..j)`. -/
def getRange (xs : List α) (i j : ℕ) : Option (List α) :=
  if i ≤ j ∧ j ≤ xs.length then some ((xs.drop i).take (j - i)) else none

/-- `&xs[i..j]`. -/
def sliceRange (xs : List α) (i j : ℕ) : Checked (List α) :=
  match getRange xs i j with
  | some ys => .ok ys
  | none => .error .outOfRange

/-- `xs` with `ys` written over its elements from `i` on, as far as `xs` reaches. -/
def splice (xs : List α) (i : ℕ) : List α → List α
  | [] => xs
  | y :: ys => splice (xs.set i y) (i + 1) ys

/-- `xs[i..i + ys.len()].copy_from_slice(ys)`. -/
def copyFromSlice (xs : List α) (i : ℕ) (ys : List α) : Checked (List α) :=
  if i + ys.length ≤ xs.length then .ok (splice xs i ys) else .error .outOfRange

theorem nth_eq {xs : List α} {i : ℕ} (h : i < xs.length) (d : α) :
    nth xs i = .ok (xs.getD i d) := by
  simp [nth, h]

theorem sliceFrom_eq {xs : List α} {i : ℕ} (h : i ≤ xs.length) :
    sliceFrom xs i = .ok (xs.drop i) := if_pos h

theorem Returns.nth {xs : List α} {i : ℕ} (h : i < xs.length) : Returns (nth xs i) :=
  ⟨xs[i], by simp [Support.nth, h]⟩

theorem Returns.sliceFrom {xs : List α} {i : ℕ} (h : i ≤ xs.length) : Returns (sliceFrom xs i) :=
  ⟨_, sliceFrom_eq h⟩

theorem copyFromSlice_eq {xs ys : List α} {i : ℕ} (h : i + ys.length ≤ xs.length) :
    copyFromSlice xs i ys = .ok (splice xs i ys) := if_pos h

@[simp] theorem length_splice (xs : List α) (i : ℕ) (ys : List α) :
    (splice xs i ys).length = xs.length := by
  induction ys generalizing xs i with
  | nil => rfl
  | cons y ys ih => rw [splice, ih, List.length_set]

theorem getD_set (xs : List α) (i j : ℕ) (y d : α) :
    (xs.set i y).getD j d = if i = j ∧ j < xs.length then y else xs.getD j d := by
  by_cases h : i = j
  · subst h
    by_cases hl : i < xs.length
    · simp [hl]
    · simp [List.set_eq_of_length_le (Nat.le_of_not_lt hl), hl]
  · simp [h]

/-- The elements of a list written over. -/
theorem getD_splice (xs : List α) (i : ℕ) (ys : List α) (j : ℕ) (d : α) :
    (splice xs i ys).getD j d =
      if i ≤ j ∧ j < i + ys.length ∧ j < xs.length then ys.getD (j - i) d else xs.getD j d := by
  induction ys generalizing xs i with
  | nil => simp [splice]; omega
  | cons y ys ih =>
      rw [splice, ih, List.length_set, getD_set, List.length_cons]
      rcases Nat.lt_trichotomy i j with h | rfl | h
      · have hs : j - i = (j - (i + 1)) + 1 := by omega
        rw [hs, List.getD_cons_succ, if_neg (by omega : ¬ (i = j ∧ j < xs.length))]
        exact if_congr (by omega) rfl rfl
      · rw [if_neg (by omega)]
        simp
      · rw [if_neg (by omega), if_neg (by omega), if_neg (by omega)]

/-- A list written over, as a whole. -/
theorem splice_eq {xs ys : List α} {i : ℕ} (h : i + ys.length ≤ xs.length) :
    splice xs i ys = xs.take i ++ ys ++ xs.drop (i + ys.length) := by
  induction ys generalizing xs i with
  | nil => simp [splice]
  | cons y ys ih =>
      rw [List.length_cons] at h
      have hi : i < xs.length := by omega
      have ht : (xs.set i y).take (i + 1) = xs.take i ++ [y] := by
        rw [List.take_succ_eq_append_getElem (by simpa using hi), List.take_set,
          List.getElem_set_self, List.set_eq_of_length_le (List.length_take_le _ _)]
      rw [splice, ih (by rw [List.length_set]; omega), ht, List.drop_set_of_lt (by omega)]
      simp [Nat.add_assoc, Nat.add_comm 1]

theorem splice_append (xs : List α) (i : ℕ) (ys zs : List α) :
    splice xs i (ys ++ zs) = splice (splice xs i ys) (i + ys.length) zs := by
  induction ys generalizing xs i with
  | nil => rfl
  | cons y ys ih =>
      rw [List.cons_append, splice, splice, ih, List.length_cons, Nat.add_assoc,
        Nat.add_comm 1]

/-! ### Parts of a list written over -/

theorem take_splice_of_le {xs ys : List α} {i n : ℕ} (h : n ≤ i) :
    (splice xs i ys).take n = xs.take n := by
  induction ys generalizing xs i with
  | nil => rfl
  | cons y ys ih =>
      rw [splice, ih (by omega), List.take_set, List.set_eq_of_length_le]
      exact Nat.le_trans (List.length_take_le _ _) h

theorem take_splice (xs ys : List α) (i n : ℕ) :
    (splice xs i ys).take n = splice (xs.take n) i ys := by
  induction ys generalizing xs i with
  | nil => rfl
  | cons y ys ih => rw [splice, splice, ih, List.take_set]

theorem drop_splice_of_le {xs ys : List α} {i n : ℕ} (h : i + ys.length ≤ n) :
    (splice xs i ys).drop n = xs.drop n := by
  induction ys generalizing xs i with
  | nil => rfl
  | cons y ys ih =>
      rw [List.length_cons] at h
      rw [splice, ih (by omega), List.drop_set_of_lt (by omega)]

theorem drop_splice {xs ys : List α} {i n : ℕ} (h : n ≤ i) :
    (splice xs i ys).drop n = splice (xs.drop n) (i - n) ys := by
  induction ys generalizing xs i with
  | nil => rfl
  | cons y ys ih =>
      rw [splice, splice, ih (by omega), List.drop_set, if_neg (by omega),
        show i + 1 - n = i - n + 1 by omega]

/-- A second overwrite of a range is the last word. -/
theorem splice_splice {xs ys zs : List α} {i : ℕ} (h : ys.length = zs.length)
    (hl : i + zs.length ≤ xs.length) : splice (splice xs i ys) i zs = splice xs i zs := by
  rw [splice_eq (by rwa [length_splice]), take_splice_of_le (Nat.le_refl i),
    drop_splice_of_le (by omega), splice_eq hl]

end Support
