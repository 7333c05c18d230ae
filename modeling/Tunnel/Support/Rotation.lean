import Mathlib.Data.Nat.ModEq
import Mathlib.Order.Interval.Finset.Nat

/-!
# Support — Rotations

A cursor that walks round a cycle, and the search for a free place that starts where the cursor
stands.

* `Rotation`: a walk that is where it was after each `N` moves, and never earlier.
* `FirstFree`: the first free place from a move on; `exists_firstFree` finds it within one round
  when fewer than `N` places are taken.
* `scan_firstFree`: the scanning loop stops there and leaves the cursor one past it.
* `Rotation.round_iff`: a full round lies between two moves when the cursor came by in between.
-/

namespace Support

variable {α : Type}

/-- A walk that comes back to a place after each `N` moves, and never earlier. -/
structure Rotation (α : Type) (N : ℕ) where
  place : ℕ → α
  place_eq_iff : ∀ m n, place m = place n ↔ m ≡ n [MOD N]

/-- Move `i` is the first from `m` on that arrives at a free place. -/
structure FirstFree (place : ℕ → α) (free : α → Prop) (m i : ℕ) : Prop where
  le : m ≤ i
  found : free (place i)
  least : ∀ j, m ≤ j → j < i → ¬ free (place j)

/-- The place itself, if it is free. -/
theorem FirstFree.here {place : ℕ → α} {free : α → Prop} {m : ℕ} (h : free (place m)) :
    FirstFree place free m m :=
  ⟨Nat.le_refl m, h, fun _ hm hlt => absurd hlt (Nat.not_lt.mpr hm)⟩

theorem FirstFree.unique {place : ℕ → α} {free : α → Prop} {m i j : ℕ}
    (hi : FirstFree place free m i) (hj : FirstFree place free m j) : i = j := by
  rcases Nat.lt_trichotomy i j with h | h | h
  · exact absurd hi.found (hj.least i hi.le h)
  · exact h
  · exact absurd hj.found (hi.least j hj.le h)

namespace Rotation

variable {N : ℕ} (R : Rotation α N)

/-- Two visits to one place are a full round apart. -/
theorem round_le {i j : ℕ} (h : R.place i = R.place j) (hlt : i < j) : i + N ≤ j := by
  have hm := (Nat.modEq_iff_dvd' hlt.le).mp ((R.place_eq_iff i j).mp h)
  have := Nat.le_of_dvd (by omega) hm
  omega

/-- The places of one round are distinct. -/
theorem injOn_round (m : ℕ) : Set.InjOn R.place (Finset.Ico m (m + N)) := by
  intro i hi j hj h
  simp only [Finset.coe_Ico, Set.mem_Ico] at hi hj
  rcases Nat.lt_trichotomy i j with hlt | rfl | hlt
  · have := R.round_le h hlt
    omega
  · rfl
  · have := R.round_le h.symm hlt
    omega

/-- With fewer than `N` places taken, a round from anywhere meets one that is not. -/
theorem exists_firstFree [DecidableEq α] {free : α → Prop} (taken : Finset α)
    (hfree : ∀ a, a ∉ taken → free a) (hcard : taken.card < N) (m : ℕ) :
    ∃ i, i < m + N ∧ FirstFree R.place free m i := by
  classical
  have hround : ((Finset.Ico m (m + N)).image R.place).card = N := by
    rw [Finset.card_image_of_injOn (R.injOn_round m), Nat.card_Ico, Nat.add_sub_cancel_left]
  obtain ⟨a, ha, hna⟩ := Finset.exists_mem_notMem_of_card_lt_card (hround ▸ hcard)
  obtain ⟨i, hi, rfl⟩ := Finset.mem_image.mp ha
  rw [Finset.mem_Ico] at hi
  have hex : ∃ i, m ≤ i ∧ free (R.place i) := ⟨i, hi.1, hfree _ hna⟩
  refine ⟨Nat.find hex, ?_, (Nat.find_spec hex).1, (Nat.find_spec hex).2, fun j hm hj hf => ?_⟩
  · exact Nat.lt_of_le_of_lt (Nat.find_min' hex ⟨hi.1, hfree _ hna⟩) hi.2
  · exact Nat.find_min hex hj ⟨hm, hf⟩

/-- Between move `t` and the end of a later visit of `R.place i` there is a full round exactly when
at move `t` the cursor stood just past that place, or has been at it since. -/
theorem round_iff {t m i : ℕ} (htm : t ≤ m) (hmi : m ≤ i) (him : i < m + N) :
    t + N ≤ i + 1 ↔
      R.place t = R.place (i + 1) ∨ ∃ j, t ≤ j ∧ j < m ∧ R.place j = R.place i := by
  constructor
  · intro h
    rcases Nat.eq_or_lt_of_le h with h | h
    · refine .inl ((R.place_eq_iff _ _).mpr ?_)
      rw [← h]
      exact (Nat.add_modEq_right (n := N) (a := t)).symm
    · refine .inr ⟨i - N, by omega, by omega, (R.place_eq_iff _ _).mpr ?_⟩
      have hN : i - N + N = i := Nat.sub_add_cancel (by omega)
      conv_rhs => rw [← hN]
      exact (Nat.add_modEq_right (n := N) (a := i - N)).symm
  · rintro (h | ⟨j, htj, hjm, h⟩)
    · exact R.round_le h (by omega)
    · have := R.round_le h (by omega)
      omega

end Rotation

/-! ### Scanning -/

/-- The first free place, at most `n` rounds of the loop from the cursor, and the cursor after. -/
def scan (next : α → α) (free : α → Bool) : ℕ → α → Option α × α
  | 0, cursor => (none, cursor)
  | n + 1, cursor =>
    if free cursor then (some cursor, next cursor) else scan next free n (next cursor)

/-- How often the loop moves the cursor. -/
def scanMoves (next : α → α) (free : α → Bool) : ℕ → α → ℕ
  | 0, _ => 0
  | n + 1, cursor => if free cursor then 1 else scanMoves next free n (next cursor) + 1

variable {place : ℕ → α} {next : α → α} {free : α → Bool}

theorem scan_firstFree (hnext : ∀ m, next (place m) = place (m + 1)) {n m i : ℕ}
    (h : FirstFree place (free · = true) m i) (hi : i < m + n) :
    scan next free n (place m) = (some (place i), place (i + 1)) ∧
      scanMoves next free n (place m) = i + 1 - m := by
  induction n generalizing m with
  | zero => exact absurd h.le (by omega)
  | succ n ih =>
      rw [scan, scanMoves]
      rcases Nat.eq_or_lt_of_le h.le with rfl | hlt
      · rw [if_pos h.found, if_pos h.found, hnext]
        exact ⟨rfl, by omega⟩
      · have hm : ¬ free (place m) = true := h.least m (Nat.le_refl m) hlt
        obtain ⟨hs, hc⟩ := ih ⟨hlt, h.found, fun j hj => h.least j (by omega)⟩ (by omega)
        rw [if_neg hm, if_neg hm, hnext, hs, hc]
        exact ⟨rfl, by omega⟩

end Support
