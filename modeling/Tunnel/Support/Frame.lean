import Mathlib.Data.List.GetD
import Mathlib.Order.Interval.Set.Basic
import Tunnel.Support.Checked

/-!
# Support — Frames

A list that is another one but for the elements at some indices (`Framed`).  Frames compose: the
indices of two changes in a row are the union of theirs, and a change behind a prefix is that change
with its indices shifted.

* `Framed.trans`, `Framed.mono`: composition.
* `framed_splice`: a splice changes the range it writes.
* `Framed.afterPrefix`: a change of what follows a prefix.
-/

namespace Support

variable {α : Type}

/-- `ys` is `xs` but for the elements at the indices in `s`. -/
structure Framed (s : Set ℕ) (xs ys : List α) : Prop where
  length_eq : ys.length = xs.length
  getElem?_eq : ∀ i, i ∉ s → ys[i]? = xs[i]?

namespace Framed

variable {s t : Set ℕ} {xs ys zs : List α}

theorem refl (s : Set ℕ) (xs : List α) : Framed s xs xs := ⟨rfl, fun _ _ => rfl⟩

theorem mono (h : Framed s xs ys) (hst : s ⊆ t) : Framed t xs ys :=
  ⟨h.length_eq, fun i hi => h.getElem?_eq i fun hs => hi (hst hs)⟩

theorem trans (h : Framed s xs ys) (h' : Framed t ys zs) : Framed (s ∪ t) xs zs := by
  refine ⟨h'.length_eq.trans h.length_eq, fun i hi => ?_⟩
  rw [Set.mem_union, not_or] at hi
  exact (h'.getElem?_eq i hi.2).trans (h.getElem?_eq i hi.1)

/-- Lists of one length that agree on what is read with a default. -/
theorem of_getD {d : α} (hl : ys.length = xs.length)
    (h : ∀ i, i ∉ s → ys.getD i d = xs.getD i d) : Framed s xs ys := by
  refine ⟨hl, fun i hi => ?_⟩
  have e := h i hi
  by_cases hx : i < xs.length
  · have hy : i < ys.length := hl ▸ hx
    rw [List.getD_eq_getElem _ _ hy, List.getD_eq_getElem _ _ hx] at e
    rw [List.getElem?_eq_getElem hy, List.getElem?_eq_getElem hx, e]
  · rw [List.getElem?_eq_none (by omega), List.getElem?_eq_none (by omega)]

theorem getD_eq (h : Framed s xs ys) {i : ℕ} (hi : i ∉ s) (d : α) : ys.getD i d = xs.getD i d := by
  simp [List.getD_eq_getElem?_getD, h.getElem?_eq i hi]

/-- A change of what follows the first `n` elements. -/
theorem afterPrefix {n : ℕ} (hn : n ≤ xs.length) (h : Framed s (xs.drop n) ys) :
    Framed ((n + ·) '' s) xs (xs.take n ++ ys) := by
  have ht : (xs.take n).length = n := by rw [List.length_take, Nat.min_eq_left hn]
  refine ⟨?_, fun i hi => ?_⟩
  · rw [List.length_append, ht, h.length_eq, List.length_drop]
    omega
  by_cases hin : i < n
  · rw [List.getElem?_append_left (by omega), List.getElem?_take_of_lt hin]
  · have hs : i - n ∉ s := fun hs => hi ⟨i - n, hs, by simp only []; omega⟩
    rw [List.getElem?_append_right (by omega), ht, h.getElem?_eq _ hs, List.getElem?_drop,
      Nat.add_sub_cancel' (by omega)]

end Framed

/-- A splice changes no element outside the range it writes. -/
theorem framed_splice (xs : List α) (i : ℕ) (ys : List α) :
    Framed (Set.Ico i (i + ys.length)) xs (splice xs i ys) := by
  induction ys generalizing xs i with
  | nil => exact .refl _ _
  | cons y ys ih =>
      have hset : Framed {i} xs (xs.set i y) :=
        ⟨List.length_set, fun j hj => List.getElem?_set_ne fun e => hj e.symm⟩
      refine (hset.trans (ih (xs.set i y) (i + 1))).mono fun j hj => ?_
      simp only [Set.mem_union, Set.mem_singleton_iff, Set.mem_Ico, List.length_cons] at hj ⊢
      omega

end Support
