import Mathlib.Data.List.Basic

/-!
# Support — Counters that only rise

The values a party reports of a counter that rises for as long as it lives.  A value below an earlier
one says that it was restarted between.

* `Undercut`: a restart shows in the values.  `undercut_singleton`, `undercut_pair`: in one more value,
  and in two.
* `BeforeDescent`: a value from before a restart that shows from one value to the next.
  `le_last_of_not_beforeDescent`: every other value is at most the last, so that comparing with the
  last value is comparing with all of them.
-/

namespace Support

variable {α : Type}

/-- One of the values `new` is below one before it. -/
def Undercut [LT α] (before : List α) : List α → Prop
  | [] => False
  | x :: new => (∃ y ∈ before, x < y) ∨ Undercut (before ++ [x]) new

theorem undercut_singleton [LT α] {before : List α} {x : α} :
    Undercut before [x] ↔ ∃ y ∈ before, x < y := or_iff_left id

/-- The second of two values is below the first, or below one that the first is below too. -/
theorem undercut_pair [LT α] [LE α] [Std.IsLinearOrder α] [Std.LawfulOrderLT α]
    {before : List α} {x y : α} : Undercut before [x, y] ↔ (∃ z ∈ before, x < z) ∨ y < x := by
  rw [Undercut, undercut_singleton]
  constructor
  · rintro (hx | ⟨z, hz, hlt⟩)
    · exact .inl hx
    · rcases List.mem_append.mp hz with hz | hz
      · by_cases hxz : x < z
        · exact .inl ⟨z, hz, hxz⟩
        · exact .inr (Std.lt_of_lt_of_le hlt (Std.not_lt.mp hxz))
      · rw [List.mem_singleton.mp hz] at hlt
        exact .inr hlt
  · rintro (hx | hlt)
    · exact .inl hx
    · exact .inr ⟨x, List.mem_append_right _ (List.mem_singleton_self x), hlt⟩

variable [LE α]

/-- From an occurrence of `x` on, a value is followed by a lower one. -/
def BeforeDescent (xs : List α) (x : α) : Prop :=
  ∃ pre post, xs = pre ++ x :: post ∧ ¬ List.IsChain (· ≤ ·) (x :: post)

theorem BeforeDescent.mem {xs : List α} {x : α} (h : BeforeDescent xs x) : x ∈ xs := by
  obtain ⟨pre, post, rfl, -⟩ := h
  exact List.mem_append_right pre List.mem_cons_self

theorem le_last_of_not_beforeDescent [Std.IsPreorder α] {xs : List α} {x last : α} (hx : x ∈ xs)
    (h : ¬ BeforeDescent xs x) (hlast : xs.getLast? = some last) : x ≤ last := by
  obtain ⟨pre, post, rfl⟩ := List.append_of_mem hx
  have hrise : List.Pairwise (· ≤ ·) (x :: post) :=
    List.isChain_iff_pairwise.mp (by_contra fun hd => h ⟨pre, post, rfl, hd⟩)
  rw [List.getLast?_append_cons] at hlast
  rcases List.mem_cons.mp (List.mem_of_getLast? hlast) with rfl | hmem
  · exact Std.le_refl last
  · exact List.rel_of_pairwise_cons hrise hmem

end Support
