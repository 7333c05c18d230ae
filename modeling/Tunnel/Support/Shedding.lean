import Mathlib.Data.List.Induction
import Mathlib.Data.List.InsertIdx
import Mathlib.Order.Nat

/-!
# Support — Shedding

A list that loses elements, the last of the highest priority first, until what is left fits.  An
element of priority zero is never lost.

* `maxByKey_spec`: the last maximum, and where it stands.
* `Sheds`: what is left of a list, as a relation.  `sheds_shed`: the loop computes it.
* `Sheds.sublist`, `Sheds.filter_eq`, `Sheds.not_mem_of_sooner`: what is left is in order, has every
  element of priority zero, and lacks whatever goes sooner than something it lacks.
* `shed_shed`: a loop with a laxer end stops on the way of a stricter one.
-/

namespace Support

variable {α β : Type}

/-! ### The last maximum -/

/-- `iter.max_by_key(key)`: of the elements with the highest key, the last. -/
def maxByKey (key : α → ℕ) (xs : List α) : Option α :=
  xs.foldl (fun best x => match best with
    | none => some x
    | some b => if key b ≤ key x then some x else some b) none

theorem maxByKey_concat (key : α → ℕ) (xs : List α) (x : α) :
    maxByKey key (xs ++ [x]) = match maxByKey key xs with
      | none => some x
      | some b => if key b ≤ key x then some x else some b := by
  rw [maxByKey, List.foldl_append]
  rfl

/-- No key before the last maximum is higher, and every key after it is lower. -/
theorem maxByKey_spec (key : α → ℕ) (xs : List α) :
    xs = [] ∧ maxByKey key xs = none ∨
      ∃ l x r, xs = l ++ x :: r ∧ maxByKey key xs = some x ∧ (∀ y ∈ l, key y ≤ key x) ∧
        ∀ y ∈ r, key y < key x := by
  induction xs using List.reverseRecOn with
  | nil => exact .inl ⟨rfl, rfl⟩
  | append_singleton xs z ih =>
      right
      rw [maxByKey_concat]
      rcases ih with ⟨rfl, hn⟩ | ⟨l, x, r, rfl, hx, hl, hr⟩
      · rw [hn]
        exact ⟨[], z, [], rfl, rfl, by simp, by simp⟩
      · rw [hx]
        by_cases hz : key x ≤ key z
        · refine ⟨l ++ x :: r, z, [], rfl, if_pos hz, fun y hy => ?_, by simp⟩
          rcases List.mem_append.mp hy with hy | hy
          · exact (hl y hy).trans hz
          · rcases List.mem_cons.mp hy with rfl | hy
            · exact hz
            · exact (hr y hy).le.trans hz
        · refine ⟨l, x, r ++ [z], by simp, if_neg hz, hl, fun y hy => ?_⟩
          rcases List.mem_append.mp hy with hy | hy
          · exact hr y hy
          · rw [List.mem_singleton.mp hy]
            omega

theorem maxByKey_map (key : β → ℕ) (f : α → β) (xs : List α) :
    maxByKey key (xs.map f) = (maxByKey (key ∘ f) xs).map f := by
  induction xs using List.reverseRecOn with
  | nil => rfl
  | append_singleton xs x ih =>
      rw [List.map_append, List.map_singleton, maxByKey_concat, maxByKey_concat, ih]
      cases maxByKey (key ∘ f) xs with
      | none => rfl
      | some b => exact (apply_ite (Option.map f) (key (f b) ≤ key (f x)) (some x) (some b)).symm

/-! ### The loop -/

/-- The index of the next element to go. -/
def victim (prio : α → ℕ) (xs : List α) : Option ℕ :=
  (maxByKey (fun p => prio p.1) (xs.zipIdx.filter fun p => 0 < prio p.1)).map Prod.snd

/-- `x` goes next: it may go, nothing before it has a higher priority, and everything after it a
lower one. -/
def Next (prio : α → ℕ) (l : List α) (x : α) (r : List α) : Prop :=
  0 < prio x ∧ (∀ y ∈ l, prio y ≤ prio x) ∧ ∀ y ∈ r, prio y < prio x

/-- Positions rise along a list. -/
theorem pairwise_snd_zipIdx (xs : List α) : xs.zipIdx.Pairwise fun a b => a.2 < b.2 := by
  have h : (xs.zipIdx.map Prod.snd).Pairwise (· < ·) := by
    rw [List.zipIdx_map_snd]
    exact List.pairwise_lt_range'
  exact List.pairwise_map.mp h

/-- There is a next element to go unless none may. -/
theorem victim_spec (prio : α → ℕ) (xs : List α) :
    victim prio xs = none ∧ (∀ y ∈ xs, prio y = 0) ∨
      ∃ l x r, xs = l ++ x :: r ∧ victim prio xs = some l.length ∧ Next prio l x r := by
  have hmem : ∀ (ys : List α) (k : ℕ), ∀ y ∈ ys, 0 < prio y →
      ∃ j, (y, j) ∈ (ys.zipIdx k).filter fun p => 0 < prio p.1 := by
    intro ys k y hy h0
    rw [← List.zipIdx_map_fst k ys] at hy
    obtain ⟨⟨y, j⟩, hj, rfl⟩ := List.mem_map.mp hy
    exact ⟨j, List.mem_filter.mpr ⟨hj, decide_eq_true h0⟩⟩
  rcases maxByKey_spec (fun p : α × ℕ => prio p.1) (xs.zipIdx.filter fun p => 0 < prio p.1) with
    ⟨he, hn⟩ | ⟨l, p, r, he, hp, hl, hr⟩
  · refine .inl ⟨by rw [victim, hn]; rfl, fun y hy => ?_⟩
    by_contra h
    obtain ⟨j, hj⟩ := hmem xs 0 y hy (Nat.pos_of_ne_zero h)
    rw [he] at hj
    cases hj
  · -- The cut of the numbered candidates is one of the list.
    obtain ⟨l₁, l₂, hz, rfl, h₂⟩ := List.filter_eq_append_iff.mp he
    obtain ⟨l₃, l₄, rfl, h₃, hp0, rfl⟩ := List.filter_eq_cons_iff.mp h₂
    rw [← List.append_assoc] at hz
    obtain ⟨l, r, rfl, hl₁, hr₁⟩ := List.zipIdx_eq_append_iff.mp hz
    obtain ⟨x, r, rfl, rfl, rfl⟩ := List.zipIdx_eq_cons_iff.mp hr₁.symm
    have h0 : 0 < prio x := of_decide_eq_true hp0
    refine .inr ⟨l, x, r, rfl, by rw [victim, hp, Nat.zero_add]; rfl, h0, fun y hy => ?_,
      fun y hy => ?_⟩
    · rcases Nat.eq_zero_or_pos (prio y) with hy0 | hy0
      · omega
      obtain ⟨j, hj⟩ := hmem l 0 y hy hy0
      rw [← hl₁, List.filter_append, List.filter_eq_nil_iff.mpr h₃, List.append_nil] at hj
      exact hl _ hj
    · rcases Nat.eq_zero_or_pos (prio y) with hy0 | hy0
      · omega
      obtain ⟨j, hj⟩ := hmem r _ y hy hy0
      exact hr _ hj

theorem victim_lt {prio : α → ℕ} {xs : List α} {i : ℕ} (h : victim prio xs = some i) :
    i < xs.length := by
  rcases victim_spec prio xs with ⟨hn, -⟩ | ⟨l, x, r, rfl, hl, -⟩
  · rw [hn] at h
    cases h
  · cases hl.symm.trans h
    simp

theorem victim_map (prio : β → ℕ) (f : α → β) (xs : List α) :
    victim prio (xs.map f) = victim (prio ∘ f) xs := by
  rw [victim, victim, List.zipIdx_map, List.filter_map, maxByKey_map, Option.map_map]
  rfl

section Shed
variable (prio : α → ℕ) (fits : List α → Prop) [DecidablePred fits]

/-- `xs` less the elements that go until the rest fits or none may go. -/
def shed (xs : List α) : List α :=
  if fits xs then xs
  else match _ : victim prio xs with
    | some i => shed (xs.eraseIdx i)
    | none => xs
termination_by xs.length
decreasing_by
  next h =>
    have hi := victim_lt h
    rw [List.length_eraseIdx_of_lt hi]
    omega

variable {prio fits}

theorem shed_of_victim {xs : List α} {i : ℕ} (h : ¬ fits xs) (hi : victim prio xs = some i) :
    shed prio fits xs = shed prio fits (xs.eraseIdx i) := by
  rw [shed, if_neg h]
  split
  · next j hj =>
    cases hj.symm.trans hi
    rfl
  · next hj => cases hj.symm.trans hi

theorem shed_of_no_victim {xs : List α} (h : ¬ fits xs) (hi : victim prio xs = none) :
    shed prio fits xs = xs := by
  rw [shed, if_neg h]
  split
  · next j hj => cases hj.symm.trans hi
  · rfl

variable (prio fits)

/-- What is left of a list. -/
inductive Sheds : List α → List α → Prop where
  | fits {xs : List α} (h : fits xs) : Sheds xs xs
  | stuck {xs : List α} (h : ¬ fits xs) (h0 : ∀ y ∈ xs, prio y = 0) : Sheds xs xs
  | drop {l r zs : List α} {x : α} (h : ¬ fits (l ++ x :: r)) (hx : Next prio l x r)
      (t : Sheds (l ++ r) zs) : Sheds (l ++ x :: r) zs

theorem sheds_shed (xs : List α) : Sheds prio fits xs (shed prio fits xs) := by
  fun_induction shed prio fits xs with
  | case1 xs h => exact .fits h
  | case2 xs h i hi ih =>
      rcases victim_spec prio xs with ⟨hn, -⟩ | ⟨l, x, r, rfl, hl, hx⟩
      · rw [hn] at hi
        cases hi
      · cases hl.symm.trans hi
        rw [List.eraseIdx_append_of_length_le le_rfl, Nat.sub_self, List.eraseIdx_cons_zero] at ih ⊢
        exact .drop h hx ih
  | case3 xs h hi =>
      rcases victim_spec prio xs with ⟨-, h0⟩ | ⟨l, x, r, rfl, hl, -⟩
      · exact .stuck h h0
      · rw [hl] at hi
        cases hi

end Shed

/-! ### What is left -/

namespace Sheds
variable {prio : α → ℕ} {fits : List α → Prop} {xs ys : List α}

theorem sublist (h : Sheds prio fits xs ys) : ys.Sublist xs := by
  induction h with
  | fits | stuck => exact List.Sublist.refl _
  | drop _ _ _ ih => exact ih.trans ((List.sublist_cons_self _ _).append_left _)

/-- An element of priority zero never goes. -/
theorem filter_eq (h : Sheds prio fits xs ys) :
    ys.filter (prio · = 0) = xs.filter (prio · = 0) := by
  induction h with
  | fits | stuck => rfl
  | drop _ hx _ ih =>
      rw [ih, List.filter_append, List.filter_append, List.filter_cons_of_neg]
      simpa using hx.1.ne'

theorem fits_or (h : Sheds prio fits xs ys) : fits ys ∨ ¬ fits ys ∧ ∀ y ∈ ys, prio y = 0 := by
  induction h with
  | fits h => exact .inl h
  | stuck h h0 => exact .inr ⟨h, h0⟩
  | drop _ _ _ ih => exact ih

/-- Whatever goes sooner than an element that went, by priority and then from the end, went too. -/
theorem not_mem_of_sooner (h : Sheds prio fits xs ys) {pos : α → ℕ}
    (hpos : xs.Pairwise fun a b => pos a < pos b) {a b : α} (ha : a ∈ xs) (hna : a ∉ ys)
    (hb : b ∈ xs) (hab : prio a < prio b ∨ prio a = prio b ∧ pos a < pos b) : b ∉ ys := by
  induction h with
  | fits | stuck => exact absurd ha hna
  | @drop l r zs x _ hx t ih =>
      have hsort := hpos
      rw [List.pairwise_append, List.pairwise_cons] at hsort
      obtain ⟨-, ⟨hafter, -⟩, hbefore⟩ := hsort
      -- Nothing in the list goes sooner than `x`.
      have hfirst : ¬ (prio x < prio b ∨ prio x = prio b ∧ pos x < pos b) := by
        rcases List.mem_append.mp hb with hb | hb
        · have := hx.2.1 b hb
          have := hbefore b hb x List.mem_cons_self
          omega
        · rcases List.mem_cons.mp hb with rfl | hb
          · omega
          · have := hx.2.2 b hb
            omega
      have hne : a ≠ x := fun he => hfirst (he ▸ hab)
      have hin : ∀ c ∈ l ++ x :: r, c ≠ x → c ∈ l ++ r := by
        intro c hc hcx
        rw [List.mem_append, List.mem_cons] at hc
        rw [List.mem_append]
        exact hc.imp_right fun h => h.resolve_left hcx
      by_cases hbx : b = x
      · -- `x` itself is not among those that are left.
        subst hbx
        intro hmem
        rcases List.mem_append.mp (t.sublist.subset hmem) with hl | hr
        · exact absurd (hbefore b hl b List.mem_cons_self) (Nat.lt_irrefl _)
        · exact absurd (hafter b hr) (Nat.lt_irrefl _)
      · exact ih (hpos.sublist ((List.sublist_cons_self x r).append_left l)) (hin a ha hne) hna
          (hin b hb hbx)

end Sheds

/-- A loop that stops at whatever a second one stops at leaves what the second makes of what it
itself leaves. -/
theorem shed_shed (prio : α → ℕ) {fits fits' : List α → Prop} [DecidablePred fits]
    [DecidablePred fits'] (himp : ∀ xs, fits xs → fits' xs) (xs : List α) :
    shed prio fits (shed prio fits' xs) = shed prio fits xs := by
  fun_induction shed prio fits' xs with
  | case1 | case3 => rfl
  | case2 xs h i hi ih =>
      rw [ih, shed_of_victim (mt (himp xs) h) hi]

/-- What is left of renamed elements. -/
theorem shed_map (prio : β → ℕ) (fits : List β → Prop) [DecidablePred fits] (f : α → β)
    (xs : List α) :
    (shed (prio ∘ f) (fun ys => fits (ys.map f)) xs).map f = shed prio fits (xs.map f) := by
  fun_induction shed (prio ∘ f) (fun ys => fits (ys.map f)) xs with
  | case1 xs h => rw [shed, if_pos h]
  | case2 xs h i hi ih =>
      rw [ih, shed_of_victim h ((victim_map prio f xs).trans hi), List.eraseIdx_map]
  | case3 xs h hi =>
      rw [shed_of_no_victim h ((victim_map prio f xs).trans hi)]

end Support
