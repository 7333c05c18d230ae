import Mathlib.Algebra.BigOperators.Group.Finset.Basic
import Tunnel.Support.Counters

/-!
# Support — Rollups

Sums by key over the entries of a table that is walked in no particular order, and the heaviest of
the rows they give.

* `Lists`: an order in which a table may be walked.  `total_eq_sum_of_lists`: a sum over the table is
  one over the walk.
* `rollUp`, `lookup_rollUp`: one accumulator for each key, made by the elements with that key in the
  order they come.
* `heaviest`, `Ranked`: the rows by weight, and those past a cap left out.
* `sum_count_of_subset`: counts by key add up to the number of elements.
-/

namespace Support

variable {α K V A : Type}

/-! ### Walks -/

section Keys
variable [DecidableEq K]

/-- `ks` is an order in which a table's keys may be visited. -/
def Lists (ks : List K) (t : Table K V) : Prop := ks.Nodup ∧ ∀ k, k ∈ ks ↔ t.lookup k ≠ none

theorem lists_iff {ks : List K} {t : Table K V} : Lists ks t ↔ ks.Nodup ∧ ks.toFinset = t.keys := by
  refine and_congr_right fun _ => ?_
  simp only [Finset.ext_iff, List.mem_toFinset, Finmap.mem_keys, ← Finmap.lookup_isSome,
    Option.isSome_iff_ne_none]

theorem exists_lists (t : Table K V) : ∃ ks, Lists ks t := by
  refine ⟨t.keys.toList, Finset.nodup_toList _, fun k => ?_⟩
  rw [Finset.mem_toList, Finmap.mem_keys, ← Finmap.lookup_isSome, Option.isSome_iff_ne_none]

theorem total_eq_sum_of_lists {ks : List K} {t : Table K V} (h : Lists ks t) (f : K → V → ℕ) :
    Finmap.total f t = (ks.map fun k => ((t.lookup k).map (f k)).getD 0).sum := by
  rw [Finmap.total_eq_sum_keys, ← (lists_iff.mp h).2, List.sum_toFinset _ h.1]

theorem size_eq_length_of_lists {ks : List K} {t : Table K V} (h : Lists ks t) :
    t.size = ks.length := by
  rw [Finmap.size_eq_card_keys, ← (lists_iff.mp h).2, List.toFinset_card_of_nodup h.1]

/-! ### Accumulators -/

/-- `step(map.entry(key).or_insert_with(init))`. -/
def upsert (t : Table K A) (k : K) (init : A) (step : A → A) : Table K A :=
  t.insert k (step ((t.lookup k).getD init))

/-- The elements in order, each into the accumulator of its key. -/
def rollUp (key : α → K) (init : α → A) (step : α → A → A) (xs : List α) : Table K A :=
  xs.foldl (fun t x => upsert t (key x) (init x) (step x)) ∅

/-- What elements of one key make of an accumulator there may be. -/
def accumulate (init : α → A) (step : α → A → A) (a : Option A) (xs : List α) : Option A :=
  xs.foldl (fun a x => some (step x (a.getD (init x)))) a

theorem lookup_foldl_upsert (key : α → K) (init : α → A) (step : α → A → A) (xs : List α)
    (t : Table K A) (k : K) :
    (xs.foldl (fun t x => upsert t (key x) (init x) (step x)) t).lookup k =
      accumulate init step (t.lookup k) (xs.filter (key · = k)) := by
  induction xs generalizing t with
  | nil => rfl
  | cons x xs ih =>
      rw [List.foldl_cons, ih, upsert, Finmap.lookup_insert_eq]
      by_cases h : key x = k
      · subst h
        rw [if_pos rfl, List.filter_cons_of_pos (by simp)]
        rfl
      · rw [if_neg (Ne.symm h), List.filter_cons_of_neg (by simpa using h)]

/-- The accumulator of a key is made by the elements with that key. -/
theorem lookup_rollUp (key : α → K) (init : α → A) (step : α → A → A) (xs : List α) (k : K) :
    (rollUp key init step xs).lookup k = accumulate init step none (xs.filter (key · = k)) :=
  lookup_foldl_upsert key init step xs ∅ k

theorem accumulate_concat (init : α → A) (step : α → A → A) (a : Option A) (xs : List α) (x : α) :
    accumulate init step a (xs ++ [x]) =
      some (step x ((accumulate init step a xs).getD (init x))) := by
  rw [accumulate, List.foldl_append]
  rfl

/-- What a first element makes, and every further one keeps. -/
theorem accumulate_spec {init : α → A} {step : α → A → A} {P : List α → A → Prop}
    (hinit : ∀ x, P [x] (step x (init x))) (hstep : ∀ xs x a, P xs a → P (xs ++ [x]) (step x a))
    (xs : List α) : xs = [] ∧ accumulate init step none xs = none ∨
      ∃ a, accumulate init step none xs = some a ∧ P xs a := by
  induction xs using List.reverseRecOn with
  | nil => exact .inl ⟨rfl, rfl⟩
  | append_singleton xs x ih =>
      rw [accumulate_concat]
      refine .inr ⟨_, rfl, ?_⟩
      rcases ih with ⟨rfl, hn⟩ | ⟨a, ha, hP⟩
      · rw [hn]
        exact hinit x
      · rw [ha]
        exact hstep xs x a hP

/-- There is an accumulator for each key an element has, and it is what those elements make of it. -/
theorem rollUp_spec (key : α → K) {init : α → A} {step : α → A → A} {P : List α → A → Prop}
    (hinit : ∀ x, P [x] (step x (init x))) (hstep : ∀ xs x a, P xs a → P (xs ++ [x]) (step x a))
    (xs : List α) (k : K) :
    ((rollUp key init step xs).lookup k ≠ none ↔ ∃ x ∈ xs, key x = k) ∧
      ∀ a, (rollUp key init step xs).lookup k = some a → P (xs.filter (key · = k)) a := by
  have hnil : xs.filter (key · = k) = [] ↔ ¬ ∃ x ∈ xs, key x = k := by
    simp [List.filter_eq_nil_iff]
  rw [lookup_rollUp]
  rcases accumulate_spec hinit hstep (xs.filter (key · = k)) with ⟨he, hn⟩ | ⟨a, ha, hP⟩
  · rw [hn]
    exact ⟨iff_of_false (not_not.mpr rfl) (hnil.mp he), nofun⟩
  · have hne : xs.filter (key · = k) ≠ [] := by
      intro he
      rw [he] at ha
      cases ha
    rw [ha]
    refine ⟨iff_of_true (Option.some_ne_none a) (not_not.mp (hnil.not.mp hne)), ?_⟩
    rintro b ⟨⟩
    exact hP

end Keys

/-- A sum over the elements that pass a test. -/
theorem sum_map_filter (p : α → Bool) (g : α → ℕ) (xs : List α) :
    ((xs.filter p).map g).sum = (xs.map fun x => if p x then g x else 0).sum := by
  induction xs with
  | nil => rfl
  | cons x xs ih =>
      cases h : p x <;> simp [h, ih]

/-! ### Counts -/

section Counts
variable [DecidableEq K]

/-- `*counts.entry(key).or_insert(0) += 1`, over the elements. -/
def countBy (key : α → K) (xs : List α) : Counters K := xs.foldl (fun c x => c.add (key x) 1) ∅

theorem get_foldl_add (key : α → K) (xs : List α) (c : Counters K) (k : K) :
    (xs.foldl (fun c x => c.add (key x) 1) c).get k = c.get k + (xs.map key).count k := by
  induction xs generalizing c with
  | nil => rfl
  | cons x xs ih =>
      rw [List.foldl_cons, ih, Counters.get_add, List.map_cons, List.count_cons]
      by_cases h : key x = k
      · rw [if_pos h.symm, if_pos (by simpa using h)]
        omega
      · rw [if_neg (Ne.symm h), if_neg (by simpa using h)]
        omega

theorem get_countBy (key : α → K) (xs : List α) (k : K) :
    (countBy key xs).get k = (xs.map key).count k :=
  (get_foldl_add key xs ∅ k).trans (Nat.zero_add _)

/-- Counts by key add up to the number of elements. -/
theorem sum_count_of_subset {ks ys : List K} (hn : ks.Nodup) (h : ys ⊆ ks) :
    (ks.map fun k => ys.count k).sum = ys.length := by
  have hcard : ∑ k ∈ ks.toFinset, (ys : Multiset K).count k = (ys : Multiset K).card :=
    Multiset.sum_count_eq_card fun y hy => List.mem_toFinset.mpr (h (Multiset.mem_coe.mp hy))
  rw [← List.sum_toFinset _ hn]
  simpa only [Multiset.coe_count, Multiset.coe_card] using hcard

end Counts

/-! ### The heaviest -/

variable {ι ρ : Type}

/-- `rows.sort_by(|a, b| weight(b).cmp(&weight(a))); rows.truncate(cap)`. -/
def heaviest (weight : ρ → ℕ) (cap : ℕ) (rows : List ρ) : List ρ :=
  (rows.mergeSort fun a b => weight b ≤ weight a).take cap

/-- The rows kept are those of as many keys as the cap lets, by weight; no row left out is heavier. -/
def Ranked (row : ι → ρ → Prop) (weight : ρ → ℕ) (cap : ℕ) (all : ι → Prop) (kept : List ρ) : Prop :=
  ∃ ks omitted, ks.Nodup ∧ (∀ k, k ∈ ks ↔ all k) ∧ List.Forall₂ row ks (kept ++ omitted) ∧
    kept.length = min cap ks.length ∧ kept.Pairwise (fun a b => weight b ≤ weight a) ∧
    ∀ a ∈ kept, ∀ b ∈ omitted, weight b ≤ weight a

theorem pairwise_mergeSort_weight (weight : ρ → ℕ) (rows : List ρ) :
    (rows.mergeSort fun a b => weight b ≤ weight a).Pairwise fun a b => weight b ≤ weight a := by
  have h := @List.pairwise_mergeSort _ (fun a b => decide (weight b ≤ weight a))
    (fun a b c hab hbc => by simp only [decide_eq_true_eq] at *; omega)
    (fun a b => by simp only [Bool.or_eq_true, decide_eq_true_eq]; omega) rows
  exact h.imp of_decide_eq_true

theorem ranked_heaviest {row : ι → ρ → Prop} {all : ι → Prop} {ks : List ι} {rows : List ρ}
    (hn : ks.Nodup) (hall : ∀ k, k ∈ ks ↔ all k) (h : List.Forall₂ row ks rows) (weight : ρ → ℕ)
    (cap : ℕ) : Ranked row weight cap all (heaviest weight cap rows) := by
  set sorted := rows.mergeSort fun a b => weight b ≤ weight a with hs
  have hperm : rows.Perm sorted := (List.mergeSort_perm rows _).symm
  obtain ⟨ks', hks, hrows⟩ : Relation.Comp List.Perm (List.Forall₂ row) ks sorted := by
    rw [← List.forall₂_comp_perm_eq_perm_comp_forall₂]
    exact ⟨rows, h, hperm⟩
  have hsorted := pairwise_mergeSort_weight weight rows
  rw [← hs, ← List.take_append_drop cap sorted, List.pairwise_append] at hsorted
  refine ⟨ks', sorted.drop cap, hks.nodup_iff.mp hn, fun k => hks.mem_iff.symm.trans (hall k), ?_,
    ?_, hsorted.1, hsorted.2.2⟩
  · rwa [heaviest, ← hs, List.take_append_drop]
  · rw [heaviest, ← hs, List.length_take, hrows.length_eq]

end Support
