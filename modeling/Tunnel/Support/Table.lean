import Mathlib.Algebra.BigOperators.Group.Multiset.Basic
import Mathlib.Algebra.Order.BigOperators.Group.Multiset
import Mathlib.Combinatorics.Enumerative.DoubleCounting
import Mathlib.Data.Finmap

/-!
# Support — Tables

A hash map as Mathlib's `Finmap`: keys, values, and no order.  What a program does to one beyond
inserting and erasing: `retain` the entries that pass a test, erase a collection of keys in whatever
order they come (`eraseAll`), count the entries (`size`) and sum a quantity over them (`total`).

* `lookup_insert_eq`, `lookup_erase_eq`, `lookup_retain`, `lookup_eraseAll`: what each operation
  leaves at a key.
* `total_of_lookup`, `total_insert`, `total_retain_add`, `total_congr`: a sum over the entries, one
  entry at a time, split by a test, and of another table.
* `size_retain_eq_iff`: when a table loses nothing.
* `size_eq_of_inverse`: two tables that index each other have equally many entries.
-/

namespace Support

/-- A finite map with constant value type. -/
abbrev Table (K V : Type) := Finmap fun _ : K => V

end Support

namespace Finmap
open Support

variable {K V : Type}

section Keys
variable [DecidableEq K]

theorem lookup_insert_eq (t : Table K V) (k j : K) (v : V) :
    (t.insert k v).lookup j = if j = k then some v else t.lookup j := by
  by_cases h : j = k
  · subst h; simp
  · rw [Finmap.lookup_insert_of_ne _ h, if_neg h]

theorem lookup_erase_eq (t : Table K V) (k j : K) :
    (t.erase k).lookup j = if j = k then none else t.lookup j := by
  by_cases h : j = k
  · subst h; simp
  · rw [Finmap.lookup_erase_ne h, if_neg h]

theorem lookup_eq_some_iff_mem {t : Table K V} {k : K} {v : V} :
    t.lookup k = some v ↔ (⟨k, v⟩ : Σ _ : K, V) ∈ t.entries :=
  Finmap.lookup_eq_some_iff

end Keys

/-! ### Retaining a part -/

/-- `t.retain(p)`: the entries that pass the test. -/
def retain (t : Table K V) (p : K → V → Bool) : Table K V :=
  ⟨t.entries.filter fun e => p e.1 e.2, by
    have h : (t.entries.filter fun e => p e.1 e.2).keys ≤ t.entries.keys :=
      Multiset.map_le_map (Multiset.filter_le _ _)
    exact Multiset.nodup_keys.mp (Multiset.nodup_of_le h (Multiset.nodup_keys.mpr t.nodupKeys))⟩

theorem lookup_retain [DecidableEq K] (t : Table K V) (p : K → V → Bool) (k : K) :
    (t.retain p).lookup k = (t.lookup k).filter (p k) := by
  ext v
  simp only [lookup_eq_some_iff_mem, retain, Multiset.mem_filter, Option.filter_eq_some_iff]

section Keys
variable [DecidableEq K]

/-- Erase every key of a collection, one at a time; the order does not matter. -/
def eraseAll (t : Table K V) (ks : Multiset K) : Table K V :=
  letI : RightCommutative fun (t : Table K V) k => t.erase k := ⟨fun _ _ _ => Finmap.erase_erase⟩
  ks.foldl (fun t k => t.erase k) t

@[simp] theorem eraseAll_zero (t : Table K V) : t.eraseAll 0 = t := rfl

@[simp] theorem eraseAll_cons (t : Table K V) (k : K) (ks : Multiset K) :
    t.eraseAll (k ::ₘ ks) = (t.erase k).eraseAll ks := by
  rw [eraseAll, Multiset.foldl_cons, eraseAll]

theorem lookup_eraseAll (t : Table K V) (ks : Multiset K) (k : K) :
    (t.eraseAll ks).lookup k = if k ∈ ks then none else t.lookup k := by
  induction ks using Multiset.induction generalizing t with
  | empty => simp
  | cons j ks ih =>
      rw [eraseAll_cons, ih, lookup_erase_eq]
      by_cases hk : k ∈ ks <;> by_cases hj : k = j <;> simp [hk, hj]

end Keys

/-! ### Sums over the entries -/

/-- The sum of `f` over the entries. -/
def total (f : K → V → ℕ) (t : Table K V) : ℕ := (t.entries.map fun e => f e.1 e.2).sum

/-- `t.len()`. -/
def size (t : Table K V) : ℕ := t.entries.card

/-- A sum, split by a test. -/
theorem total_retain_add (f : K → V → ℕ) (t : Table K V) (p : K → V → Bool) :
    total f (t.retain p) + total f (t.retain fun k v => !p k v) = total f t := by
  have hn : t.entries.filter (fun e => !p e.1 e.2) = t.entries.filter fun e => ¬ p e.1 e.2 := by
    simp
  simp only [total, retain]
  rw [hn, ← Multiset.sum_add, ← Multiset.map_add, Multiset.filter_add_not]

theorem size_eq_total (t : Table K V) : t.size = total (fun _ _ => 1) t := by
  simp [size, total]

theorem size_eq_card_keys (t : Table K V) : t.size = t.keys.card := by
  simp [size, Finmap.keys, Finset.card, Multiset.keys]

theorem size_retain_le (t : Table K V) (p : K → V → Bool) : (t.retain p).size ≤ t.size :=
  Multiset.card_le_card (Multiset.filter_le _ _)

/-- Nothing is dropped exactly when every entry passes the test. -/
theorem size_retain_eq_iff [DecidableEq K] {t : Table K V} {p : K → V → Bool} :
    (t.retain p).size = t.size ↔ ∀ k v, t.lookup k = some v → p k v = true := by
  have hle : (t.entries.filter fun e => p e.1 e.2) ≤ t.entries := Multiset.filter_le _ _
  have hfilter : (t.retain p).size = t.size ↔
      (t.entries.filter fun e => p e.1 e.2) = t.entries :=
    ⟨fun h => Multiset.eq_of_le_of_card_le hle (Nat.le_of_eq h.symm), congrArg Multiset.card⟩
  rw [hfilter, Multiset.filter_eq_self]
  refine ⟨fun h k v hv => h ⟨k, v⟩ (lookup_eq_some_iff_mem.mp hv), fun h e he => ?_⟩
  exact h e.1 e.2 (lookup_eq_some_iff_mem.mpr he)

section Keys
variable [DecidableEq K]

theorem insert_erase (t : Table K V) (k : K) (v : V) : (t.erase k).insert k v = t.insert k v :=
  Finmap.ext_lookup fun j => by
    rw [lookup_insert_eq, lookup_insert_eq, lookup_erase_eq]; split <;> rfl

theorem insert_lookup {t : Table K V} {k : K} {v : V} (h : t.lookup k = some v) :
    t.insert k v = t :=
  Finmap.ext_lookup fun j => by
    rw [lookup_insert_eq]
    split
    · next e => rw [e, h]
    · rfl

/-- The sum after an insertion: the new entry, and what the key did not hold before. -/
theorem total_insert (f : K → V → ℕ) (t : Table K V) (k : K) (v : V) :
    total f (t.insert k v) = f k v + total f (t.erase k) := by
  rw [← insert_erase, total, Finmap.entries_insert_of_notMem Finmap.notMem_erase_self]
  simp [total]

/-- The sum, split at a key the table holds. -/
theorem total_of_lookup (f : K → V → ℕ) {t : Table K V} {k : K} {v : V}
    (h : t.lookup k = some v) : total f t = f k v + total f (t.erase k) := by
  conv_lhs => rw [← insert_lookup h]
  exact total_insert f t k v

theorem erase_of_lookup_none {t : Table K V} {k : K} (h : t.lookup k = none) : t.erase k = t :=
  Finmap.ext_lookup fun j => by
    rw [lookup_erase_eq]
    split
    · next e => rw [e, h]
    · rfl

theorem total_eq_sum_keys (f : K → V → ℕ) (t : Table K V) :
    total f t = ∑ k ∈ t.keys, ((t.lookup k).map (f k)).getD 0 := by
  have he : t.entries.map (fun e => f e.1 e.2) =
      t.entries.map fun e => ((t.lookup e.1).map (f e.1)).getD 0 := by
    refine Multiset.map_congr rfl fun e he => ?_
    rw [lookup_eq_some_iff_mem.mpr he]
    rfl
  rw [total, he]
  simp [Finset.sum, Finmap.keys, Multiset.keys]

/-- A sum depends on what it adds up, and on nothing else of the entries. -/
theorem total_congr {W : Type} {f : K → V → ℕ} {g : K → W → ℕ} {t : Table K V} {u : Table K W}
    (h : ∀ k, (t.lookup k).map (f k) = (u.lookup k).map (g k)) : total f t = total g u := by
  have hkeys : t.keys = u.keys := by
    ext k
    rw [mem_keys, mem_keys, ← lookup_isSome, ← lookup_isSome, ← Option.isSome_map (f := f k), h,
      Option.isSome_map]
  rw [total_eq_sum_keys, total_eq_sum_keys, hkeys]
  exact Finset.sum_congr rfl fun k _ => by rw [h]

/-! ### Sizes -/

theorem size_insert_of_lookup_none {t : Table K V} {k : K} (v : V) (h : t.lookup k = none) :
    (t.insert k v).size = t.size + 1 := by
  rw [size_eq_total, total_insert, erase_of_lookup_none h, size_eq_total, Nat.add_comm]

theorem size_erase_add_one {t : Table K V} {k : K} {v : V} (h : t.lookup k = some v) :
    (t.erase k).size + 1 = t.size := by
  rw [size_eq_total, size_eq_total, total_of_lookup _ h, Nat.add_comm]

theorem size_insert_of_lookup_some {t : Table K V} {k : K} {v w : V} (h : t.lookup k = some w) :
    (t.insert k v).size = t.size := by
  rw [← size_erase_add_one h, size_eq_total, total_insert, size_eq_total, Nat.add_comm]

theorem size_insert_le (t : Table K V) (k : K) (v : V) : (t.insert k v).size ≤ t.size + 1 := by
  cases h : t.lookup k with
  | none => exact Nat.le_of_eq (size_insert_of_lookup_none v h)
  | some w => exact (size_insert_of_lookup_some h).trans_le (Nat.le_succ _)

theorem size_erase_le (t : Table K V) (k : K) : (t.erase k).size ≤ t.size := by
  cases h : t.lookup k with
  | none => rw [erase_of_lookup_none h]
  | some v => rw [← size_erase_add_one h]; exact Nat.le_succ _

/-- A sum of bounded terms. -/
theorem total_le_mul_size {f : K → V → ℕ} {t : Table K V} {c : ℕ}
    (h : ∀ k v, t.lookup k = some v → f k v ≤ c) : total f t ≤ c * t.size := by
  rw [total_eq_sum_keys, size_eq_card_keys, Nat.mul_comm]
  refine Finset.sum_le_card_nsmul _ _ _ fun k _ => ?_
  cases hk : t.lookup k with
  | none => exact Nat.zero_le _
  | some v => exact h k v hk

/-- A table whose entries name distinct entries of another is no larger. -/
theorem size_le_of_inverse {L W : Type} [DecidableEq L] {t : Table K V} {u : Table L W}
    (f : K → V → L) (g : L → W → K)
    (h : ∀ k v, t.lookup k = some v → ∃ w, u.lookup (f k v) = some w ∧ g (f k v) w = k) :
    t.size ≤ u.size := by
  rw [size_eq_card_keys, size_eq_card_keys]
  refine Finset.card_le_card_of_forall_subsingleton
    (fun k l => ∃ v, t.lookup k = some v ∧ f k v = l) (fun k hk => ?_) fun l hl => ?_
  · obtain ⟨v, hv⟩ := mem_iff.mp (mem_keys.mp hk)
    obtain ⟨w, hw, -⟩ := h k v hv
    exact ⟨_, mem_keys.mpr (mem_of_lookup_eq_some hw), v, hv, rfl⟩
  · rintro k₁ ⟨-, v₁, hv₁, rfl⟩ k₂ ⟨-, v₂, hv₂, he⟩
    obtain ⟨w₁, hw₁, hg₁⟩ := h k₁ v₁ hv₁
    obtain ⟨w₂, hw₂, hg₂⟩ := h k₂ v₂ hv₂
    rw [he, hw₁] at hw₂
    rw [← hg₁, ← hg₂, he, Option.some.inj hw₂]

/-- Two tables that index each other have equally many entries. -/
theorem size_eq_of_inverse {L W : Type} [DecidableEq L] {t : Table K V} {u : Table L W}
    (f : K → V → L) (g : L → W → K)
    (h₁ : ∀ k v, t.lookup k = some v → ∃ w, u.lookup (f k v) = some w ∧ g (f k v) w = k)
    (h₂ : ∀ l w, u.lookup l = some w → ∃ v, t.lookup (g l w) = some v ∧ f (g l w) v = l) :
    t.size = u.size :=
  Nat.le_antisymm (size_le_of_inverse f g h₁) (size_le_of_inverse g f h₂)

end Keys

end Finmap
