import Mathlib.Data.Set.Finite.Basic
import Mathlib.Data.Finset.Card
import Mathlib.Data.Set.Card

/-!
# Support — Asking

Things that want an answer, each under a key, and a cache of the keys whose answer is known.  A round
hands out what is known and asks for one key that is not; the cache may be emptied when the answer
is put into it.

* `quiesces_iff`: nothing is asked twice and the questions come to an end exactly when the cache is
  never emptied while something is wanting whose key was asked for before.
-/

namespace Support

variable {ι κ : Type}

/-- What wants an answer, the keys that are known, and those that were asked for, in order. -/
structure Asking (ι κ : Type) where
  wanting : Set ι
  known : Set κ
  asked : List κ

namespace Asking

/-- Nothing is wanting but what is known. -/
def Settled (key : ι → κ) (a : Asking ι κ) : Prop := ∀ i ∈ a.wanting, key i ∈ a.known

/-- The question of a round, with whether the cache was emptied for its answer, and what the round
leaves.  `scanned` is what wants an answer after what is known was handed out. -/
inductive Answer (key : ι → κ) (a : Asking ι κ) (scanned : Set ι) :
    Option (κ × Bool) → Asking ι κ → Prop where
  | rest (settled : a.Settled key) : Answer key a scanned none ⟨scanned, a.known, a.asked⟩
  | ask {i : ι} {left : Set ι} (emptied : Bool) (wants : i ∈ scanned) (unknown : key i ∉ a.known)
      (sub : left ⊆ scanned) (kept : ∀ j ∈ scanned, key j ≠ key i → j ∈ left) :
      Answer key a scanned (some (key i, emptied))
        ⟨left, insert (key i) (if emptied then ∅ else a.known), a.asked ++ [key i]⟩

structure Round (key : ι → κ) (a : Asking ι κ) (scanned : Set ι) (q : Option (κ × Bool))
    (a' : Asking ι κ) : Prop where
  sub : scanned ⊆ a.wanting
  kept : ∀ i ∈ a.wanting, key i ∉ a.known → i ∈ scanned
  answer : Answer key a scanned q a'

/-! ### A round -/

section Round

variable {key : ι → κ} {a a' : Asking ι κ} {scanned : Set ι} {q : Option (κ × Bool)}

theorem Round.wanting (h : Round key a scanned q a') : a'.wanting ⊆ a.wanting := by
  cases h.answer with
  | rest settled => exact h.sub
  | ask emptied wants unknown sub kept => exact sub.trans h.sub

theorem Round.asked (h : Round key a scanned q a') :
    a'.asked = a.asked ++ (q.map Prod.fst).toList := by
  cases h.answer with
  | rest settled => exact (List.append_nil _).symm
  | ask emptied wants unknown sub kept => rfl

/-- What is asked for is wanted. -/
theorem Round.wanted {k : κ} {emptied : Bool} (h : Round key a scanned (some (k, emptied)) a') :
    ∃ i ∈ a.wanting, key i = k := by
  cases h.answer with
  | ask emptied wants unknown sub kept => exact ⟨_, h.sub wants, rfl⟩

theorem Round.eq_none_iff (h : Round key a scanned q a') : q = none ↔ a.Settled key := by
  cases h.answer with
  | rest settled => exact ⟨fun _ => settled, fun _ => rfl⟩
  | ask emptied wants unknown sub kept =>
      exact ⟨nofun, fun hs => absurd (hs _ (h.sub wants)) unknown⟩

/-- Once nothing is asked, nothing is asked any more. -/
theorem Round.settled (h : Round key a scanned none a') : a'.Settled key := by
  cases h.answer with
  | rest settled => exact fun i hi => settled i (h.sub hi)

/-- What was asked for is asked for no more than once, and is known to what still wants it. -/
structure Remembered (key : ι → κ) (a : Asking ι κ) : Prop where
  nodup : a.asked.Nodup
  known : ∀ i ∈ a.wanting, key i ∈ a.asked → key i ∈ a.known

theorem Remembered.round (hr : Remembered key a) (h : Round key a scanned q a')
    (hq : ∀ k, q = some (k, true) → ∀ i ∈ scanned, key i ∉ a.asked) : Remembered key a' := by
  cases h.answer with
  | rest settled => exact ⟨hr.nodup, fun i hi => hr.known i (h.sub hi)⟩
  | @ask i left emptied wants unknown sub kept =>
      have hnew : key i ∉ a.asked := fun hm => unknown (hr.known i (h.sub wants) hm)
      refine ⟨List.nodup_append.mpr ⟨hr.nodup, List.nodup_singleton _, ?_⟩, fun j hj hm => ?_⟩
      · rintro x hx y hy rfl
        exact hnew (List.mem_singleton.mp hy ▸ hx)
      · rcases List.mem_append.mp hm with hold | hm
        · cases emptied with
          | true => exact absurd hold (hq _ rfl j (sub hj))
          | false => exact .inr (hr.known j (h.sub (sub hj)) hold)
        · exact .inl (List.mem_singleton.mp hm)

/-- A key that was asked for, is wanted and is not known will be asked for again. -/
def Owed (key : ι → κ) (i : ι) (a : Asking ι κ) : Prop :=
  key i ∈ a.asked ∧ (¬ a.asked.Nodup ∨ i ∈ a.wanting ∧ key i ∉ a.known)

theorem Owed.round {i : ι} (ho : Owed key i a) (h : Round key a scanned q a') : Owed key i a' := by
  obtain ⟨hm, ho⟩ := ho
  rw [Owed, h.asked]
  refine ⟨List.mem_append_left _ hm, ?_⟩
  rcases ho with hd | ⟨hw, hk⟩
  · exact .inl fun hn => hd hn.of_append_left
  · cases h.answer with
    | rest settled => exact absurd (settled i hw) hk
    | @ask j left emptied wants unknown sub kept =>
        by_cases hj : key i = key j
        · exact .inl fun hn => List.disjoint_of_nodup_append hn hm (by simp [hj])
        · refine .inr ⟨kept i (h.kept i hw hk) hj, ?_⟩
          rintro (he | he)
          · exact hj he
          · cases emptied with
            | true => exact he
            | false => exact hk he

/-- Emptying the cache forgets the answers to what was asked. -/
theorem Round.owed {k : κ} {i : ι} (h : Round key a scanned (some (k, true)) a') (hi : i ∈ scanned)
    (hm : key i ∈ a.asked) : Owed key i a' := by
  rw [Owed, h.asked]
  refine ⟨List.mem_append_left _ hm, ?_⟩
  cases h.answer with
  | @ask j left emptied wants unknown sub kept =>
      by_cases hj : key i = key j
      · exact .inl fun hn => List.disjoint_of_nodup_append hn hm (by simp [hj])
      · exact .inr ⟨kept i hi hj, by simpa using hj⟩

end Round

/-! ### Round after round -/

section Rounds

variable {key : ι → κ} {a : ℕ → Asking ι κ} {scanned : ℕ → Set ι} {q : ℕ → Option (κ × Bool)}

theorem wanting_subset (h : ∀ n, Round key (a n) (scanned n) (q n) (a (n + 1))) (n : ℕ) :
    (a n).wanting ⊆ (a 0).wanting := by
  induction n with
  | zero => exact subset_rfl
  | succ n ih => exact (h n).wanting.trans ih

theorem asked_subset (h : ∀ n, Round key (a n) (scanned n) (q n) (a (n + 1)))
    (h₀ : (a 0).asked = []) (n : ℕ) : ∀ k ∈ (a n).asked, k ∈ key '' (a 0).wanting := by
  induction n with
  | zero => simp [h₀]
  | succ n ih =>
      intro k hk
      rw [(h n).asked, List.mem_append] at hk
      rcases hk with hk | hk
      · exact ih k hk
      · obtain ⟨⟨k, emptied⟩, hq, rfl⟩ := Option.map_eq_some_iff.mp (Option.mem_toList.mp hk)
        have hround := h n
        rw [hq] at hround
        obtain ⟨i, hi, hk⟩ := hround.wanted
        exact ⟨i, wanting_subset h n hi, hk⟩

theorem rest_of_rest (h : ∀ n, Round key (a n) (scanned n) (q n) (a (n + 1))) {n : ℕ}
    (hn : q n = none) {j : ℕ} (hj : n ≤ j) : q j = none := by
  induction j, hj using Nat.le_induction with
  | base => exact hn
  | succ j hj ih =>
      have hs := (ih ▸ h j).settled
      exact (h (j + 1)).eq_none_iff.mpr hs

theorem length_asked (h : ∀ n, Round key (a n) (scanned n) (q n) (a (n + 1)))
    (h₀ : (a 0).asked = []) (hq : ∀ n, q n ≠ none) (n : ℕ) : (a n).asked.length = n := by
  induction n with
  | zero => rw [h₀]; rfl
  | succ n ih =>
      obtain ⟨k, hk⟩ := Option.ne_none_iff_exists'.mp (hq n)
      rw [(h n).asked, hk, List.length_append, ih]
      rfl

/-- Where nothing is asked for twice, there is an end to what is asked. -/
theorem exists_rest (h : ∀ n, Round key (a n) (scanned n) (q n) (a (n + 1)))
    (h₀ : (a 0).asked = []) (hfin : (a 0).wanting.Finite) (hn : ∀ n, (a n).asked.Nodup) :
    ∃ n, q n = none := by
  by_contra hno
  push Not at hno
  have hkeys := hfin.image key
  have hle : ∀ n, n ≤ (key '' (a 0).wanting).ncard := by
    intro n
    classical
    rw [← length_asked h h₀ hno n, ← List.toFinset_card_of_nodup (hn n), ← Set.ncard_coe_finset]
    exact Set.ncard_le_ncard (fun k hk => asked_subset h h₀ n k (by simpa using hk)) hkeys
  exact absurd (hle _) (Nat.not_succ_le_self _)

/-- **Asking comes to an end.** -/
theorem quiesces_iff (h : ∀ n, Round key (a n) (scanned n) (q n) (a (n + 1)))
    (h₀ : (a 0).asked = []) (hfin : (a 0).wanting.Finite) :
    ((∀ n, (a n).asked.Nodup) ∧ ∃ n, ∀ j, n ≤ j → q j = none) ↔
      ∀ n k, q n = some (k, true) → ∀ i ∈ scanned n, key i ∉ (a n).asked := by
  constructor
  · rintro ⟨hnodup, N, hN⟩ n k hq i hi hm
    have howed : ∀ j, n + 1 ≤ j → Owed key i (a j) := by
      intro j hj
      induction j, hj using Nat.le_induction with
      | base => exact (hq ▸ h n).owed hi hm
      | succ j hj ih => exact ih.round (h j)
    obtain ⟨-, hd | ⟨hw, hk⟩⟩ := howed (max (n + 1) N) (Nat.le_max_left ..)
    · exact hd (hnodup _)
    · have hrest := hN (max (n + 1) N) (Nat.le_max_right ..)
      exact hk ((h _).eq_none_iff.mp hrest i hw)
  · intro hq
    have hr : ∀ n, Remembered key (a n) := by
      intro n
      induction n with
      | zero => exact ⟨by rw [h₀]; exact List.nodup_nil, by simp [h₀]⟩
      | succ n ih => exact ih.round (h n) fun k hk => hq n k hk
    obtain ⟨n, hn⟩ := exists_rest h h₀ hfin fun n => (hr n).nodup
    exact ⟨fun n => (hr n).nodup, n, fun j hj => rest_of_rest h hn hj⟩

end Rounds

end Asking

end Support
