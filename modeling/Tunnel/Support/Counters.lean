import Tunnel.Support.Table

/-!
# Support — Counters and bounded logs

Counters by key, a missing one reading as zero, and a log that keeps its latest entries and counts
the ones it dropped.

* `Counters.get_move`, `Counters.sum_move`: moving an amount from one counter to another.
* `Retained.push`: a log that holds all but the first `dropped` of its entries still does after a
  push.
-/

namespace Support

variable {K : Type}

/-- Counters by key. -/
abbrev Counters (K : Type) := Table K ℕ

namespace Counters

/-- The sum of all counters. -/
def sum (c : Counters K) : ℕ := Finmap.total (fun _ n => n) c

variable [DecidableEq K]

/-- A missing counter reads as zero. -/
def get (c : Counters K) (k : K) : ℕ := (c.lookup k).getD 0

/-- `*c.entry(k).or_insert(0) += n`. -/
def add (c : Counters K) (k : K) (n : ℕ) : Counters K := c.insert k (c.get k + n)

theorem get_insert (c : Counters K) (k j : K) (n : ℕ) :
    get (c.insert k n) j = if j = k then n else c.get j := by
  unfold get
  rw [Finmap.lookup_insert_eq]
  split <;> rfl

theorem get_add (c : Counters K) (k j : K) (n : ℕ) :
    (c.add k n).get j = c.get j + if j = k then n else 0 := by
  rw [add, get_insert]
  split
  · next e => rw [e]
  · rw [Nat.add_zero]

/-- A counter gives up what it held for what it is set to. -/
theorem sum_insert (c : Counters K) (k : K) (n : ℕ) : sum (c.insert k n) + c.get k = c.sum + n := by
  unfold sum get
  rw [Finmap.total_insert]
  cases h : c.lookup k with
  | none => rw [Finmap.erase_of_lookup_none h, Option.getD_none, Nat.add_zero, Nat.add_comm]
  | some m =>
      rw [Finmap.total_of_lookup _ h, Option.getD_some]
      omega

theorem sum_add (c : Counters K) (k : K) (n : ℕ) : (c.add k n).sum = c.sum + n := by
  have h := sum_insert c k (c.get k + n)
  change sum (c.insert k (c.get k + n)) = _
  omega

theorem get_move (c : Counters K) (a b j : K) {n : ℕ} (h : n ≤ c.get a) :
    (add (c.insert a (c.get a - n)) b n).get j + (if j = a then n else 0) =
      c.get j + if j = b then n else 0 := by
  rw [get_add, get_insert]
  split
  · next e =>
      rw [e]
      omega
  · omega

theorem sum_move (c : Counters K) (a b : K) {n : ℕ} (h : n ≤ c.get a) :
    (add (c.insert a (c.get a - n)) b n).sum = c.sum := by
  have hs := sum_insert c a (c.get a - n)
  rw [sum_add]
  omega

end Counters

/-! ### Bounded logs -/

variable {α : Type}

/-- The log is all the entries there ever were but the first `dropped`. -/
def Retained (all : List α) (dropped : ℕ) (log : List α) : Prop :=
  log = all.drop dropped ∧ dropped ≤ all.length

/-- A push that drops the oldest entry of a full log. -/
theorem Retained.push {all log : List α} {dropped cap : ℕ} (h : Retained all dropped log)
    (hcap : 0 < cap) (x : α) :
    Retained (all ++ [x]) (if cap ≤ log.length then dropped + 1 else dropped)
      ((if cap ≤ log.length then log.tail else log) ++ [x]) := by
  obtain ⟨rfl, hd⟩ := h
  split
  · next hfull =>
      rw [List.length_drop] at hfull
      have hlt : dropped + 1 ≤ all.length := by omega
      refine ⟨?_, by rw [List.length_append]; exact Nat.le_succ_of_le hlt⟩
      rw [List.tail_drop, List.drop_append_of_le_length hlt]
  · refine ⟨?_, by rw [List.length_append]; exact Nat.le_add_right_of_le hd⟩
    rw [List.drop_append_of_le_length hd]

end Support
