import Mathlib.Data.List.Nodup
import Mathlib.Data.List.Infix
import Mathlib.Logic.Function.Basic

/-!
# Support — Rings

An intrusive doubly-linked list as a ring through a sentinel: the successor of the sentinel is the
head of the list, and its predecessor the tail.  With the sentinel a node like any other, taking a
node out and putting one at the front are two assignments each, and have no cases.

* `Links.Path`: the nodes between two others, linked both ways.
* `Links.Ring`: the nodes of a ring, from the head to the tail.
* `Ring.unlink`, `Ring.pushFront`: the ring after either operation.
-/

namespace Support

variable {ι : Type*}

/-- The two pointers of each node. -/
@[ext] structure Links (ι : Type*) where
  next : ι → ι
  prev : ι → ι

namespace Links

/-- `a`, the nodes `xs` and `b` follow one another, in both directions. -/
def Path (l : Links ι) (a : ι) : List ι → ι → Prop
  | [], b => l.next a = b ∧ l.prev b = a
  | x :: xs, b => (l.next a = x ∧ l.prev x = a) ∧ l.Path x xs b

/-- The nodes from the head on are `xs`. -/
structure Ring (l : Links ι) (nil : ι) (xs : List ι) : Prop where
  nodup : (nil :: xs).Nodup
  path : l.Path nil xs nil

variable {l l' : Links ι} {a b c nil i : ι} {xs ys : List ι}

theorem path_append : l.Path a (xs ++ c :: ys) b ↔ l.Path a xs c ∧ l.Path c ys b := by
  induction xs generalizing a with
  | nil => simp [Path]
  | cons x xs ih => simp [Path, ih, and_assoc]

/-- A path reads the successor of all its nodes but the last, and the predecessor of all but the
first. -/
theorem Path.congr (h : l.Path a xs b) (hn : ∀ c ∈ a :: xs, l'.next c = l.next c)
    (hp : ∀ c ∈ xs ++ [b], l'.prev c = l.prev c) : l'.Path a xs b := by
  induction xs generalizing a with
  | nil => exact ⟨(hn a (by simp)).trans h.1, (hp b (by simp)).trans h.2⟩
  | cons x xs ih =>
      obtain ⟨⟨h₁, h₂⟩, h⟩ := h
      refine ⟨⟨(hn a (by simp)).trans h₁, (hp x (by simp)).trans h₂⟩, ih h ?_ ?_⟩
      · intro c hc
        exact hn c (List.mem_cons_of_mem _ hc)
      · intro c hc
        exact hp c (List.mem_cons_of_mem _ hc)

/-- The ends of a path. -/
theorem Path.prev_end (h : l.Path a xs b) : l.prev b = (a :: xs).getLast (by simp) := by
  induction xs generalizing a with
  | nil => exact h.2
  | cons x xs ih =>
      rw [List.getLast_cons (by simp)]
      exact ih h.2

theorem Path.next_start (h : l.Path a xs b) : l.next a = (xs ++ [b]).head (by simp) := by
  cases xs with
  | nil => exact h.1
  | cons x xs => exact h.1.1

theorem Path.next_prev (h : l.Path a xs b) : l.next (l.prev b) = b := by
  induction xs generalizing a with
  | nil => rw [h.2, h.1]
  | cons x xs ih => exact ih h.2

theorem Path.prev_next (h : l.Path a xs b) : l.prev (l.next a) = a := by
  cases xs with
  | nil => rw [h.1, h.2]
  | cons x xs => rw [h.1.1, h.1.2]

/-- The ends of a ring. -/
theorem Ring.next_nil (h : l.Ring nil xs) : l.next nil = (xs ++ [nil]).head (by simp) :=
  h.path.next_start

theorem Ring.prev_nil (h : l.Ring nil xs) : l.prev nil = (nil :: xs).getLast (by simp) :=
  h.path.prev_end

/-- The neighbours of a node are nodes, or the sentinel, and lead back to it. -/
theorem Ring.neighbours (h : l.Ring nil xs) (hi : i ∈ nil :: xs) :
    (l.next i ∈ nil :: xs ∧ l.prev (l.next i) = i) ∧
      l.prev i ∈ nil :: xs ∧ l.next (l.prev i) = i := by
  -- The paths that end and that begin at `i`.
  obtain ⟨ys, zs, hys, hzs, h₁, h₂⟩ : ∃ ys zs, ys ⊆ xs ∧ zs ⊆ xs ∧
      l.Path nil ys i ∧ l.Path i zs nil := by
    rcases List.mem_cons.mp hi with rfl | hi
    · exact ⟨xs, xs, fun _ h => h, fun _ h => h, h.path, h.path⟩
    · obtain ⟨ys, zs, rfl⟩ := List.append_of_mem hi
      obtain ⟨h₁, h₂⟩ := path_append.mp h.path
      exact ⟨ys, zs, by simp, fun _ h => by simp [h], h₁, h₂⟩
  refine ⟨⟨?_, h₂.prev_next⟩, ?_, h₁.next_prev⟩
  · have hm : l.next i ∈ zs ++ [nil] := h₂.next_start ▸ List.head_mem _
    rcases List.mem_append.mp hm with hm | hm
    · exact List.mem_cons_of_mem _ (hzs hm)
    · simp [List.mem_singleton.mp hm]
  · have hm : l.prev i ∈ nil :: ys := h₁.prev_end ▸ List.getLast_mem _
    rcases List.mem_cons.mp hm with hm | hm
    · simp [hm]
    · exact List.mem_cons_of_mem _ (hys hm)

/-- A path whose last link leads elsewhere. -/
theorem Path.retarget (h : l.Path a xs b) (hd : (a :: xs).Nodup)
    (hl : l'.next (l.prev b) = c ∧ l'.prev c = l.prev b)
    (hn : ∀ d ∈ a :: xs, d ≠ l.prev b → l'.next d = l.next d)
    (hp : ∀ d ∈ xs, l'.prev d = l.prev d) : l'.Path a xs c := by
  induction xs generalizing a with
  | nil =>
      rw [h.2] at hl
      exact hl
  | cons x xs ih =>
      obtain ⟨⟨h₁, h₂⟩, h⟩ := h
      have hd' := List.nodup_cons.mp hd
      have ha : a ≠ l.prev b := by
        rw [h.prev_end]
        rintro rfl
        exact hd'.1 (List.getLast_mem _)
      refine ⟨⟨(hn a (by simp) ha).trans h₁, (hp x (by simp)).trans h₂⟩, ih h hd'.2 ?_ ?_⟩
      · intro d hd
        exact hn d (List.mem_cons_of_mem _ hd)
      · intro d hd
        exact hp d (List.mem_cons_of_mem _ hd)

/-! ### Operations -/

variable [DecidableEq ι]

/-- The ring without node `i`, whose own pointers are reset. -/
def unlink (l : Links ι) (nil i : ι) : Links ι where
  next := Function.update (Function.update l.next (l.prev i) (l.next i)) i nil
  prev := Function.update (Function.update l.prev (l.next i) (l.prev i)) i nil

/-- The ring with node `i` after the sentinel. -/
def pushFront (l : Links ι) (nil i : ι) : Links ι where
  next := Function.update (Function.update l.next i (l.next nil)) nil i
  prev := Function.update (Function.update l.prev i nil) (l.next nil) i

theorem Ring.unlink (h : l.Ring nil xs) (hi : i ∈ xs) : (l.unlink nil i).Ring nil (xs.erase i) := by
  obtain ⟨ys, zs, rfl⟩ := List.append_of_mem hi
  obtain ⟨hd, hp⟩ := h
  obtain ⟨h₁, h₂⟩ := path_append.mp hp
  have hys : i ∉ nil :: ys := by
    rw [← List.cons_append, List.nodup_append] at hd
    exact fun hm => hd.2.2 i hm i (by simp) rfl
  have hzs : i ∉ zs ++ [nil] := by
    simp only [List.nodup_cons, List.nodup_append, List.mem_append, List.mem_cons, not_or] at hd
    simp [hd.2.2.1.1, hd.1.2.1, eq_comm]
  have he : (ys ++ i :: zs).erase i = ys ++ zs := by
    rw [List.erase_append_right _ fun hm => hys (List.mem_cons_of_mem _ hm), List.erase_cons_head]
  have hsub : (nil :: (ys ++ zs)).Nodup := hd.sublist (by simp)
  rw [he]
  refine ⟨hsub, ?_⟩
  have hdis := List.nodup_append.mp (List.cons_append ▸ hsub : (nil :: ys ++ zs).Nodup)
  have hprev : l.prev i ∈ nil :: ys := h₁.prev_end ▸ List.getLast_mem _
  have hnext : l.next i ∈ zs ++ [nil] := h₂.next_start ▸ List.head_mem _
  -- The predecessor of `i` now leads to its successor.
  have hleft : (l.unlink nil i).Path nil ys (l.next i) := by
    have hpi : l.prev i ≠ i := fun e => hys (e ▸ hprev)
    have hni : l.next i ≠ i := fun e => hzs (e ▸ hnext)
    refine h₁.retarget hdis.1 ⟨?_, ?_⟩ ?_ ?_
    · simp [Links.unlink, Function.update_of_ne hpi]
    · simp [Links.unlink, Function.update_of_ne hni]
    · intro d hd hne
      have hdi : d ≠ i := fun e => hys (e ▸ hd)
      simp [Links.unlink, hdi, hne]
    · intro d hd
      have hdi : d ≠ i := fun e => hys (e ▸ List.mem_cons_of_mem _ hd)
      have hdn : d ≠ l.next i := by
        rintro rfl
        rcases List.mem_append.mp hnext with hz | hz
        · exact hdis.2.2 _ (List.mem_cons_of_mem _ hd) _ hz rfl
        · exact (List.nodup_cons.mp hdis.1).1 (List.mem_singleton.mp hz ▸ hd)
      simp [Links.unlink, hdi, hdn]
  cases zs with
  | nil =>
      rw [List.append_nil]
      exact h₂.1 ▸ hleft
  | cons z zs =>
      obtain ⟨⟨hz, -⟩, h₂⟩ := h₂
      rw [hz] at hleft
      refine path_append.mpr ⟨hleft, h₂.congr ?_ ?_⟩
      · intro c hc
        have hci : c ≠ i := fun e => hzs (e ▸ List.mem_append_left _ hc)
        have hcp : c ≠ l.prev i := fun e => hdis.2.2 _ hprev _ hc e.symm
        simp [Links.unlink, hci, hcp]
      · intro c hc
        have hci : c ≠ i := fun e => hzs (e ▸ List.mem_cons_of_mem _ hc)
        have hcz : c ≠ z := by
          rintro rfl
          rcases List.mem_append.mp hc with hc | hc
          · exact (List.nodup_cons.mp hdis.2.1).1 hc
          · exact hdis.2.2 nil (by simp) c (by simp) (List.mem_singleton.mp hc).symm
        simp [Links.unlink, hci, hz, hcz]

theorem Ring.pushFront (h : l.Ring nil xs) (hi : i ≠ nil) (hx : i ∉ xs) :
    (l.pushFront nil i).Ring nil (i :: xs) := by
  obtain ⟨hd, hp⟩ := h
  have hnext : l.next nil ∈ xs ++ [nil] := hp.next_start ▸ List.head_mem _
  have hni : i ≠ l.next nil := by
    rintro e
    rcases List.mem_append.mp hnext with hm | hm
    · exact hx (e ▸ hm)
    · exact hi (e.trans (List.mem_singleton.mp hm))
  refine ⟨?_, ⟨by simp [Links.pushFront], ?_⟩, ?_⟩
  · simp only [List.nodup_cons, List.mem_cons, not_or] at hd ⊢
    exact ⟨⟨hi.symm, hd.1⟩, hx, hd.2⟩
  · simp [Links.pushFront, hni]
  cases xs with
  | nil =>
      have hn : l.next nil = nil := hp.1
      exact ⟨by simp [Links.pushFront, hi, hn], by simp [Links.pushFront, hn]⟩
  | cons x xs =>
      obtain ⟨⟨hn, -⟩, hp⟩ := hp
      refine ⟨⟨by simp [Links.pushFront, hi, hn], by simp [Links.pushFront, hn]⟩,
        hp.congr ?_ ?_⟩
      · intro c hc
        have hci : c ≠ i := fun e => hx (e ▸ hc)
        have hcn : c ≠ nil := fun e => (List.nodup_cons.mp hd).1 (e ▸ hc)
        simp [Links.pushFront, hci, hcn]
      · intro c hc
        have hcx : c ≠ x := by
          rintro rfl
          rcases List.mem_append.mp hc with hc | hc
          · exact (List.nodup_cons.mp (List.nodup_cons.mp hd).2).1 hc
          · exact (List.nodup_cons.mp hd).1 (by simp [List.mem_singleton.mp hc])
        have hci : c ≠ i := by
          rintro rfl
          rcases List.mem_append.mp hc with hc | hc
          · exact hx (List.mem_cons_of_mem _ hc)
          · exact hi (List.mem_singleton.mp hc)
        simp [Links.pushFront, hci, hn, hcx]

end Links

end Support
