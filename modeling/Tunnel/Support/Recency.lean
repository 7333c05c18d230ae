import Mathlib.Data.List.Nodup
import Mathlib.Data.Set.Insert

/-!
# Support — Recency lists

A bounded list of keyed elements, the most recently used first: using a key moves its element to the
front, or puts a new one there in place of the least recently used.

* `touch_split`, `touch_new`: a use of a key that is there, and of one that is not.
* `nodup_touch`: the keys stay distinct.
* `Front`: a set of keys that were all used after every other.  `Front.touch_hit`,
  `Front.touch_new`: what a use makes of it.
-/

namespace Support.Recency

variable {α κ : Type*} (key : α → κ)

section
variable [DecidableEq κ]

/-- The element of key `k`. -/
def find (k : κ) (xs : List α) : Option α := xs.find? fun x => key x = k

/-- Use key `k`: its element `x` comes first as `hit x`, or `fresh` does. -/
def touch (cap : ℕ) (k : κ) (hit : α → α) (fresh : α) (xs : List α) : List α :=
  match find key k xs with
  | some x => hit x :: xs.filter fun y => key y ≠ k
  | none => fresh :: if cap ≤ xs.length then xs.dropLast else xs

/-- Change the element of key `k` in its place. -/
def update (k : κ) (f : α → α) (xs : List α) : List α :=
  xs.map fun x => if key x = k then f x else x

end

variable {key} {cap : ℕ} {k : κ} {hit f : α → α} {fresh x : α} {xs ys zs : List α}

/-- The other elements of distinct keys. -/
theorem key_ne_of_split (hd : ((ys ++ x :: zs).map key).Nodup) :
    (∀ y ∈ ys, key y ≠ key x) ∧ ∀ z ∈ zs, key z ≠ key x := by
  simp only [List.map_append, List.map_cons, List.nodup_append, List.nodup_cons, List.mem_cons,
    List.mem_map, not_exists, not_and] at hd
  exact ⟨fun y hy e => hd.2.2 _ ⟨y, hy, rfl⟩ _ (.inl rfl) e, hd.2.1.1⟩

variable [DecidableEq κ]

theorem find_eq_none : find key k xs = none ↔ k ∉ xs.map key := by
  simp [find]

theorem key_of_find (h : find key k xs = some x) : key x = k := by
  simpa using List.find?_some h

theorem mem_of_find (h : find key k xs = some x) : x ∈ xs := List.mem_of_find?_eq_some h

/-- An element of distinct keys is the one its key finds. -/
theorem find_eq_some (hd : (xs.map key).Nodup) : find key k xs = some x ↔ x ∈ xs ∧ key x = k := by
  refine ⟨fun h => ⟨mem_of_find h, key_of_find h⟩, ?_⟩
  rintro ⟨hx, rfl⟩
  cases h : find key (key x) xs with
  | none => exact absurd (List.mem_map_of_mem hx) (find_eq_none.mp h)
  | some y => rw [List.inj_on_of_nodup_map hd (mem_of_find h) hx (key_of_find h)]

/-- What is left without one key. -/
theorem filter_split (hd : ((ys ++ x :: zs).map key).Nodup) (hk : key x = k) :
    ((ys ++ x :: zs).filter fun y => key y ≠ k) = ys ++ zs := by
  subst hk
  obtain ⟨hys, hzs⟩ := key_ne_of_split hd
  rw [List.filter_append, List.filter_cons_of_neg (by simp),
    List.filter_eq_self.mpr (by simpa using hys), List.filter_eq_self.mpr (by simpa using hzs)]

theorem touch_split (hd : ((ys ++ x :: zs).map key).Nodup) (hk : key x = k) :
    touch key cap k hit fresh (ys ++ x :: zs) = hit x :: (ys ++ zs) := by
  have hf : find key k (ys ++ x :: zs) = some x := (find_eq_some hd).mpr ⟨by simp, hk⟩
  rw [touch, hf]
  simp only [filter_split hd hk]

theorem touch_new (h : k ∉ xs.map key) :
    touch key cap k hit fresh xs = fresh :: if cap ≤ xs.length then xs.dropLast else xs := by
  rw [touch, find_eq_none.mpr h]

/-- Where the elements after a use come from. -/
theorem mem_touch {y : α} (h : y ∈ touch key cap k hit fresh xs) :
    (∃ x ∈ xs, key x = k ∧ y = hit x) ∨ y ∈ xs ∨ (y = fresh ∧ k ∉ xs.map key) := by
  unfold touch at h
  cases hf : find key k xs with
  | some x =>
      rw [hf] at h
      rcases List.mem_cons.mp h with rfl | h
      · exact .inl ⟨x, mem_of_find hf, key_of_find hf, rfl⟩
      · exact .inr (.inl (List.mem_of_mem_filter h))
  | none =>
      rw [hf] at h
      rcases List.mem_cons.mp h with rfl | h
      · exact .inr (.inr ⟨rfl, find_eq_none.mp hf⟩)
      · refine .inr (.inl ?_)
        split at h
        · exact (List.dropLast_sublist xs).subset h
        · exact h

/-- The keys after a use. -/
theorem nodup_touch (hd : (xs.map key).Nodup) (hh : ∀ x, key (hit x) = key x)
    (hf : key fresh = k) : ((touch key cap k hit fresh xs).map key).Nodup := by
  by_cases hk : k ∈ xs.map key
  · obtain ⟨x, hx, he⟩ := List.mem_map.mp hk
    obtain ⟨ys, zs, rfl⟩ := List.append_of_mem hx
    rw [touch_split hd he, List.map_cons, hh]
    have hp : ((ys ++ x :: zs).map key).Perm ((x :: (ys ++ zs)).map key) :=
      List.perm_middle.map key
    exact hp.nodup_iff.mp hd
  · rw [touch_new hk, List.map_cons, hf, List.nodup_cons]
    split
    · have hs : (xs.dropLast.map key).Sublist (xs.map key) := (List.dropLast_sublist xs).map key
      exact ⟨fun hm => hk (hs.subset hm), hd.sublist hs⟩
    · exact ⟨hk, hd⟩

/-- The key just used finds its element first. -/
theorem find_touch_self (hh : ∀ x, key (hit x) = key x) (hf : key fresh = k) :
    find key k (touch key cap k hit fresh xs) =
      some (((find key k xs).map hit).getD fresh) := by
  unfold touch
  cases h : find key k xs with
  | some x => simp [find, hh, key_of_find h]
  | none => simp [find, hf]

/-- Any other key finds what it found, if it was not the one to go. -/
theorem find_touch_of_ne {j : κ} (hd : (xs.map key).Nodup) (hh : ∀ x, key (hit x) = key x)
    (hf : key fresh = k) (hj : j ≠ k)
    (hm : j ∈ xs.map key → j ∈ (touch key cap k hit fresh xs).map key) :
    find key j (touch key cap k hit fresh xs) = find key j xs := by
  have hold : ∀ y ∈ touch key cap k hit fresh xs, key y = j → y ∈ xs := by
    intro y hy he
    rcases mem_touch hy with ⟨x, -, hx, rfl⟩ | hy | ⟨rfl, -⟩
    · exact absurd (he.symm.trans ((hh x).trans hx)) hj
    · exact hy
    · exact absurd (he.symm.trans hf) hj
  cases h : find key j xs with
  | none =>
      rw [find_eq_none] at h ⊢
      intro hm'
      obtain ⟨y, hy, he⟩ := List.mem_map.mp hm'
      exact h (he ▸ List.mem_map_of_mem (hold y hy he))
  | some x =>
      obtain ⟨hx, hxk⟩ := (find_eq_some hd).mp h
      obtain ⟨y, hy, he⟩ := List.mem_map.mp (hm (hxk ▸ List.mem_map_of_mem hx))
      rw [find_eq_some (nodup_touch hd hh hf)]
      exact ⟨List.inj_on_of_nodup_map hd (hold y hy he) hx (he.trans hxk.symm) ▸ hy, hxk⟩

/-- A use of a key that is there changes the order alone. -/
theorem mem_key_touch_hit {j : κ} (hd : (xs.map key).Nodup) (hk : k ∈ xs.map key)
    (hh : ∀ x, key (hit x) = key x) :
    j ∈ (touch key cap k hit fresh xs).map key ↔ j ∈ xs.map key := by
  obtain ⟨x, hx, rfl⟩ := List.mem_map.mp hk
  obtain ⟨ys, zs, rfl⟩ := List.append_of_mem hx
  rw [touch_split hd rfl]
  simp only [List.map_cons, List.map_append, List.mem_cons, List.mem_append, hh]
  tauto

/-- A new key puts none out where there is room. -/
theorem mem_key_touch_new {j : κ} (hk : k ∉ xs.map key) (hf : key fresh = k)
    (hroom : xs.length < cap) :
    j ∈ (touch key cap k hit fresh xs).map key ↔ j = k ∨ j ∈ xs.map key := by
  rw [touch_new hk, if_neg (by omega), List.map_cons, List.mem_cons, hf]

theorem map_key_update (hf : ∀ x, key (f x) = key x) :
    (update key k f xs).map key = xs.map key := by
  rw [update, List.map_map]
  refine List.map_congr_left fun x _ => ?_
  simp only [Function.comp_apply]
  split
  · exact hf x
  · rfl

theorem find_update (hf : ∀ x, key (f x) = key x) (j : κ) :
    find key j (update key k f xs) =
      (find key j xs).map fun x => if key x = k then f x else x := by
  rw [find, update, List.find?_map, find]
  congr 2
  funext x
  simp only [Function.comp_apply]
  split
  · rw [hf]
  · rfl

theorem update_split (hd : ((ys ++ x :: zs).map key).Nodup) (hk : key x = k) :
    update key k f (ys ++ x :: zs) = ys ++ f x :: zs := by
  subst hk
  obtain ⟨hys, hzs⟩ := key_ne_of_split hd
  have hid : ∀ ws : List α, (∀ w ∈ ws, key w ≠ key x) →
      ws.map (fun w => if key w = key x then f w else w) = ws := by
    intro ws hw
    exact (List.map_congr_left fun w hm => if_neg (hw w hm)).trans (List.map_id ws)
  simp [update, hid ys hys, hid zs hzs]

theorem update_of_not_mem (h : k ∉ xs.map key) : update key k f xs = xs := by
  refine (List.map_congr_left fun x hx => if_neg ?_).trans (List.map_id xs)
  rintro rfl
  exact h (List.mem_map_of_mem hx)

/-! ### The most recent keys -/

variable (key) in
/-- The elements with their keys in `S` come first, and each key of `S` has one. -/
def Front (S : Set κ) (xs : List α) : Prop :=
  ∃ ys zs, xs = ys ++ zs ∧ ∀ k, k ∈ ys.map key ↔ k ∈ S

variable {S : Set κ}

omit [DecidableEq κ] in
theorem front_empty (xs : List α) : Front key ∅ xs := ⟨[], xs, rfl, by simp⟩

omit [DecidableEq κ] in
theorem Front.mem (h : Front key S xs) (hk : k ∈ S) : k ∈ xs.map key := by
  obtain ⟨ys, zs, rfl, hS⟩ := h
  rw [List.map_append]
  exact List.mem_append_left _ ((hS k).mpr hk)

/-- A key that is there joins the front. -/
theorem Front.touch_hit (h : Front key S xs) (hd : (xs.map key).Nodup) (hk : k ∈ xs.map key)
    (hh : ∀ x, key (hit x) = key x) :
    Front key (insert k S) (touch key cap k hit fresh xs) := by
  obtain ⟨ys, zs, rfl, hS⟩ := h
  obtain ⟨x, hx, rfl⟩ := List.mem_map.mp hk
  rcases List.mem_append.mp hx with hx | hx
  · obtain ⟨us, vs, rfl⟩ := List.append_of_mem hx
    rw [List.append_assoc, List.cons_append] at hd ⊢
    rw [touch_split hd rfl]
    refine ⟨hit x :: (us ++ vs), zs, by simp, fun k => ?_⟩
    rw [Set.mem_insert_iff, ← hS]
    simp only [List.map_cons, List.map_append, List.mem_cons, List.mem_append, hh]
    tauto
  · obtain ⟨us, vs, rfl⟩ := List.append_of_mem hx
    rw [← List.append_assoc] at hd ⊢
    rw [touch_split hd rfl]
    refine ⟨hit x :: ys, us ++ vs, by simp, fun k => ?_⟩
    rw [Set.mem_insert_iff, ← hS, List.map_cons, List.mem_cons, hh]

/-- A new key joins the front, where the least recent element is not of it. -/
theorem Front.touch_new (h : Front key S xs) (hk : k ∉ xs.map key) (hf : key fresh = k)
    (hroom : cap ≤ xs.length → ∃ x ∈ xs, key x ∉ S) :
    Front key (insert k S) (touch key cap k hit fresh xs) := by
  obtain ⟨ys, zs, rfl, hS⟩ := h
  rw [Recency.touch_new hk]
  have hkeys : ∀ j, j ∈ (fresh :: ys).map key ↔ j ∈ insert k S := by
    intro j
    rw [Set.mem_insert_iff, ← hS, List.map_cons, List.mem_cons, hf]
  split
  · next hfull =>
      obtain ⟨x, hx, hxS⟩ := hroom hfull
      have hz : zs ≠ [] := by
        rintro rfl
        rw [List.append_nil] at hx
        exact hxS ((hS _).mp (List.mem_map_of_mem hx))
      exact ⟨fresh :: ys, zs.dropLast, by simp [List.dropLast_append_of_ne_nil hz], hkeys⟩
  · exact ⟨fresh :: ys, zs, rfl, hkeys⟩

/-- What the front is depends on the keys alone. -/
theorem Front.update (h : Front key S xs) (hf : ∀ x, key (f x) = key x) :
    Front key S (update key k f xs) := by
  obtain ⟨ys, zs, rfl, hS⟩ := h
  refine ⟨Recency.update key k f ys, Recency.update key k f zs, List.map_append, fun j => ?_⟩
  rw [map_key_update hf]
  exact hS j

end Support.Recency
