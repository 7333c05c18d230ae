import Tunnel.Inspect.Arena
import Tunnel.Support.Ring

/-!
# Inspect — The arena's list

The pointers of an arena's slots as a ring through `NIL`, whose successor is `head` and whose
predecessor is `tail`.  Each primitive of the list is the operation of that name on the ring, and
leaves what the slots hold of their hosts alone (`SameHosts`).

* `unlink_spec`, `pushFront_spec`: the two primitives, on slots that exist.
* `mruFrom_path`: the walk visits the nodes of a path.
-/

namespace Tunnel.Inspect
open Support

/-- An entry without its place in the list. -/
def PeerEntry.bare (e : PeerEntry) : PeerEntry := { e with prev := NIL, next := NIL }

namespace PeerArena

/-- The arena's pointers, `NIL` being the node before the head and after the tail. -/
def links (a : PeerArena) : Links UInt32 where
  next i := if i = NIL then a.head else (a.entries[i.toNat]?.map (·.next)).getD NIL
  prev i := if i = NIL then a.tail else (a.entries[i.toNat]?.map (·.prev)).getD NIL

/-- `i` is a slot, or `NIL`. -/
def Linked (a : PeerArena) (i : UInt32) : Prop := i = NIL ∨ i.toNat < a.entries.length

/-- The slots of `a'` hold the hosts those of `a` do. -/
structure SameHosts (a a' : PeerArena) : Prop where
  bare : a'.entries.map PeerEntry.bare = a.entries.map PeerEntry.bare
  index : a'.index = a.index
  nextId : a'.nextId = a.nextId
  cap : a'.cap = a.cap

variable {a a' : PeerArena} {i j : UInt32}

theorem SameHosts.refl (a : PeerArena) : SameHosts a a := ⟨rfl, rfl, rfl, rfl⟩

theorem SameHosts.trans {a₁ a₂ a₃ : PeerArena} (h : SameHosts a₁ a₂) (h' : SameHosts a₂ a₃) :
    SameHosts a₁ a₃ :=
  ⟨h'.bare.trans h.bare, h'.index.trans h.index, h'.nextId.trans h.nextId, h'.cap.trans h.cap⟩

theorem SameHosts.length (h : SameHosts a a') : a'.entries.length = a.entries.length := by
  simpa using congrArg List.length h.bare

theorem SameHosts.linked (h : SameHosts a a') : a'.Linked i ↔ a.Linked i := by
  simp [Linked, h.length]

/-- A slot's entry, but for its pointers. -/
theorem SameHosts.getElem? (h : SameHosts a a') (k : ℕ) :
    a'.entries[k]?.map PeerEntry.bare = a.entries[k]?.map PeerEntry.bare := by
  simpa using congrArg (·[k]?) h.bare

/-! ### Single slots -/

theorem entry_eq (h : i.toNat < a.entries.length) : a.entry i = .ok a.entries[i.toNat] := by
  simp [entry, nth, h]

theorem modify_eq (h : i.toNat < a.entries.length) (f : PeerEntry → PeerEntry) :
    a.modify i f = .ok { a with entries := a.entries.set i.toNat (f a.entries[i.toNat]) } := by
  rw [modify, entry_eq h]
  rfl

theorem toNat_lt_of_linked (h : a.Linked i) (hi : i ≠ NIL) : i.toNat < a.entries.length :=
  h.resolve_left hi

/-- A slot whose pointers alone change. -/
theorem sameHosts_set {e : PeerEntry} (h : i.toNat < a.entries.length)
    (he : e.bare = a.entries[i.toNat].bare) :
    SameHosts a { a with entries := a.entries.set i.toNat e } := by
  refine ⟨?_, rfl, rfl, rfl⟩
  rw [List.map_set, he, ← List.getElem_map PeerEntry.bare (h := by simpa using h),
    List.set_getElem_self]

theorem links_set {e : PeerEntry} (h : i.toNat < a.entries.length) (hi : i ≠ NIL) :
    links { a with entries := a.entries.set i.toNat e } =
      ⟨Function.update a.links.next i e.next, Function.update a.links.prev i e.prev⟩ := by
  have hne : ∀ j : UInt32, j ≠ i → i.toNat ≠ j.toNat := fun j hj e => hj (UInt32.toNat_inj.mp e.symm)
  ext j <;> by_cases hj : j = i
  · subst hj
    simp [links, hi, h]
  · simp [links, hj, hne j hj]
  · subst hj
    simp [links, hi, h]
  · simp [links, hj, hne j hj]

/-- A new slot that is not linked. -/
theorem links_push (a : PeerArena) {e : PeerEntry} (hn : e.next = NIL) (hp : e.prev = NIL) :
    links { a with entries := a.entries ++ [e] } = a.links := by
  have hget : ∀ (f : PeerEntry → UInt32), f e = NIL → ∀ k : ℕ,
      ((a.entries ++ [e])[k]?.map f).getD NIL = (a.entries[k]?.map f).getD NIL := by
    intro f hf k
    rcases Nat.lt_trichotomy k a.entries.length with hk | rfl | hk
    · rw [List.getElem?_append_left hk]
    · simp [hf]
    · rw [List.getElem?_eq_none (by simp; omega), List.getElem?_eq_none (by omega)]
  ext j
  · simp only [links, hget _ hn]
  · simp only [links, hget _ hp]

/-- The successor of a node, or the head, is set. -/
theorem setNext_spec (h : a.Linked i) (v : UInt32) :
    ∃ a', (if i = NIL then pure { a with head := v } else a.modify i fun e => { e with next := v }) =
        Except.ok a' ∧
      a'.links = ⟨Function.update a.links.next i v, a.links.prev⟩ ∧ SameHosts a a' := by
  by_cases hi : i = NIL
  · subst hi
    refine ⟨_, if_pos rfl, ?_, ⟨rfl, rfl, rfl, rfl⟩⟩
    ext j
    · by_cases hj : j = NIL <;> simp [links, hj]
    · rfl
  · have hl := toNat_lt_of_linked h hi
    refine ⟨_, (if_neg hi).trans (modify_eq hl _), ?_, sameHosts_set hl rfl⟩
    rw [links_set hl hi]
    simp [links, hi, hl]

theorem setPrev_spec (h : a.Linked i) (v : UInt32) :
    ∃ a', (if i = NIL then pure { a with tail := v } else a.modify i fun e => { e with prev := v }) =
        Except.ok a' ∧
      a'.links = ⟨a.links.next, Function.update a.links.prev i v⟩ ∧ SameHosts a a' := by
  by_cases hi : i = NIL
  · subst hi
    refine ⟨_, if_pos rfl, ?_, ⟨rfl, rfl, rfl, rfl⟩⟩
    ext j
    · rfl
    · by_cases hj : j = NIL <;> simp [links, hj]
  · have hl := toNat_lt_of_linked h hi
    refine ⟨_, (if_neg hi).trans (modify_eq hl _), ?_, sameHosts_set hl rfl⟩
    rw [links_set hl hi]
    simp [links, hi, hl]

/-! ### The primitives -/

theorem unlink_spec (h : i.toNat < a.entries.length) (hi : i ≠ NIL)
    (hn : a.Linked (a.links.next i)) (hp : a.Linked (a.links.prev i)) :
    ∃ a', a.unlink i = .ok a' ∧ a'.links = a.links.unlink NIL i ∧ SameHosts a a' := by
  have en : a.links.next i = a.entries[i.toNat].next := by simp [links, hi, h]
  have ep : a.links.prev i = a.entries[i.toNat].prev := by simp [links, hi, h]
  rw [en] at hn
  rw [ep] at hp
  obtain ⟨a₁, e₁, l₁, s₁⟩ := setNext_spec hp a.entries[i.toNat].next
  obtain ⟨a₂, e₂, l₂, s₂⟩ := setPrev_spec (s₁.linked.mpr hn) a.entries[i.toNat].prev
  have h₂ : i.toNat < a₂.entries.length := by rwa [s₂.length, s₁.length]
  refine ⟨_, ?_, ?_, (s₁.trans s₂).trans
    (sameHosts_set (e := { a₂.entries[i.toNat] with prev := NIL, next := NIL }) h₂ rfl)⟩
  · rw [unlink, entry_eq h, ok_bind]
    dsimp only
    rw [ite_bind, e₁, ok_bind, ite_bind, e₂, ok_bind]
    exact modify_eq h₂ _
  · rw [links_set h₂ hi, l₂, l₁, Links.unlink, en, ep]

theorem pushFront_spec (h : i.toNat < a.entries.length) (hi : i ≠ NIL)
    (hh : a.Linked a.head) :
    ∃ a', a.pushFront i = .ok a' ∧ a'.links = a.links.pushFront NIL i ∧ SameHosts a a' := by
  have hs := sameHosts_set (e := { a.entries[i.toNat] with prev := NIL, next := a.head }) h rfl
  obtain ⟨a₂, e₂, l₂, s₂⟩ := setPrev_spec (hs.linked.mpr hh) i
  refine ⟨{ a₂ with head := i }, ?_, ?_, (hs.trans s₂).trans ⟨rfl, rfl, rfl, rfl⟩⟩
  · rw [pushFront, modify_eq h]
    dsimp only
    rw [ok_bind, ite_bind, e₂]
    rfl
  · have hn : a.links.next NIL = a.head := by simp [links]
    have hl : links { a₂ with head := i } =
        ⟨Function.update a₂.links.next NIL i, a₂.links.prev⟩ := by
      ext j
      · by_cases hj : j = NIL <;> simp [links, hj]
      · rfl
    rw [hl, l₂, links_set h hi, Links.pushFront, hn]

theorem linked_head {slots : List UInt32} (h : a.links.Ring NIL slots)
    (hs : ∀ i ∈ slots, i.toNat < a.entries.length) : a.Linked a.head := by
  have hm := (h.neighbours (List.mem_cons_self ..)).1.1
  rw [show a.links.next NIL = a.head by simp [links]] at hm
  rcases List.mem_cons.mp hm with hm | hm
  · exact .inl hm
  · exact .inr (hs _ hm)

/-- The walk visits the slots of a path, and ends. -/
theorem mruFrom_path {xs : List UInt32} (h : a.links.Path i xs NIL)
    (hx : ∀ j ∈ xs, j ≠ NIL ∧ j.toNat < a.entries.length) (fuel : ℕ) (hf : xs.length < fuel) :
    ∃ es, a.mruFrom fuel (a.links.next i) = .ok es ∧
      List.Forall₂ (fun j e => a.entries[j.toNat]? = some e) xs es := by
  induction xs generalizing i fuel with
  | nil =>
      obtain ⟨fuel, rfl⟩ := Nat.exists_eq_add_of_lt hf
      refine ⟨[], ?_, .nil⟩
      rw [h.1, mruFrom, if_pos rfl]
      rfl
  | cons x xs ih =>
      obtain ⟨fuel, rfl⟩ := Nat.exists_eq_add_of_lt (Nat.zero_lt_of_lt hf)
      obtain ⟨hne, hl⟩ := hx x (by simp)
      obtain ⟨es, he, hes⟩ := ih h.2 (fun j hj => hx j (List.mem_cons_of_mem _ hj)) (0 + fuel)
        (by simp at hf; omega)
      have en : a.links.next x = a.entries[x.toNat].next := by simp [links, hne, hl]
      rw [en] at he
      refine ⟨a.entries[x.toNat] :: es, ?_, .cons (by simp [hl]) hes⟩
      rw [h.1.1, mruFrom, if_neg hne, entry_eq hl, ok_bind, he]
      rfl

end PeerArena

end Tunnel.Inspect
