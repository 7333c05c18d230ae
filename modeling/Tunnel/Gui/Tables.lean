import Tunnel.Gui.Pad

/-!
# Gui — Tables

Every table of the window lines up, whatever the number of characters there is for it (`gui.rs`).

* `tables`, `legal_of_mem_tables`: the tables of the window, each with one flexible column.
* `IsPlan`: what is asked of the columns chosen for a budget.
* `numbered`: the columns kept, with where each stood.  `map_fst_numbered`: they are what `fit`
  keeps.
* `fit_lines_up`: such a column list at every budget.
-/

namespace Tunnel.Gui
open Support Text

/-! ### The tables of the window -/

/-- A table's columns and the bounds on its flexible one. -/
structure Table where
  cols : List Col
  /-- Floor and ceiling for the single column of width zero. -/
  flex : ℕ × ℕ
deriving DecidableEq, Repr

def FLOWS : Table where
  cols := [⟨lit "REMOTE", 0, false, 0⟩, ⟨lit "PEER", 6, false, 4⟩, ⟨lit "GROUP", 16, false, 3⟩,
    ⟨lit "APP", 11, false, 2⟩, ⟨lit "L4", 5, false, 6⟩, ⟨lit "RX", 8, true, 1⟩,
    ⟨lit "TX", 8, true, 5⟩, ⟨lit "RATE", 11, true, 0⟩]
  flex := (14, 38)

def HOSTS : Table where
  cols := [⟨lit "HOST", 0, false, 0⟩, ⟨lit "PEER", 6, false, 4⟩, ⟨lit "APP", 10, false, 2⟩,
    ⟨lit "ASN", 8, false, 5⟩, ⟨lit "FL", 4, true, 3⟩, ⟨lit "BYTES", 8, true, 1⟩,
    ⟨lit "RATE", 10, true, 0⟩]
  flex := (12, 34)

def SERVICES : Table where
  cols := [⟨lit "PORT", 7, false, 0⟩, ⟨lit "SERVICE", 0, false, 0⟩, ⟨lit "L4", 5, false, 4⟩,
    ⟨lit "FL", 4, true, 3⟩, ⟨lit "BYTES", 8, true, 2⟩, ⟨lit "RATE", 10, true, 1⟩]
  flex := (8, 20)

def LEGEND : Table where
  cols := [⟨lit "PROTOCOL", 0, false, 0⟩, ⟨lit "SHARE", 8, true, 0⟩, ⟨lit "BYTES", 9, true, 1⟩]
  flex := (8, 22)

def ANSWERS : Table where
  cols := [⟨lit "NAME", 28, false, 2⟩, ⟨lit "TYPE", 7, false, 1⟩, ⟨lit "TTL", 8, true, 3⟩,
    ⟨lit "DATA", 0, false, 0⟩]
  flex := (16, 45)

def SCAN : Table where
  cols := [⟨lit "PORT", 7, false, 2⟩, ⟨lit "SERVICE", 14, false, 1⟩,
    ⟨lit "BANNER", 0, false, 0⟩]
  flex := (10, 60)

def INTEL : Table where
  cols := [⟨lit "FIELD", 11, false, 1⟩, ⟨lit "VALUE", 0, false, 0⟩]
  flex := (16, 64)

def tables : List Table := [FLOWS, HOSTS, SERVICES, LEGEND, ANSWERS, SCAN, INTEL]

instance (cols : List Col) : Decidable (Legal cols) :=
  decidable_of_iff (cols.countP (·.width = 0) = 1 ∧ (∀ c ∈ cols, c.width = 0 → c.drop = 0) ∧
      ∀ c ∈ cols, c.width ≠ 0 → 3 ≤ c.width)
    ⟨fun ⟨h, h', h''⟩ => ⟨h, h', h''⟩, fun h => ⟨h.flexible, h.undropped, h.wide⟩⟩

theorem legal_of_mem_tables :
    ∀ t ∈ tables, Legal t.cols ∧ 3 ≤ t.flex.1 ∧ t.flex.1 ≤ t.flex.2 := by
  decide

/-! ### Plans -/

/-- The columns of `plan` line up and are, by their positions `kept`, what a budget leaves of
`cols`. -/
structure IsPlan (cols : List Col) (flexMin budget : ℕ) (kept : List ℕ) (plan : List Col) :
    Prop where
  inOrder : kept.Pairwise (· < ·)
  columns : List.Forall₂ (fun i c => ∃ own, cols[i]? = some own ∧ Widened own c) kept plan
  undropped : ∀ i own, cols[i]? = some own → own.drop = 0 → i ∈ kept
  /-- What is dropped, a column of higher priority or of the same and further right is too. -/
  priority : ∀ i j a b, cols[i]? = some a → cols[j]? = some b →
    a.drop < b.drop ∨ a.drop = b.drop ∧ i < j → i ∉ kept → j ∉ kept
  exact : totalWidth (essential cols) + flexMin ≤ budget → totalWidth plan = budget
  narrowest : budget < totalWidth (essential cols) + flexMin →
    plan = placeFlex flexMin (essential cols)
  cells : ∀ i c, plan[i]? = some c → ∀ s : Text,
    (pad s c.width c.right (gutter c plan[i + 1]?)).length = c.width ∧
      List.replicate (gutter c plan[i + 1]?) ' ' <:+
        pad s c.width c.right (gutter c plan[i + 1]?)
  rows : ∀ cell, (tableRow plan cell).length = (tableHeader plan).length

/-! ### Where the columns stood -/

/-- The columns kept, each with its position in the table. -/
def numbered (budget flexMin : ℕ) (cols : List Col) : List (Col × ℕ) :=
  shed (fun p => p.1.drop.toNat) (fun ps => totalWidth (ps.map Prod.fst) + flexMin ≤ budget)
    cols.zipIdx

theorem map_fst_numbered (budget flexMin : ℕ) (cols : List Col) :
    (numbered budget flexMin cols).map Prod.fst = narrow budget flexMin cols := by
  have h := shed_map (fun c : Col => c.drop.toNat)
    (fun keep => totalWidth keep + flexMin ≤ budget) Prod.fst cols.zipIdx
  rw [List.zipIdx_map_fst] at h
  exact h

theorem sheds_numbered (budget flexMin : ℕ) (cols : List Col) :
    Sheds (fun p : Col × ℕ => p.1.drop.toNat)
      (fun ps => totalWidth (ps.map Prod.fst) + flexMin ≤ budget) cols.zipIdx
      (numbered budget flexMin cols) := sheds_shed _ _ _

theorem getElem?_of_mem_numbered {budget flexMin : ℕ} {cols : List Col} {p : Col × ℕ}
    (hp : p ∈ numbered budget flexMin cols) : cols[p.2]? = some p.1 :=
  List.mem_zipIdx_iff_getElem?.mp ((sheds_numbered budget flexMin cols).sublist.subset hp)

theorem mem_map_snd_numbered {budget flexMin : ℕ} {cols : List Col} {i : ℕ} {own : Col}
    (hi : cols[i]? = some own) :
    i ∈ (numbered budget flexMin cols).map Prod.snd ↔ (own, i) ∈ numbered budget flexMin cols := by
  refine ⟨fun h => ?_, fun h => List.mem_map_of_mem (f := Prod.snd) h⟩
  obtain ⟨p, hp, rfl⟩ := List.mem_map.mp h
  cases hi.symm.trans (getElem?_of_mem_numbered hp)
  exact hp

/-- A larger budget keeps what a smaller one does. -/
theorem numbered_sublist {budget budget' : ℕ} (h : budget ≤ budget') (flexMin : ℕ)
    (cols : List Col) : (numbered budget flexMin cols).Sublist (numbered budget' flexMin cols) := by
  have hs : shed (fun p => p.1.drop.toNat)
      (fun ps => totalWidth (ps.map Prod.fst) + flexMin ≤ budget) (numbered budget' flexMin cols) =
      numbered budget flexMin cols := shed_shed _ (fun ps hps => hps.trans h) cols.zipIdx
  rw [← hs]
  exact (sheds_shed _ _ _).sublist

/-! ### The theorem -/

theorem isPlan {cols : List Col} {flexMin budget : ℕ} {plan : List Col}
    (hkept : AllWidened (narrow budget flexMin cols) plan) (hwide : ∀ c ∈ plan, 3 ≤ c.width)
    (hexact : totalWidth (essential cols) + flexMin ≤ budget → totalWidth plan = budget)
    (hnarrow : budget < totalWidth (essential cols) + flexMin →
      plan = placeFlex flexMin (essential cols)) :
    IsPlan cols flexMin budget ((numbered budget flexMin cols).map Prod.snd) plan where
  inOrder := List.pairwise_map.mpr
    ((pairwise_snd_zipIdx cols).sublist (sheds_numbered budget flexMin cols).sublist)
  columns := by
    rw [← map_fst_numbered, AllWidened, List.forall₂_map_left_iff] at hkept
    rw [List.forall₂_map_left_iff]
    have hown : ∀ p ∈ numbered budget flexMin cols, cols[p.2]? = some p.1 :=
      fun p hp => getElem?_of_mem_numbered hp
    exact ((List.forall₂_and_left _ _).mpr ⟨hown, hkept⟩).imp fun p c hp => ⟨p.1, hp⟩
  undropped i own hi h0 := by
    rw [mem_map_snd_numbered hi]
    have hmem : (own, i) ∈ cols.zipIdx.filter fun p => p.1.drop.toNat = 0 :=
      List.mem_filter.mpr ⟨List.mem_zipIdx_iff_getElem?.mpr hi,
        decide_eq_true ((toNat_drop_eq_zero own).mpr h0)⟩
    rw [← (sheds_numbered budget flexMin cols).filter_eq] at hmem
    exact List.mem_of_mem_filter hmem
  priority i j a b hi hj hab hna := by
    rw [mem_map_snd_numbered hi] at hna
    rw [mem_map_snd_numbered hj]
    refine (sheds_numbered budget flexMin cols).not_mem_of_sooner (pairwise_snd_zipIdx cols)
      (List.mem_zipIdx_iff_getElem?.mpr hi) hna (List.mem_zipIdx_iff_getElem?.mpr hj) ?_
    exact hab.imp UInt8.lt_iff_toNat_lt.mp fun h => ⟨congrArg UInt8.toNat h.1, h.2⟩
  exact := hexact
  narrowest := hnarrow
  cells i c hi s := pad_column c (hwide c (List.mem_of_getElem? hi)) _ s
  rows cell := (length_tableRow hwide cell).trans (length_tableRow hwide id).symm

/-- Each budget has its plan, and what a budget keeps, a larger one keeps. -/
theorem fit_lines_up {cols : List Col} (h : Legal cols) {flexMin flexMax : ℕ} (h3 : 3 ≤ flexMin)
    (hm : flexMin ≤ flexMax) :
    ∃ kept : ℕ → List ℕ,
      (∀ budget, ∃ plan, fit cols budget flexMin flexMax = some plan ∧
        IsPlan cols flexMin budget (kept budget) plan) ∧
      ∀ budget budget', budget ≤ budget' → kept budget ⊆ kept budget' := by
  refine ⟨fun budget => (numbered budget flexMin cols).map Prod.snd, fun budget => ?_,
    fun budget budget' hle => ?_⟩
  · obtain ⟨plan, hplan, hkept, hwide, hexact, hnarrow⟩ := fit_spec h h3 hm budget
    exact ⟨plan, hplan, isPlan hkept hwide hexact hnarrow⟩
  · exact ((numbered_sublist hle flexMin cols).map Prod.snd).subset

theorem fit_lines_up_flows :
    ∃ kept : ℕ → List ℕ,
      (∀ budget, ∃ plan, fit FLOWS.cols budget 14 38 = some plan ∧
        IsPlan FLOWS.cols 14 budget (kept budget) plan) ∧
      ∀ budget budget', budget ≤ budget' → kept budget ⊆ kept budget' :=
  fit_lines_up (legal_of_mem_tables FLOWS List.mem_cons_self).1 (by decide) (by decide)

example : (fit FLOWS.cols 33 14 38).map (·.map Col.title) =
    some [lit "REMOTE", lit "RX", lit "RATE"] := by decide +kernel

end Tunnel.Gui
