import Mathlib.Algebra.Order.BigOperators.Group.List
import Mathlib.Algebra.Order.Ring.Nat
import Mathlib.Data.List.Forall2
import Tunnel.Support.Shedding
import Tunnel.Text

/-!
# Gui — Fit

The columns of a table that a number of characters has room for (`gui.rs`).  Widths and budgets are
numbers of characters, in `ℕ`.

* `fit`: the columns kept, the flexible one sized, and the slack spread over the others.
* `totalWidth_spread`: what the slack adds up to.
* `fit_spec`: a plan is the columns kept, each as wide as it was or wider; together they are as wide
  as the budget, or the budget is too small for the columns that are never dropped.
-/

namespace Tunnel.Gui
open Support

/-- One column of a monospace table. -/
structure Col where
  title : Text
  /-- `0` for the flexible column. -/
  width : ℕ
  right : Bool
  /-- Higher goes first, and `0` never. -/
  drop : UInt8
deriving DecidableEq, Repr

/-! ### The plan -/

/-- `keep.iter().map(|c| c.width).sum()`. -/
def totalWidth (keep : List Col) : ℕ := (keep.map Col.width).sum

/-- The first loop of `fit`. -/
def narrow (budget flexMin : ℕ) (keep : List Col) : List Col :=
  shed (fun c => c.drop.toNat) (fun keep => totalWidth keep + flexMin ≤ budget) keep

/-- `n.clamp(min, max)`, which panics on bounds the wrong way round. -/
def clamp (n min max : ℕ) : Option ℕ :=
  if max < min then none else some (if n < min then min else if max < n then max else n)

/-- The second loop of `fit`: the flexible column gets its width. -/
def placeFlex (flex : ℕ) (keep : List Col) : List Col :=
  keep.map fun c => if c.width = 0 then { c with width := flex } else c

/-- Where the second loop found the flexible column, if it did. -/
def flexIdx (keep : List Col) : Option ℕ :=
  (keep.zipIdx.filter fun p => p.1.width = 0).getLast?.map Prod.snd

/-- `keep[i].width += n`. -/
def widen (keep : List Col) (i n : ℕ) : List Col :=
  keep.modify i fun c => { c with width := c.width + n }

/-- The third loop of `fit`. -/
def spread (each : ℕ) : List Col → ℕ → List ℕ → List Col
  | keep, _, [] => keep
  | keep, rem, i :: targets =>
    let keep := widen keep i each
    if 0 < rem then spread each (widen keep i 1) (rem - 1) targets
    else spread each keep rem targets

/-- The columns that share the slack. -/
def slackTargets (keep : List Col) (flexIdx : Option ℕ) : List ℕ :=
  let targets := (List.range keep.length).filter fun i => some i ≠ flexIdx
  -- A table narrowed down to its flexible column alone still spans the cell.
  if targets = [] then List.range keep.length else targets

/-- The end of `fit`: the budget that is not used goes to the columns. -/
def fillSlack (budget : ℕ) (keep : List Col) (flexIdx : Option ℕ) : List Col :=
  let used := totalWidth keep
  if used < budget ∧ keep ≠ [] then
    let extra := budget - used
    let targets := slackTargets keep flexIdx
    spread (extra / targets.length) keep (extra % targets.length) targets
  else keep

/-- Pick the columns that fit in `budget` characters. -/
def fit (cols : List Col) (budget flexMin flexMax : ℕ) : Option (List Col) :=
  let keep := narrow budget flexMin cols
  (clamp (budget - totalWidth keep) flexMin flexMax).map fun flex =>
    fillSlack budget (placeFlex flex keep) (flexIdx keep)

@[simp] theorem totalWidth_nil : totalWidth [] = 0 := rfl

@[simp] theorem totalWidth_cons (c : Col) (cs : List Col) :
    totalWidth (c :: cs) = c.width + totalWidth cs := rfl

theorem totalWidth_le_of_sublist {as bs : List Col} (h : as.Sublist bs) :
    totalWidth as ≤ totalWidth bs := (h.map Col.width).sum_le_sum fun _ _ => Nat.zero_le _

theorem clamp_eq {n min max : ℕ} (h : min ≤ max) :
    ∃ m, clamp n min max = some m ∧ min ≤ m ∧ (min ≤ n → m ≤ n) ∧ (n < min → m = min) := by
  refine ⟨if n < min then min else if max < n then max else n, if_neg h.not_gt, ?_⟩
  split_ifs <;> omega

/-! ### Columns that grow -/

/-- The same column, as wide as it was or wider. -/
structure Widened (own c : Col) : Prop where
  title : c.title = own.title
  right : c.right = own.right
  drop : c.drop = own.drop
  width : own.width ≤ c.width

theorem Widened.refl (c : Col) : Widened c c := ⟨rfl, rfl, rfl, Nat.le_refl _⟩

theorem Widened.trans {a b c : Col} (h : Widened a b) (h' : Widened b c) : Widened a c :=
  ⟨h'.title.trans h.title, h'.right.trans h.right, h'.drop.trans h.drop, h.width.trans h'.width⟩

/-- Each column of one list is one of the other's, as wide or wider. -/
abbrev AllWidened : List Col → List Col → Prop := List.Forall₂ Widened

theorem AllWidened.refl (cs : List Col) : AllWidened cs cs :=
  List.forall₂_same.mpr fun c _ => .refl c

theorem AllWidened.trans {as bs cs : List Col} (h : AllWidened as bs) (h' : AllWidened bs cs) :
    AllWidened as cs := by
  induction h generalizing cs with
  | nil => exact h'
  | cons h _ ih =>
      cases h' with
      | cons h' t' => exact .cons (h.trans h') (ih t')

theorem allWidened_widen (keep : List Col) (i n : ℕ) : AllWidened keep (widen keep i n) := by
  induction keep generalizing i with
  | nil => cases i <;> exact .nil
  | cons c cs ih =>
      cases i with
      | zero => exact .cons ⟨rfl, rfl, rfl, Nat.le_add_right _ _⟩ (AllWidened.refl cs)
      | succ i => exact .cons (.refl c) (ih i)

theorem allWidened_spread (each : ℕ) (keep : List Col) (rem : ℕ) (targets : List ℕ) :
    AllWidened keep (spread each keep rem targets) := by
  induction targets generalizing keep rem with
  | nil => exact .refl keep
  | cons i targets ih =>
      have h := allWidened_widen keep i each
      rw [spread]
      split
      · exact (h.trans (allWidened_widen _ i 1)).trans (ih _ _)
      · exact h.trans (ih _ _)

theorem allWidened_fillSlack (budget : ℕ) (keep : List Col) (idx : Option ℕ) :
    AllWidened keep (fillSlack budget keep idx) := by
  rw [fillSlack]
  split
  · exact allWidened_spread _ _ _ _
  · exact .refl keep

theorem allWidened_placeFlex (flex : ℕ) (keep : List Col) :
    AllWidened keep (placeFlex flex keep) := by
  rw [placeFlex, AllWidened, List.forall₂_map_right_iff]
  refine List.forall₂_same.mpr fun c _ => ?_
  split
  · next h => exact ⟨rfl, rfl, rfl, h ▸ Nat.zero_le _⟩
  · exact .refl c

/-! ### The slack -/

@[simp] theorem length_widen (keep : List Col) (i n : ℕ) : (widen keep i n).length = keep.length :=
  List.length_modify _ _ _

theorem totalWidth_widen {keep : List Col} {i : ℕ} (h : i < keep.length) (n : ℕ) :
    totalWidth (widen keep i n) = totalWidth keep + n := by
  induction keep generalizing i with
  | nil => cases h
  | cons c cs ih =>
      cases i with
      | zero => exact Nat.add_right_comm c.width n (totalWidth cs)
      | succ i =>
          have hi := ih (Nat.lt_of_succ_lt_succ h)
          exact (congrArg (c.width + ·) hi).trans (Nat.add_assoc _ _ _).symm

/-- Each target gets its share, and the first of them one more while the rest lasts. -/
theorem totalWidth_spread (each : ℕ) {keep : List Col} (rem : ℕ) {targets : List ℕ}
    (h : ∀ i ∈ targets, i < keep.length) :
    totalWidth (spread each keep rem targets) =
      totalWidth keep + each * targets.length + min rem targets.length := by
  induction targets generalizing keep rem with
  | nil => simp [spread]
  | cons i targets ih =>
      have hi := h i List.mem_cons_self
      have ht : ∀ j ∈ targets, j < keep.length := fun j hj => h j (List.mem_cons_of_mem i hj)
      rw [spread, List.length_cons, Nat.mul_succ]
      split
      · rw [ih _ (by simpa using ht), totalWidth_widen (by simpa using hi), totalWidth_widen hi]
        omega
      · rw [ih _ (by simpa using ht), totalWidth_widen hi]
        omega

theorem slackTargets_lt (keep : List Col) (idx : Option ℕ) :
    ∀ i ∈ slackTargets keep idx, i < keep.length := by
  intro i hi
  rw [slackTargets] at hi
  split at hi
  · exact List.mem_range.mp hi
  · exact List.mem_range.mp (List.mem_of_mem_filter hi)

theorem slackTargets_ne_nil {keep : List Col} (h : keep ≠ []) (idx : Option ℕ) :
    slackTargets keep idx ≠ [] := by
  rw [slackTargets]
  split
  · rwa [Ne, List.range_eq_nil, List.length_eq_zero_iff]
  · assumption

/-- The slack is used up. -/
theorem totalWidth_fillSlack {budget : ℕ} {keep : List Col} (hne : keep ≠ [])
    (h : totalWidth keep ≤ budget) (idx : Option ℕ) :
    totalWidth (fillSlack budget keep idx) = budget := by
  rw [fillSlack]
  split
  · have hpos : 0 < (slackTargets keep idx).length :=
      List.length_pos_of_ne_nil (slackTargets_ne_nil hne idx)
    have hmod := Nat.mod_lt (budget - totalWidth keep) hpos
    have hdiv := Nat.div_add_mod (budget - totalWidth keep) (slackTargets keep idx).length
    rw [totalWidth_spread _ _ (slackTargets_lt keep idx), Nat.min_eq_left hmod.le, Nat.add_assoc,
      Nat.mul_comm, hdiv]
    omega
  · next hn =>
    have : ¬ totalWidth keep < budget := fun hlt => hn ⟨hlt, hne⟩
    omega

theorem fillSlack_of_le {budget : ℕ} {keep : List Col} (h : budget ≤ totalWidth keep)
    (idx : Option ℕ) : fillSlack budget keep idx = keep := if_neg fun hlt => by omega

/-! ### The columns kept -/

/-- One flexible column, which is never dropped, and no other narrower than three characters. -/
structure Legal (cols : List Col) : Prop where
  flexible : cols.countP (·.width = 0) = 1
  undropped : ∀ c ∈ cols, c.width = 0 → c.drop = 0
  wide : ∀ c ∈ cols, c.width ≠ 0 → 3 ≤ c.width

/-- The columns that are never dropped. -/
def essential (cols : List Col) : List Col := cols.filter (·.drop = 0)

theorem sheds_narrow (budget flexMin : ℕ) (cols : List Col) :
    Sheds (fun c => c.drop.toNat) (fun keep => totalWidth keep + flexMin ≤ budget) cols
      (narrow budget flexMin cols) := sheds_shed _ _ cols

theorem toNat_drop_eq_zero (c : Col) : c.drop.toNat = 0 ↔ c.drop = 0 :=
  UInt8.toNat_inj (b := 0)

theorem essential_narrow (budget flexMin : ℕ) (cols : List Col) :
    essential (narrow budget flexMin cols) = essential cols := by
  have h := (sheds_narrow budget flexMin cols).filter_eq
  simp only [toNat_drop_eq_zero] at h
  exact h

theorem narrow_fits_or (budget flexMin : ℕ) (cols : List Col) :
    totalWidth (narrow budget flexMin cols) + flexMin ≤ budget ∨
      budget < totalWidth (narrow budget flexMin cols) + flexMin ∧
        narrow budget flexMin cols = essential cols := by
  refine (sheds_narrow budget flexMin cols).fits_or.imp_right fun ⟨hn, h0⟩ => ⟨by omega, ?_⟩
  rw [← essential_narrow budget flexMin cols]
  exact (List.filter_eq_self.mpr fun c hc =>
    decide_eq_true ((toNat_drop_eq_zero c).mp (h0 c hc))).symm

/-- The flexible column is kept. -/
theorem countP_narrow {cols : List Col} (h : Legal cols) (budget flexMin : ℕ) :
    (narrow budget flexMin cols).countP (·.width = 0) = 1 := by
  have hess : (essential cols).countP (·.width = 0) = cols.countP (·.width = 0) := by
    rw [essential, List.countP_filter]
    refine List.countP_congr fun c hc => ?_
    simpa using h.undropped c hc
  have hle := (sheds_narrow budget flexMin cols).sublist.countP_le (p := (·.width = 0))
  have hge := (List.filter_sublist (l := narrow budget flexMin cols)
    (p := (·.drop = 0))).countP_le (p := (·.width = 0))
  rw [← essential, essential_narrow, hess] at hge
  have := h.flexible
  omega

theorem totalWidth_placeFlex (flex : ℕ) (keep : List Col) :
    totalWidth (placeFlex flex keep) = totalWidth keep + flex * keep.countP (·.width = 0) := by
  induction keep with
  | nil => simp [placeFlex]
  | cons c cs ih =>
      rw [placeFlex, List.map_cons, ← placeFlex, totalWidth_cons, totalWidth_cons, ih,
        List.countP_cons]
      by_cases hc : c.width = 0
      · rw [if_pos hc, if_pos (decide_eq_true hc), hc, Nat.mul_succ]
        dsimp only
        omega
      · rw [if_neg hc, if_neg (by simpa using hc), Nat.add_zero, Nat.add_assoc]

/-- The columns at least three characters wide. -/
theorem three_le_width {cols plan : List Col} (h : Legal cols) {flex : ℕ} (hf : 3 ≤ flex)
    {keep : List Col} (hk : keep.Sublist cols) (hp : AllWidened (placeFlex flex keep) plan) :
    ∀ c ∈ plan, 3 ≤ c.width := by
  intro c hc
  obtain ⟨i, hi, rfl⟩ := List.getElem_of_mem hc
  have hip : i < (placeFlex flex keep).length := hp.length_eq ▸ hi
  have hik : i < keep.length := by rwa [placeFlex, List.length_map] at hip
  have hw : Widened (placeFlex flex keep)[i] plan[i] := hp.get hip hi
  refine le_trans ?_ hw.width
  simp only [placeFlex, List.getElem_map]
  split
  · exact hf
  · next h0 => exact h.wide _ (hk.subset (List.getElem_mem hik)) h0

/-- A plan is the columns kept, none narrower than it was.  It spans the budget, or the budget is
too small for the columns that are never dropped. -/
theorem fit_spec {cols : List Col} (h : Legal cols) {flexMin flexMax : ℕ} (h3 : 3 ≤ flexMin)
    (hm : flexMin ≤ flexMax) (budget : ℕ) :
    ∃ plan, fit cols budget flexMin flexMax = some plan ∧
      AllWidened (narrow budget flexMin cols) plan ∧ (∀ c ∈ plan, 3 ≤ c.width) ∧
      (totalWidth (essential cols) + flexMin ≤ budget → totalWidth plan = budget) ∧
      (budget < totalWidth (essential cols) + flexMin →
        plan = placeFlex flexMin (essential cols)) := by
  set keep := narrow budget flexMin cols with hkeep
  have hsub : keep.Sublist cols := (sheds_narrow budget flexMin cols).sublist
  have hone : keep.countP (·.width = 0) = 1 := countP_narrow h budget flexMin
  obtain ⟨flex, hflex, hmin, hle, heq⟩ := clamp_eq (n := budget - totalWidth keep) hm
  have hused := totalWidth_placeFlex flex keep
  rw [hone, Nat.mul_one] at hused
  have hne : placeFlex flex keep ≠ [] := by
    intro he
    rw [placeFlex, List.map_eq_nil_iff] at he
    rw [he] at hone
    cases hone
  have hwid := (allWidened_fillSlack budget (placeFlex flex keep) (flexIdx keep))
  refine ⟨fillSlack budget (placeFlex flex keep) (flexIdx keep), ?_,
    (allWidened_placeFlex flex keep).trans hwid, three_le_width h (h3.trans hmin) hsub hwid,
    fun hfit => ?_, fun hnarrow => ?_⟩
  · rw [fit, ← hkeep, hflex]
    rfl
  · -- What is kept fits, for what is never dropped does.
    have hfits : totalWidth keep + flexMin ≤ budget := by
      rcases narrow_fits_or budget flexMin cols with hf | ⟨-, he⟩
      · exact hf
      · rwa [hkeep, he]
    exact totalWidth_fillSlack hne (by rw [hused]; have := hle (by omega); omega) _
  · have hess : keep = essential cols := by
      rcases narrow_fits_or budget flexMin cols with hf | ⟨-, he⟩
      · have := totalWidth_le_of_sublist (List.filter_sublist (l := keep) (p := (·.drop = 0)))
        rw [← essential, hkeep, essential_narrow] at this
        omega
      · exact he
    rw [hess] at heq hused ⊢
    rw [heq (by omega)] at hused ⊢
    exact fillSlack_of_le (by omega) _

end Tunnel.Gui
