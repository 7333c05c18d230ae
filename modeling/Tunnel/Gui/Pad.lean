import Tunnel.Gui.Fit
import Tunnel.Probe.Response

/-!
# Gui — Pad

The cells of a table as characters (`gui.rs`).

* `pad`, `gutter`, `tableRow`: a cell, the blanks it owes its neighbour, and a row.
* `pad_spec`: a cell is as wide as its column and ends in its gutter.
* `length_tableRow`: a row is as wide as its columns.
-/

namespace Tunnel.Gui
open Support

/-- `width` characters, the last `gutter` of them blank. -/
def pad (s : Text) (width : ℕ) (right : Bool) (gutter : ℕ) : Text :=
  if width = 0 then []
  else
    let inner := max (width - gutter) 1
    let blanks := width - inner
    if right then List.leftpad inner ' ' (Probe.clampTo s inner) ++ List.replicate blanks ' '
    else List.rightpad width ' ' (Probe.clampTo s inner)

/-- The blanks a cell owes the next column. -/
def gutter (col : Col) (next : Option Col) : ℕ :=
  match next with
  | some n => if col.right && !n.right then 2 else 1
  | none => 1

/-- The texts of a row, cell by cell. -/
def tableCells (plan : List Col) (cell : Text → Text) : List Text :=
  plan.zipIdx.map fun (c, i) => pad (cell c.title) c.width c.right (gutter c plan[i + 1]?)

def tableRow (plan : List Col) (cell : Text → Text) : Text := (tableCells plan cell).flatten

def tableHeader (plan : List Col) : Text := tableRow plan id

theorem gutter_le (col : Col) (next : Option Col) : gutter col next ≤ 2 := by
  cases next with
  | none => exact Nat.le_succ 1
  | some n =>
      simp only [gutter]
      split <;> omega

/-- A cell wider than its gutter is as wide as it should be and ends in its gutter. -/
theorem pad_spec {width g : ℕ} (h : g < width) (s : Text) (right : Bool) :
    (pad s width right g).length = width ∧ List.replicate g ' ' <:+ pad s width right g := by
  have hinner : max (width - g) 1 = width - g := by omega
  have hlen : (Probe.clampTo s (width - g)).length ≤ width - g :=
    Probe.length_clampTo (by omega) s
  have hblanks : width - (width - g) = g := by omega
  rw [pad, if_neg (by omega), hinner]
  dsimp only
  rw [hblanks]
  cases right with
  | true =>
      rw [if_pos rfl, List.length_append, List.length_leftpad, List.length_replicate,
        Nat.max_eq_left hlen]
      exact ⟨by omega, List.suffix_append _ _⟩
  | false =>
      rw [if_neg Bool.false_ne_true]
      refine ⟨by simp [List.rightpad]; omega, ?_⟩
      -- The gutter is the end of the blanks after the text.
      refine List.IsSuffix.trans ?_ (List.suffix_append _ _)
      refine ⟨List.replicate (width - (Probe.clampTo s (width - g)).length - g) ' ', ?_⟩
      rw [List.replicate_append_replicate]
      congr 1
      omega

/-- The cell of a column at least three characters wide. -/
theorem pad_column (c : Col) (h : 3 ≤ c.width) (next : Option Col) (s : Text) :
    (pad s c.width c.right (gutter c next)).length = c.width ∧
      List.replicate (gutter c next) ' ' <:+ pad s c.width c.right (gutter c next) :=
  pad_spec (lt_of_le_of_lt (gutter_le c next) h) s c.right

theorem length_tableRow {plan : List Col} (h : ∀ c ∈ plan, 3 ≤ c.width) (cell : Text → Text) :
    (tableRow plan cell).length = totalWidth plan := by
  have hcells : (tableCells plan cell).map List.length = plan.map Col.width := by
    rw [tableCells, List.map_map, ← List.zipIdx_map_fst 0 plan, List.map_map, List.zipIdx_map_fst]
    refine List.map_congr_left fun p hp => ?_
    exact (pad_column p.1 (h _ (List.fst_mem_of_mem_zipIdx hp)) _ _).1
  rw [tableRow, List.length_flatten, hcells, totalWidth]

end Tunnel.Gui
