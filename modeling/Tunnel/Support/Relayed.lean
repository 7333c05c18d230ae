import Mathlib.Data.List.Forall2

/-!
# Support — Relays

A relay is given inputs one after another; each it hands on as an output, or drops.  What it has
handed on is then, in order, an image of some of what it was given: nothing of its own, nothing
twice, nothing overtaken (`Relayed`).

* `Relayed.drop`, `Relayed.pass`: one more input.
* `Relayed.mem`: an output has an input.
-/

namespace Support

variable {α β : Type} {R : α → β → Prop}

/-- The outputs `ys` are images under `R` of some of the inputs `xs`, in order. -/
def Relayed (R : α → β → Prop) (xs : List α) (ys : List β) : Prop :=
  ∃ zs, zs.Sublist xs ∧ List.Forall₂ R zs ys

namespace Relayed

variable {xs : List α} {ys : List β}

theorem nil : Relayed R [] [] := ⟨[], .slnil, .nil⟩

/-- An input that is dropped. -/
theorem drop (h : Relayed R xs ys) (x : α) : Relayed R (xs ++ [x]) ys := by
  obtain ⟨zs, hs, hr⟩ := h
  exact ⟨zs, hs.trans (List.sublist_append_left xs [x]), hr⟩

/-- An input that is handed on. -/
theorem pass (h : Relayed R xs ys) {x : α} {y : β} (hxy : R x y) :
    Relayed R (xs ++ [x]) (ys ++ [y]) := by
  obtain ⟨zs, hs, hr⟩ := h
  exact ⟨zs ++ [x], hs.append (.refl [x]), List.rel_append hr (.cons hxy .nil)⟩

theorem mem (h : Relayed R xs ys) {y : β} (hy : y ∈ ys) : ∃ x ∈ xs, R x y := by
  obtain ⟨zs, hs, hr⟩ := h
  obtain ⟨x, hx, hxy⟩ : ∃ x ∈ zs, R x y := by
    clear hs
    induction hr with
    | nil => cases hy
    | cons hxy _ ih =>
        rcases List.mem_cons.mp hy with rfl | hy
        · exact ⟨_, List.mem_cons_self, hxy⟩
        · obtain ⟨x, hx, h⟩ := ih hy
          exact ⟨x, List.mem_cons_of_mem _ hx, h⟩
  exact ⟨x, hs.subset hx, hxy⟩

end Relayed

end Support
