import Mathlib
import Reckoner.Proofs.RowMatrix.Shaped

/-!
# Matrices by their entries

The matrices of a shape are those that are given by an entry for each row and column
(`Reckoner.RowMatrix.Shaped.exists_ofMatrix`), and there every entry is found.
-/

namespace Reckoner.RowMatrix

open Outcome

variable {α β : Type} {rows columns n : ℕ}

/-- The matrix with the given entries, row by row. -/
def ofMatrix (M : Matrix (Fin rows) (Fin columns) α) : RowMatrix α :=
  List.ofFn fun i => List.ofFn (M i)

theorem shaped_ofMatrix (M : Matrix (Fin rows) (Fin columns) α) :
    (ofMatrix M).Shaped rows columns := by
  refine ⟨List.length_ofFn, fun row member => ?_⟩
  obtain ⟨i, rfl⟩ := List.mem_ofFn.mp member
  exact List.length_ofFn

/-- A matrix of a shape is given by its entries. -/
theorem Shaped.exists_ofMatrix {m : RowMatrix α} (shaped : m.Shaped rows columns) :
    ∃ M : Matrix (Fin rows) (Fin columns) α, m = ofMatrix M := by
  obtain ⟨rfl, breadth⟩ := shaped
  have each (i : Fin m.length) : m[i].length = columns := breadth _ (List.getElem_mem i.isLt)
  refine ⟨fun i j => m[i].get (j.cast (each i).symm), ?_⟩
  refine (@List.ofFn_getElem _ m).symm.trans (congrArg List.ofFn (funext fun i => ?_))
  refine List.ext_get ?_ fun j inside place => ?_
  · rw [List.length_ofFn]
    exact each i
  · rw [List.get_ofFn]
    rfl

theorem item_ofFn (f : Fin n → β) (i : Fin n) : item (List.ofFn f) i = .ok (f i) := by
  rw [item, List.getElem?_ofFn, dif_pos i.isLt]

/-- A traversal of a listed family has the listed values. -/
theorem mapM_ofFn {f : α → Except Cause β} {g : Fin n → α} {h : Fin n → β}
    (each : ∀ i, f (g i) = .ok (h i)) : (List.ofFn g).mapM f = .ok (List.ofFn h) := by
  rw [List.ofFn_eq_map, List.ofFn_eq_map, List.mapM_map]
  exact mapM_eq_ok fun i _ => each i

theorem mapM_range_fin {f : ℕ → Except Cause β} {g : Fin n → β}
    (each : ∀ i : Fin n, f i = .ok (g i)) : (List.range n).mapM f = .ok (List.ofFn g) := by
  rw [← List.map_coe_finRange_eq_range, ← List.ofFn_eq_map]
  exact mapM_ofFn each

/-- A loop over places whose steps are known is a loop without failures. -/
theorem foldlM_range_fin {step : β → ℕ → Except Cause β} {f : β → Fin n → β}
    (each : ∀ state (i : Fin n), step state i = .ok (f state i)) (start : β) :
    (List.range n).foldlM step start = .ok (Fin.foldl n f start) := by
  induction n with
  | zero => rfl
  | succ n ih =>
      rw [List.range_succ, List.foldlM_append,
        @ih (fun state i => f state i.castSucc) fun state i => each state i.castSucc, ok_bind,
        List.foldlM_cons, Fin.foldl_succ_last]
      exact congrArg (· >>= pure) (each _ (Fin.last n))

theorem zipWith_ofFn (f : α → α → β) (g h : Fin n → α) :
    (List.ofFn g).zipWith f (List.ofFn h) = List.ofFn fun i => f (g i) (h i) := by
  rw [List.ofFn_eq_map, List.ofFn_eq_map, List.zipWith_map, List.zipWith_self, List.ofFn_eq_map]

theorem entryAt_ofMatrix (M : Matrix (Fin rows) (Fin columns) α) (i : Fin rows)
    (j : Fin columns) : (ofMatrix M).entryAt i j = .ok (M i j) := by
  rw [entryAt, ofMatrix, item_ofFn, ok_bind, item_ofFn]

theorem squareOrder_ofMatrix (M : Matrix (Fin (rows + 1)) (Fin columns) α) :
    (ofMatrix M).squareOrder =
      if rows + 1 = columns then .ok (rows + 1) else .error .dimensionMismatch := by
  rw [squareOrder, (shaped_ofMatrix M).measure_eq]
  rfl

end Reckoner.RowMatrix
