import Reckoner.Proofs.Described
import Reckoner.RowMatrix.Operation

/-!
# Matrices of a shape

A matrix of a shape has an entry in every row and column of the shape. So no operation looks past
the end of a row or a matrix: on matrices with rows an operation either ends with a value or is
refused for a cause of its own (`Reckoner.MatrixOperation.endsIn_perform`).
-/

namespace Reckoner.RowMatrix

open Outcome

variable {α : Type}

/-- The matrix has so many rows and columns. -/
structure Shaped (m : RowMatrix α) (rows columns : Nat) : Prop where
  height : m.length = rows
  breadth : ∀ row ∈ m, row.length = columns

variable {m a b : RowMatrix α} {rows columns : Nat} {failure : Cause → Prop}

/-! ## Entries -/

theorem endsIn_item {β : Type} {items : List β} {i : Nat} (inside : i < items.length) :
    EndsIn (· ∈ items) failure (item items i) := by
  rw [item, List.getElem?_eq_getElem inside]
  exact List.getElem_mem inside

theorem Shaped.endsIn_row (shaped : m.Shaped rows columns) {i : Nat} (inside : i < rows) :
    EndsIn (fun row => row.length = columns) failure (item m i) := by
  have place : i < m.length := by rw [shaped.height]; exact inside
  exact (endsIn_item place).mono shaped.breadth fun _ => id

theorem Shaped.endsIn_entryAt (shaped : m.Shaped rows columns) {i j : Nat} (row : i < rows)
    (column : j < columns) : EndsIn (fun _ => True) failure (m.entryAt i j) := by
  apply (shaped.endsIn_row row).bind
  intro entries length
  have place : j < entries.length := by rw [length]; exact column
  exact (endsIn_item place).anyhow

theorem Shaped.measure_eq (shaped : m.Shaped (rows + 1) columns) :
    m.measure = .ok (rows + 1, columns) := by
  obtain ⟨height, breadth⟩ := shaped
  cases m with
  | nil => cases height
  | cons first rest =>
      rw [← height, ← breadth first List.mem_cons_self]
      rfl

theorem Shaped.endsIn_squareOrder (shaped : m.Shaped (rows + 1) columns)
    (refused : rows + 1 ≠ columns → failure .dimensionMismatch) :
    EndsIn (fun order => order = rows + 1 ∧ columns = rows + 1) failure m.squareOrder := by
  rw [squareOrder, shaped.measure_eq]
  simp only [ok_bind]
  by_cases square : rows + 1 = columns
  · rw [if_pos square]
    exact ⟨rfl, square.symm⟩
  · rw [if_neg square]
    exact refused square

/-! ## Sums and products -/

theorem Shaped.zipWith {f : α → α → α} (first : a.Shaped rows columns)
    (second : b.Shaped rows columns) :
    Shaped (a.zipWith (List.zipWith f) b) rows columns := by
  refine ⟨by rw [List.length_zipWith, first.height, second.height, Nat.min_self], ?_⟩
  intro row member
  obtain ⟨i, inside, rfl⟩ := List.getElem_of_mem member
  rw [List.getElem_zipWith, List.length_zipWith, first.breadth _ (List.getElem_mem _),
    second.breadth _ (List.getElem_mem _), Nat.min_self]

/-- Matrices of one shape are combined to a matrix of that shape; others are refused. -/
theorem endsIn_combine {f : α → α → α} {others widths : Nat}
    (first : a.Shaped (rows + 1) columns) (second : b.Shaped (others + 1) widths)
    (refused : (rows + 1, columns) ≠ (others + 1, widths) → failure .dimensionMismatch) :
    EndsIn (fun sum => (rows + 1, columns) = (others + 1, widths) ∧ sum.Shaped (rows + 1) columns)
      failure (combine f a b) := by
  rw [combine, first.measure_eq, second.measure_eq, ok_bind, ok_bind]
  by_cases same : (rows + 1, columns) = (others + 1, widths)
  · rw [if_pos same]
    cases same
    exact ⟨rfl, first.zipWith second⟩
  · rw [if_neg same]
    exact refused same

section Arithmetic

variable [Add α] [Mul α] [OfNat α 0]

theorem endsIn_dot {inner : Nat} (first : a.Shaped rows inner) (second : b.Shaped inner columns)
    {i j : Nat} (row : i < rows) (column : j < columns) :
    EndsIn (fun _ => True) failure (dot a b i j inner) := by
  apply endsIn_foldlM trivial
  intro sum _ k member
  have place := List.mem_range.mp member
  apply (first.endsIn_entryAt row place).bind
  intro x _
  apply (second.endsIn_entryAt place column).bind
  intro y _
  trivial

/-- A product has the rows of the first matrix and the columns of the second. Matrices are refused
unless the first has as many columns as the second has rows. -/
theorem endsIn_multiply {others widths : Nat} (first : a.Shaped (rows + 1) columns)
    (second : b.Shaped (others + 1) widths)
    (refused : columns ≠ others + 1 → failure .dimensionMismatch) :
    EndsIn (fun product => columns = others + 1 ∧ product.Shaped (rows + 1) widths) failure
      (multiply a b) := by
  rw [multiply, first.measure_eq, second.measure_eq]
  simp only [ok_bind]
  by_cases same : columns = others + 1
  · rw [if_pos same]
    subst same
    have entries : ∀ i ∈ List.range (rows + 1), EndsIn (fun row => row.length = widths) failure
        ((List.range widths).mapM fun j => dot a b i j (others + 1)) := by
      intro i row
      refine (endsIn_mapM fun j column => endsIn_dot first second (List.mem_range.mp row)
        (List.mem_range.mp column)).mono ?_ fun _ => id
      rintro entries ⟨length, -⟩
      rw [length, List.length_range]
    refine (endsIn_mapM entries).mono ?_ fun _ => id
    rintro product ⟨height, breadth⟩
    exact ⟨rfl, by rw [height, List.length_range], breadth⟩
  · rw [if_neg same]
    exact refused same

omit [Mul α] in
theorem Shaped.endsIn_trace (shaped : m.Shaped (rows + 1) columns)
    (refused : rows + 1 ≠ columns → failure .dimensionMismatch) :
    EndsIn (fun _ => columns = rows + 1) failure m.trace := by
  apply (shaped.endsIn_squareOrder refused).bind
  rintro order ⟨rfl, rfl⟩
  apply endsIn_foldlM
  · rfl
  intro sum _ i member
  have place := List.mem_range.mp member
  apply (shaped.endsIn_entryAt place place).bind
  intro x _
  rfl

end Arithmetic

/-! ## Rows and columns exchanged -/

theorem Shaped.transpose (shaped : m.Shaped (rows + 1) columns) :
    m.transpose.Shaped columns (rows + 1) := by
  have lengths : m.map List.length = List.replicate (rows + 1) columns :=
    List.eq_replicate_iff.mpr ⟨by rw [List.length_map, shaped.height],
      List.forall_mem_map.mpr shaped.breadth⟩
  have width : (m.map List.length).min?.getD 0 = columns := by
    rw [lengths, List.min?_replicate_of_pos (Nat.succ_pos rows), Option.getD_some]
  refine ⟨by rw [RowMatrix.transpose, width, List.length_map, List.length_range], ?_⟩
  intro row member
  rw [RowMatrix.transpose, width] at member
  obtain ⟨j, inside, rfl⟩ := List.mem_map.mp member
  rw [column, List.filterMap_length_eq_length.mpr, shaped.height]
  intro row member
  rw [List.getElem?_eq_getElem (by rw [shaped.breadth row member]; exact List.mem_range.mp inside),
    Option.isSome_some]

/-! ## Determinants -/

section Determinant

theorem Shaped.endsIn_minor {order j : Nat} (shaped : m.Shaped (order + 1) (order + 1))
    (place : j < order + 1) :
    EndsIn (fun minor => Shaped minor order order) failure (m.minor (order + 1) j) := by
  have kept : ((List.range (order + 1)).filter (· != j)).length = order := by
    rw [← List.nodup_range.erase_eq_filter, List.length_erase_of_mem (List.mem_range.mpr place),
      List.length_range, Nat.add_sub_cancel]
  have height : m.tail.length = order := by
    rw [List.length_tail, shaped.height, Nat.add_sub_cancel]
  have ends : EndsIn (fun minor : RowMatrix α => minor.length = m.tail.length ∧
      ∀ row ∈ minor, row.length = order) failure (m.minor (order + 1) j) := by
    apply endsIn_mapM
    intro row member
    have length := shaped.breadth row (List.mem_of_mem_tail member)
    have entry : ∀ k ∈ (List.range (order + 1)).filter (· != j),
        EndsIn (· ∈ row) failure (item row k) := by
      intro k present
      have place := List.mem_range.mp (List.mem_filter.mp present).1
      exact endsIn_item (by rw [length]; exact place)
    apply (endsIn_mapM entry).mono _ fun _ => id
    rintro entries ⟨same, -⟩
    rw [same, kept]
  refine ends.mono ?_ fun _ => id
  rintro minor ⟨rows, breadth⟩
  exact ⟨rows.trans height, breadth⟩

variable [Add α] [Sub α] [Mul α] [Neg α] [OfNat α 0] [OfNat α 1]

/-- The expansion of a square matrix ends with a value. -/
theorem Shaped.endsIn_expand {order : Nat} (shaped : m.Shaped (order + 1) (order + 1)) :
    EndsIn (fun _ => True) failure (expand (order + 1) m) := by
  induction order generalizing m with
  | zero => exact shaped.endsIn_entryAt Nat.zero_lt_one Nat.zero_lt_one
  | succ order ih =>
      cases order with
      | zero =>
          have entry {i j : Nat} (row : i < 2) (column : j < 2) :
              EndsIn (fun _ => True) failure (m.entryAt i j) := shaped.endsIn_entryAt row column
          rw [expand]
          apply (entry Nat.two_pos Nat.two_pos).bind fun a _ => ?_
          apply (entry Nat.one_lt_two Nat.one_lt_two).bind fun d _ => ?_
          apply (entry Nat.two_pos Nat.one_lt_two).bind fun b _ => ?_
          apply (entry Nat.one_lt_two Nat.two_pos).bind fun c _ => ?_
          trivial
      | succ order =>
          rw [expand]
          · apply endsIn_foldlM trivial
            intro sum _ j member
            have place := List.mem_range.mp member
            apply (shaped.endsIn_minor place).bind
            intro minor smaller
            apply (shaped.endsIn_entryAt (Nat.succ_pos _) place).bind
            intro entry _
            apply (ih smaller).bind
            intro value _
            trivial
          · exact nofun
          · exact nofun

theorem Shaped.endsIn_determinant (shaped : m.Shaped (rows + 1) columns)
    (refused : rows + 1 ≠ columns → failure .dimensionMismatch) :
    EndsIn (fun _ => columns = rows + 1) failure m.determinant := by
  apply (shaped.endsIn_squareOrder refused).bind
  rintro order ⟨rfl, rfl⟩
  exact shaped.endsIn_expand.mono (fun _ _ => rfl) fun _ => id

end Determinant

/-! ## Inverses -/

section Inverse

section Parts

variable [OfNat α 0] [OfNat α 1]

theorem Shaped.augment (shaped : m.Shaped rows columns) :
    (augment rows m).Shaped rows (columns + rows) := by
  refine ⟨by rw [RowMatrix.augment, List.length_map, List.length_zipIdx, shaped.height], ?_⟩
  intro row member
  obtain ⟨place, present, rfl⟩ := List.mem_map.mp member
  rw [List.length_append, shaped.breadth place.1 (List.fst_mem_of_mem_zipIdx present), unitRow,
    List.length_map, List.length_range]

end Parts

/-- The exchange of two rows keeps the shape, and moves the second row to the place of the first. -/
theorem Shaped.endsIn_exchange (shaped : m.Shaped rows columns) {i j : Nat} (first : i < rows)
    (second : j < rows) :
    EndsIn (fun exchanged : RowMatrix α => exchanged.Shaped rows columns ∧
      item exchanged i = item m j) failure (m.exchange i j) := by
  apply (shaped.endsIn_row first).valued.bind
  rintro upper ⟨ofUpper, above⟩
  apply (shaped.endsIn_row second).valued.bind
  rintro lower ⟨ofLower, below⟩
  refine ⟨⟨by rw [List.length_set, List.length_set, shaped.height], ?_⟩, ?_⟩
  · intro row member
    rcases List.mem_or_eq_of_mem_set member with member | rfl
    · rcases List.mem_or_eq_of_mem_set member with member | rfl
      · exact shaped.breadth row member
      · exact ofLower
    · exact ofUpper
  · have place : i < m.length := by rw [shaped.height]; exact first
    by_cases same : i = j
    · subst same
      rw [above] at below ⊢
      rw [item, List.getElem?_set_self (by rw [List.length_set]; exact place)]
    · rw [item, List.getElem?_set_ne (Ne.symm same), List.getElem?_set_self place, below]

section Sizes

variable [Magnitude α]

theorem Shaped.endsIn_sizeAt (shaped : m.Shaped rows columns) {column row : Nat}
    (first : row < rows) (second : column < columns) :
    EndsIn (fun _ => True) failure (m.sizeAt column row) :=
  (shaped.endsIn_entryAt first second).map fun _ _ => trivial

/-- The pivot is looked for from the row of the column's place on. -/
theorem Shaped.endsIn_pivotRow (shaped : m.Shaped rows columns) {column : Nat}
    (row : column < rows) (place : column < columns) :
    EndsIn (fun best => column ≤ best ∧ best < rows) failure (m.pivotRow column) := by
  apply (shaped.endsIn_sizeAt row place).bind
  intro size _
  have found : EndsIn (fun found : Nat × α => column ≤ found.1 ∧ found.1 < rows) failure
      ((List.range' (column + 1) (m.length - (column + 1))).foldlM
        (m.largerRow column) (column, size)) := by
    apply endsIn_foldlM
    · exact ⟨Nat.le_refl column, row⟩
    · intro found inside i member
      have range := List.mem_range'_1.mp member
      rw [shaped.height] at range
      have bounds : column ≤ i ∧ i < rows := by omega
      apply (shaped.endsIn_sizeAt bounds.2 place).bind
      intro size _
      by_cases larger : Magnitude.below found.2 size = true
      · rw [if_pos larger]
        exact bounds
      · rw [if_neg larger]
        exact inside
  exact found.bind fun _ inside => inside

end Sizes

variable [Sub α] [Mul α] [Div α] [OfNat α 0] [OfNat α 1] [Magnitude α]

omit [Sub α] [Mul α] [OfNat α 0] [OfNat α 1] in
theorem endsIn_normalize {row : List α} {column : Nat} (inside : column < row.length)
    (divides : ∀ pivot, item row column = .ok pivot → Magnitude.isZero pivot = true →
      failure .divisionByZero) :
    EndsIn (fun scaled => scaled.length = row.length) failure (normalize column row) := by
  apply (endsIn_item inside).valued.bind
  rintro pivot ⟨-, is⟩
  by_cases zero : Magnitude.isZero pivot = true
  · rw [if_pos zero]
    exact divides pivot is zero
  · rw [if_neg zero]
    exact List.length_map _

omit [Div α] [OfNat α 0] [OfNat α 1] in
theorem endsIn_clear {pivot row : List α} {column : Nat} (inside : column < row.length)
    (same : pivot.length = row.length) :
    EndsIn (fun cleared => cleared.length = row.length) failure (clear pivot column row) := by
  apply (endsIn_item inside).bind
  intro factor _
  by_cases zero : Magnitude.isZero factor = true
  · rw [if_pos zero]
    rfl
  · rw [if_neg zero]
    change (List.zipWith _ row pivot).length = row.length
    rw [List.length_zipWith, same, Nat.min_self]

variable (singular : failure .singularMatrix)
  (divides : ∀ x : α, Magnitude.below (Magnitude.size x) Magnitude.threshold = false →
    Magnitude.isZero x = true → failure .divisionByZero)

include singular divides

omit [OfNat α 0] [OfNat α 1] in
/-- One step of the elimination keeps the shape. It is refused if the pivot is too small, and
divides by the pivot otherwise. -/
theorem Shaped.endsIn_eliminate (shaped : m.Shaped rows columns) {column : Nat}
    (row : column < rows) (place : column < columns) :
    EndsIn (fun m : RowMatrix α => m.Shaped rows columns) failure (eliminate m column) := by
  apply (shaped.endsIn_pivotRow row place).bind
  rintro best ⟨-, inside⟩
  apply (shaped.endsIn_sizeAt inside place).valued.bind
  rintro size ⟨-, tested⟩
  by_cases small : Magnitude.below size Magnitude.threshold = true
  · rw [if_pos small]
    exact singular
  · rw [if_neg small]
    apply (shaped.endsIn_exchange row inside).bind
    rintro exchanged ⟨shaped, moved⟩
    apply (shaped.endsIn_row row).valued.bind
    rintro entries ⟨length, is⟩
    have sized : ∀ pivot, item entries column = .ok pivot →
        Magnitude.isZero pivot = true → failure .divisionByZero := by
      -- The entry that is divided by is the one whose size has been tested.
      intro pivot ofColumn
      rw [moved] at is
      rw [sizeAt, entryAt, is, ok_bind, ofColumn] at tested
      cases tested
      exact divides pivot (eq_false_of_ne_true small)
    apply (endsIn_normalize (by rw [length]; exact place) sized).bind
    intro pivot scaled
    have each : ∀ place ∈ exchanged.zipIdx, EndsIn (fun row : List α => row.length = columns)
        failure (if place.2 = column then .ok pivot else clear pivot column place.1) := by
      intro other member
      have breadth := shaped.breadth other.1 (List.fst_mem_of_mem_zipIdx member)
      by_cases same : other.2 = column
      · rw [if_pos same]
        exact scaled.trans length
      · rw [if_neg same]
        apply (endsIn_clear (by rw [breadth]; exact place) _).mono _ fun _ => id
        · rw [scaled, length, breadth]
        · exact fun _ cleared => cleared.trans breadth
    apply (endsIn_mapM each).mono _ fun _ => id
    rintro cleared ⟨height, breadth⟩
    exact ⟨by rw [height, List.length_zipIdx, shaped.height], breadth⟩

/-- The inverse of a square matrix is one of the same order. -/
theorem Shaped.endsIn_inverse (shaped : m.Shaped (rows + 1) columns)
    (refused : rows + 1 ≠ columns → failure .dimensionMismatch) :
    EndsIn (fun inverse => columns = rows + 1 ∧ inverse.Shaped (rows + 1) (rows + 1)) failure
      m.inverse := by
  apply (shaped.endsIn_squareOrder refused).bind
  rintro order ⟨rfl, rfl⟩
  have eliminated : EndsIn (fun m : RowMatrix α => m.Shaped (rows + 1) (rows + 1 + (rows + 1)))
      failure ((List.range (rows + 1)).foldlM eliminate (RowMatrix.augment (rows + 1) m)) := by
    apply endsIn_foldlM
    · exact shaped.augment
    · intro state shaped column member
      have place := List.mem_range.mp member
      exact shaped.endsIn_eliminate singular divides place (by omega)
  apply eliminated.bind
  intro done shaped
  refine ⟨rfl, (List.length_map _).trans shaped.height, ?_⟩
  intro row member
  obtain ⟨wide, present, rfl⟩ := List.mem_map.mp member
  rw [List.length_drop, shaped.breadth wide present, Nat.add_sub_cancel]

end Inverse

end Reckoner.RowMatrix

namespace Reckoner.MatrixOperation

open Outcome RowMatrix

/-! ## Operations -/

/-- The matrix has rows, all of one length. -/
def Proper {α : Type} (m : RowMatrix α) : Prop :=
  ∃ rows columns, m.Shaped (rows + 1) columns

variable {α : Type}

theorem endsIn_onTwo {operation : MatrixOperation} {matrices : List (RowMatrix α)}
    {f : RowMatrix α → RowMatrix α → Except Cause (RowMatrix α)}
    (proper : ∀ m ∈ matrices, Proper m)
    (ends : ∀ a b, Proper a → Proper b → EndsIn (fun _ => True) Cause.Described (f a b)) :
    EndsIn (fun _ => True) Cause.Described (operation.onTwo f matrices) := by
  unfold onTwo
  split
  · rename_i a b
    exact ends a b (proper a List.mem_cons_self) (proper b (.tail _ (.head _)))
  · exact nofun

theorem endsIn_onOne {operation : MatrixOperation} {matrices : List (RowMatrix α)}
    {f : RowMatrix α → Except Cause (RowMatrix α)} (proper : ∀ m ∈ matrices, Proper m)
    (ends : ∀ m, Proper m → EndsIn (fun _ => True) Cause.Described (f m)) :
    EndsIn (fun _ => True) Cause.Described (operation.onOne f matrices) := by
  unfold onOne
  split
  · rename_i m
    exact ends m (proper m List.mem_cons_self)
  · exact nofun

variable [Add α] [Sub α] [Mul α] [Div α] [Neg α] [OfNat α 0] [OfNat α 1] [Magnitude α]

/-- **No operation looks past the end of a proper matrix.** -/
theorem endsIn_perform (operation : MatrixOperation) {matrices : List (RowMatrix α)}
    (proper : ∀ m ∈ matrices, Proper m) :
    EndsIn (fun _ => True) Cause.Described (operation.perform matrices) := by
  unfold perform
  split
  · exact nofun
  · cases operation with
    | multiply =>
        apply endsIn_onTwo proper
        rintro a b ⟨_, _, first⟩ ⟨_, _, second⟩
        exact (endsIn_multiply first second fun _ => nofun).anyhow
    | add =>
        apply endsIn_onTwo proper
        rintro a b ⟨_, _, first⟩ ⟨_, _, second⟩
        exact (endsIn_combine first second fun _ => nofun).anyhow
    | subtract =>
        apply endsIn_onTwo proper
        rintro a b ⟨_, _, first⟩ ⟨_, _, second⟩
        exact (endsIn_combine first second fun _ => nofun).anyhow
    | transpose => exact endsIn_onOne proper fun m _ => trivial
    | trace =>
        apply endsIn_onOne proper
        rintro m ⟨_, _, shaped⟩
        exact (shaped.endsIn_trace fun _ => nofun).map fun _ _ => trivial
    | inverse =>
        apply endsIn_onOne proper
        rintro m ⟨_, _, shaped⟩
        exact (shaped.endsIn_inverse nofun (fun _ _ _ => nofun) fun _ => nofun).anyhow
    | determinant =>
        apply endsIn_onOne proper
        rintro m ⟨_, _, shaped⟩
        exact (shaped.endsIn_determinant fun _ => nofun).map fun _ _ => trivial
    | unknown name => exact nofun

end Reckoner.MatrixOperation
