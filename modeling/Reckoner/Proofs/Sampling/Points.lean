import Reckoner.Proofs.Counting
import Reckoner.Proofs.Described
import Reckoner.Sampling

/-!
# Places and points

A request for two doubles and a number of samples is refused for nothing but their order and a
number below one (`Reckoner.Sampling.series_ofDoubles`). A series has its points wherever its places
can be told (`Reckoner.Sampling.Series.points_of_places`): whatever goes wrong at a place is a
refusal, which leaves out that place and no other.
-/

namespace Reckoner

open Decimal Outcome

/-- Doubles are compared as such. -/
theorem Json.atMost?_double (x y : Float) :
    atMost? (.double x) (.double y) = some (decide (x ≤ y)) := by
  have numbers : atMost? (.double x) (.double y) = atMostNumber? (.double x) (.double y) := by
    rw [atMost?] <;> exact nofun
  rw [numbers, atMostNumber?, exactValue?, exactValue?, special?, special?]
  by_cases finite : x.isFinite = true
  · by_cases finite' : y.isFinite = true
    · simp only [finite, finite', ↓reduceIte]
      rw [decide_eq_decide.mpr (le_iff finite finite')]
    · simp only [finite, finite', Bool.false_eq_true, ↓reduceIte]
      rw [decide_eq_decide.mpr (le_special finite (Bool.eq_false_iff.mpr finite')).1]
  · by_cases finite' : y.isFinite = true
    · simp only [finite, finite', Bool.false_eq_true, ↓reduceIte]
      rw [decide_eq_decide.mpr (le_special finite' (Bool.eq_false_iff.mpr finite)).2]
    · simp only [finite, finite', Bool.false_eq_true, ↓reduceIte]

/-- Computations that end with values end with them in a sequence, too. -/
theorem Report.outcome_sequence {α β : Type} {f : α → Report β} {g : α → β} {items : List α}
    (each : ∀ item ∈ items, (f item).outcome = .ok (g item)) :
    (sequence (items.map f)).outcome = .ok (items.map g) := by
  induction items with
  | nil => rfl
  | cons item items ih =>
      obtain ⟨ofFirst, ofRest⟩ := List.forall_mem_cons.mp each
      rw [List.map_cons, sequence, ofFirst]
      dsimp only
      rw [ih ofRest]
      rfl

/-! ## Places -/

namespace Grid

variable {grid : Grid}

/-- The place with a number, from doubles for the numbers. -/
def place (grid : Grid) (number : ℕ → Float) (i : ℕ) : Float :=
  if grid.samples = 1 then grid.low
  else grid.low + number i * ((grid.high - grid.low) / number (grid.samples - 1))

/-- Places whose numbers have doubles can be told. -/
theorem places_of_numbers {number : ℕ → Float} (some : 1 ≤ grid.samples)
    (numbers : ∀ i < grid.samples, Numeric.ofCount i = .ok (number i)) :
    grid.places = .ok ((List.range grid.samples).map (grid.place number)) := by
  unfold places
  by_cases single : grid.samples = 1
  · rw [if_pos single, single]
    simp only [List.range_one, List.map_cons, List.map_nil, place, single, ↓reduceIte]
  · have parts := numbers (grid.samples - 1) (by omega)
    rw [if_neg single, parts, ok_bind]
    refine mapM_eq_ok fun i member => ?_
    rw [numbers i (List.mem_range.mp member), ok_bind, place, if_neg single]
    rfl

theorem places_of_overflow (past : overflowBound < grid.samples) :
    grid.places = .error .overflow := by
  have large : overflowBound ≤ grid.samples - 1 := Nat.le_sub_one_of_lt past
  have single : grid.samples ≠ 1 := by
    have pos : 0 < overflowBound := lt_of_lt_of_le (pow_pos two_pos 1023) pow_le_overflowBound
    omega
  rw [places, if_neg single, Numeric.ofCount, ofInteger?_eq_none large]
  rfl

/-- Numbers of samples up to the bound are rounded to the nearest doubles. -/
theorem exists_numbers {samples : ℕ} (within : samples ≤ overflowBound) :
    ∃ number : ℕ → Float, ∀ i < samples, Numeric.ofCount i = .ok (number i) ∧
      RoundsTo i (number i) := by
  have each (i : ℕ) (inside : i < samples) :
      ∃ x, Numeric.ofCount i = .ok x ∧ RoundsTo i x :=
    (Numeric.endsRounded_ofCount i).rounded (lt_of_lt_of_le inside within)
  choose! number rounds using each
  exact ⟨number, rounds⟩

end Grid

namespace Sampling

/-! ## Requests -/

section Requests

variable (low high : Float) (samples : ℤ)

theorem tooFew_integer : tooFew (.integer samples) = .ok (decide (samples < 1)) := by
  have order : inOrder (.integer 1) (.integer samples) = .ok (decide ((1 : ℚ) ≤ samples)) := by
    have numbers : Json.atMost? (.integer 1) (.integer samples) =
        Json.atMostNumber? (.integer 1) (.integer samples) := by
      rw [Json.atMost?] <;> exact nofun
    rw [inOrder, numbers]
    rfl
  have cast : (1 : ℚ) ≤ samples ↔ 1 ≤ samples := by norm_cast
  rw [tooFew, order, ok_bind, pure_eq_ok, decide_eq_decide.mpr cast, ← decide_not,
    decide_eq_decide.mpr Int.not_le]

/-- Two doubles and a number make a grid if the number is at least one and the doubles are in
order. -/
theorem grid_double : grid (.double low) (.double high) (.integer samples) =
    if samples < 1 ∨ ¬low ≤ high then refuse .graphRange
    else .ok ⟨low, high, samples.toNat⟩ := by
  rw [grid, tooFew_integer, ok_bind, inOrder, Json.atMost?_double]
  by_cases few : samples < 1
  · simp only [few, decide_true, true_or, ↓reduceIte]
  · by_cases order : low ≤ high
    · simp only [few, order, decide_false, decide_true, not_true_eq_false, or_self,
        Bool.false_eq_true, ↓reduceIte, ok_bind, Bool.not_true]
      rfl
    · simp only [few, order, decide_false, not_false_eq_true, or_true, Bool.false_eq_true,
        ↓reduceIte, ok_bind, Bool.not_false]

/-- The request for the samples of an interval. -/
def Request.ofDoubles : Request :=
  ⟨some (.double low), some (.double high), some (.integer samples)⟩

/-- A series is refused for too few samples and for bounds that are not in order. -/
theorem series_ofDoubles (function : String) (bindings : Bindings) {settings : Settings}
    {first last : Json} (pair : settings.value "graph_domain" = .array [first, last]) :
    series function bindings settings (.ofDoubles low high samples) =
      if samples < 1 ∨ ¬low ≤ high then refuse .graphRange
      else .ok ⟨function, ⟨low, high, samples.toNat⟩, bindings, settings⟩ := by
  have found : (Request.ofDoubles low high samples).grid settings =
      grid (.double low) (.double high) (.integer samples) := by
    rw [Request.grid, pair]
    rfl
  rw [series, found, grid_double]
  by_cases refused : samples < 1 ∨ ¬low ≤ high
  · rw [if_pos refused, if_pos refused]
    rfl
  · rw [if_neg refused, if_neg refused]
    rfl

end Requests

/-! ## Points -/

namespace Series

variable {series : Series} {x y : Float}

/-- The value of the function at a place, if it is a finite number. -/
def value? (series : Series) (x : Float) : Option Float :=
  match (Evaluation.evaluate series.function (series.bindings.put "x" (.double x))
      series.settings).outcome with
  | .ok (value, _) => finiteNumber? value
  | .error _ => none

theorem value?_eq_some : series.value? x = some y ↔
    ∃ steps, (Evaluation.evaluate series.function (series.bindings.put "x" (.double x))
      series.settings).outcome = .ok (.number y, steps) ∧ y.isFinite = true := by
  unfold value?
  cases (Evaluation.evaluate series.function (series.bindings.put "x" (.double x))
      series.settings).outcome with
  | error failure => simp
  | ok result =>
      obtain ⟨value, steps⟩ := result
      cases value with
      | number z =>
          simp only [finiteNumber?, Option.ite_none_right_eq_some, Option.some.injEq,
            Except.ok.injEq, Prod.mk.injEq, Value.number.injEq]
          constructor
          · rintro ⟨finite, rfl⟩
            exact ⟨steps, ⟨rfl, rfl⟩, finite⟩
          · rintro ⟨_, ⟨rfl, rfl⟩, finite⟩
            exact ⟨finite, rfl⟩
      | matrix rows | complex z | answer text => simp [finiteNumber?]

/-- The point of the function at a place, if there is one. -/
def point? (series : Series) (x : Float) : Option (Float × Float) :=
  (series.value? x).map fun y => (x, y)

/-- A sample never fails. -/
theorem outcome_sample (series : Series) (x : Float) :
    (series.sample x).outcome = .ok (series.point? x) := by
  unfold sample point? value?
  cases ended : (Evaluation.evaluate series.function (series.bindings.put "x" (.double x))
      series.settings).outcome with
  | ok result => simp only [ended]
  | error failure =>
      obtain ⟨cause, input, rfl⟩ := Evaluation.exists_refused ended
      simp only [ended, Option.map_none]

/-- **The points are those at the places.** -/
theorem points_of_places {places : List Float} (told : series.grid.places = .ok places) :
    series.points.outcome = .ok (places.filterMap series.point?) := by
  have sampled := @Report.outcome_sequence _ _ series.sample series.point? places
    fun x _ => series.outcome_sample x
  rw [points, samples, told]
  simp only [ok_bind, pure_eq_ok]
  change (Report.sequence (places.map series.sample) >>= _).outcome = _
  rw [Report.outcome_bind, sampled]
  exact congrArg Except.ok List.filterMap_map

theorem points_of_untold {failure : Failure} (untold : series.grid.places = .error failure) :
    series.points.outcome = .error failure := by
  rw [points, samples, untold]
  rfl

end Series

end Sampling

end Reckoner
