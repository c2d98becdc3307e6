import Reckoner.Proofs.Sampling.Points

/-!
# Passes over a series

All passes over a series answer alike (`Reckoner.Sampling.answers_run`), in whatever turns they are
taken, however far each of them is, and whatever becomes of the bindings that the series was made
from. The samples of a function are its finite values at evenly spaced places, as long as the number
of parts has a double (`Reckoner.Sampling.samples_evaluated`).
-/

namespace Reckoner.Sampling

open Decimal Outcome

/-! ## One pass -/

/-- The answers of a pass, one for each time it is asked, from how it ends as a whole: the points,
and then that there are no more; or the failure, and then that there are no points. -/
def answerAt : Except Failure (List (Float × Float)) → ℕ → Except Failure (Option (Float × Float))
  | .ok points, i => .ok points[i]?
  | .error failure, 0 => .error failure
  | .error _, _ + 1 => .ok none

namespace Pass

variable {series : Series}

/-- How the rest of a pass ends as a whole. -/
def rest (series : Series) : Pass → Except Failure (List (Float × Float))
  | fresh => series.points.outcome
  | ahead places => .ok (places.filterMap series.point?)

/-- A search answers with the first point at the places, and leaves the others. -/
theorem search_eq (series : Series) (places : List Float) :
    (search series places).1.outcome = .ok (places.filterMap series.point?).head? ∧
      (search series places).2.rest series = .ok (places.filterMap series.point?).tail := by
  induction places with
  | nil => exact ⟨rfl, rfl⟩
  | cons x places ih =>
      have sampled := series.outcome_sample x
      cases found : series.point? x with
      | none =>
          rw [found] at sampled
          simp only [search, sampled, List.filterMap_cons, found]
          exact ih
      | some point =>
          rw [found] at sampled
          simp only [search, sampled, List.filterMap_cons, found]
          exact ⟨rfl, rfl⟩

/-- **Going on gives the next answer, and leaves the answers after it.** -/
theorem next_eq (series : Series) (pass : Pass) :
    (pass.next series).1.outcome = answerAt (pass.rest series) 0 ∧
      ∀ i, answerAt ((pass.next series).2.rest series) i = answerAt (pass.rest series) (i + 1) := by
  have searched (places : List Float) :
      (search series places).1.outcome = answerAt (.ok (places.filterMap series.point?)) 0 ∧
        ∀ i, answerAt ((search series places).2.rest series) i =
          answerAt (.ok (places.filterMap series.point?)) (i + 1) := by
    obtain ⟨answer, left⟩ := search_eq series places
    refine ⟨?_, fun i => ?_⟩
    · rw [answer, answerAt, List.head?_eq_getElem?]
    · rw [left, answerAt, answerAt, List.getElem?_tail]
  cases pass with
  | ahead places => exact searched places
  | fresh =>
      cases told : series.grid.places with
      | ok places =>
          have whole : fresh.rest series = .ok (places.filterMap series.point?) :=
            series.points_of_places told
          have started : fresh.next series = search series places := by rw [next, told]
          rw [whole, started]
          exact searched places
      | error failure =>
          have whole : fresh.rest series = .error failure := series.points_of_untold told
          have started : fresh.next series = (Report.ofExcept (.error failure), ahead []) := by
            rw [next, told]
          rw [whole, started]
          exact ⟨rfl, fun i => rfl⟩

end Pass

/-! ## Passes in turn -/

/-- A series in the hands of a caller, with the bindings that it was made from, which the caller may
change, and any number of passes. -/
structure Held where
  bindings : Bindings
  series : Series
  passes : ℕ → Pass

/-- What a caller can do. -/
inductive Action where
  | rebind (bindings : Bindings)
  /-- Asks a pass for its next point. -/
  | ask (pass : ℕ)

/-- The action asks a pass. -/
def Action.asks (pass : ℕ) : Action → Bool
  | rebind _ => false
  | ask other => other == pass

/-- An answer and the pass that gave it. -/
abbrev Answer := ℕ × Except Failure (Option (Float × Float))

namespace Held

/-- The answer to an action, and what the caller holds afterwards. -/
def act (held : Held) : Action → Option Answer × Held
  | .rebind bindings => (none, { held with bindings })
  | .ask pass =>
      let (report, further) := (held.passes pass).next held.series
      (some (pass, report.outcome),
        { held with passes := Function.update held.passes pass further })

/-- The answers to actions, one after the other. -/
def run : Held → List Action → List Answer
  | _, [] => []
  | held, action :: actions => (held.act action).1.toList ++ (held.act action).2.run actions

end Held

/-- The answers that one pass gave. -/
def answersOf (pass : ℕ) (answers : List Answer) : List (Except Failure (Option (Float × Float))) :=
  answers.filterMap fun (other, answer) => if other = pass then some answer else none

section Turns

variable {held : Held} {pass : ℕ} {action : Action}

/-- What is not asked of a pass leaves it as it is and is not answered by it. -/
theorem act_of_other (other : action.asks pass = false) :
    answersOf pass (held.act action).1.toList = [] ∧
      (held.act action).2.series = held.series ∧
        (held.act action).2.passes pass = held.passes pass := by
  cases action with
  | rebind bindings => exact ⟨rfl, rfl, rfl⟩
  | ask asked =>
      have differs : asked ≠ pass := ne_of_beq_false other
      refine ⟨?_, rfl, Function.update_of_ne differs.symm _ _⟩
      simp only [Held.act, Option.toList_some, answersOf, List.filterMap_cons, differs, ↓reduceIte,
        List.filterMap_nil]

/-- A pass that is asked answers and goes on. -/
theorem act_of_asks (asked : action.asks pass = true) :
    answersOf pass (held.act action).1.toList =
        [((held.passes pass).next held.series).1.outcome] ∧
      (held.act action).2.series = held.series ∧
        (held.act action).2.passes pass = ((held.passes pass).next held.series).2 := by
  cases action with
  | rebind bindings => cases asked
  | ask other =>
      obtain rfl : other = pass := eq_of_beq asked
      refine ⟨?_, rfl, Function.update_self _ _ _⟩
      simp only [Held.act, Option.toList_some, answersOf, List.filterMap_cons, ↓reduceIte,
        List.filterMap_nil]

/-- **All passes answer alike.** Each time a pass is asked it gives the next of its answers,
whatever is done between. -/
theorem answers_run (held : Held) (pass : ℕ) (actions : List Action) :
    answersOf pass (held.run actions) =
      (List.range (actions.countP (Action.asks pass))).map
        (answerAt ((held.passes pass).rest held.series)) := by
  induction actions generalizing held with
  | nil => rfl
  | cons action actions ih =>
      have joined : answersOf pass (held.run (action :: actions)) =
          answersOf pass (held.act action).1.toList ++
            answersOf pass ((held.act action).2.run actions) := List.filterMap_append
      rw [joined, ih]
      by_cases asked : action.asks pass = true
      · obtain ⟨answered, same, further⟩ := @act_of_asks held pass action asked
        obtain ⟨answer, left⟩ := (held.passes pass).next_eq held.series
        rw [answered, same, further, answer, List.countP_cons_of_pos asked,
          List.range_succ_eq_map, List.map_cons, List.map_map]
        exact congrArg _ (List.map_congr_left fun i _ => left i)
      · have other := Bool.eq_false_iff.mpr asked
        obtain ⟨silent, same, kept⟩ := @act_of_other held pass action other
        rw [silent, same, kept, List.countP_cons_of_neg asked, List.nil_append]

end Turns

/-! ## All samples -/

section Samples

variable {settings : Settings} {first last : Json}

/-- More parts than there are doubles have no points. -/
theorem points_of_overflow (function : String) (bindings : Bindings) {low high : Float}
    {samples : ℤ} (pair : settings.value "graph_domain" = .array [first, last])
    (order : low ≤ high) (past : (overflowBound : ℤ) < samples) :
    (points function bindings settings (.ofDoubles low high samples)).outcome =
      .error .overflow := by
  have accepted : ¬(samples < 1 ∨ ¬low ≤ high) :=
    not_or.mpr ⟨by omega, not_not.mpr order⟩
  have untold := @Grid.places_of_overflow ⟨low, high, samples.toNat⟩ (by dsimp only; omega)
  rw [points, series_ofDoubles low high samples function bindings pair, if_neg accepted]
  exact Series.points_of_untold untold

/-- **Samples are evaluations, filtered.** A function is sampled over an interval of doubles unless
there are too few samples or the bounds are not in order. Up to the bound on numbers of samples the
points are the pairs of a place and of the finite number that the function evaluates to with its
variable bound to the place, in the order of the places; from there on there are no points but an
overflow. However passes are taken in turn and whatever becomes of the bindings of the caller, each
pass gives these points. -/
theorem samples_evaluated (function : String) (bindings : Bindings) (low high : Float) (samples : ℤ)
    (pair : settings.value "graph_domain" = .array [first, last]) :
    (series function bindings settings (.ofDoubles low high samples) = refuse .graphRange ↔
      samples < 1 ∨ ¬low ≤ high) ∧
    (1 ≤ samples → low ≤ high → ∃ made,
      series function bindings settings (.ofDoubles low high samples) = .ok made ∧
      (samples ≤ overflowBound → ∃ (number : ℕ → Float) (value? : Float → Option Float),
        (∀ i < samples.toNat, RoundsTo i (number i)) ∧
        (∀ x y, value? x = some y ↔ ∃ steps,
          (Evaluation.evaluate function (bindings.put "x" (.double x)) settings).outcome =
            .ok (.number y, steps) ∧ y.isFinite = true) ∧
        made.points.outcome = .ok (((List.range samples.toNat).map fun i =>
          if samples = 1 then low
          else low + number i * ((high - low) / number (samples.toNat - 1))).filterMap fun x =>
            (value? x).map fun y => (x, y))) ∧
      (overflowBound < samples → made.points.outcome = .error .overflow) ∧
      ∀ pass actions, answersOf pass (Held.run ⟨bindings, made, fun _ => .fresh⟩ actions) =
        (List.range (actions.countP (Action.asks pass))).map (answerAt made.points.outcome)) := by
  have series := series_ofDoubles low high samples function bindings pair
  rw [series]
  refine ⟨?_, fun some order => ?_⟩
  · by_cases refused : samples < 1 ∨ ¬low ≤ high
    · simp only [refused, ↓reduceIte]
    · simp only [refused, ↓reduceIte, iff_false]
      exact nofun
  · have accepted : ¬(samples < 1 ∨ ¬low ≤ high) :=
      not_or.mpr ⟨by omega, not_not.mpr order⟩
    refine ⟨_, if_neg accepted, fun within => ?_, fun past => ?_, fun pass actions => ?_⟩
    · obtain ⟨number, numbers⟩ := @Grid.exists_numbers samples.toNat (by omega)
      have told := @Grid.places_of_numbers ⟨low, high, samples.toNat⟩ number
        (by dsimp only; omega) fun i inside => (numbers i inside).1
      have single : samples = 1 ↔ samples.toNat = 1 := by omega
      refine ⟨number, Series.value? ⟨function, ⟨low, high, samples.toNat⟩, bindings, settings⟩,
        fun i inside => (numbers i inside).2, fun x y => Series.value?_eq_some, ?_⟩
      simp only [single]
      exact Series.points_of_places told
    · exact Series.points_of_untold (Grid.places_of_overflow (by dsimp only; omega))
    · exact answers_run _ pass actions

/-- A function with a pole is sampled over an interval around it, but not backwards. -/
theorem samples_evaluated_around_pole :
    Settings.defaults.value "graph_domain" = .array [.integer (-10), .integer 10] ∧
      series "1/x" [] Settings.defaults (.ofDoubles 1 (-1) 3) = refuse .graphRange ∧
      ∃ made, series "1/x" [] Settings.defaults (.ofDoubles (-1) 1 3) = .ok made ∧
        ∃ points, made.points.outcome = .ok points := by
  have pair : Settings.defaults.value "graph_domain" = .array [.integer (-10), .integer 10] := rfl
  have backwards := (samples_evaluated "1/x" [] 1 (-1) 3 pair).1.mpr (.inr (by decide +kernel))
  obtain ⟨made, is, within, -⟩ :=
    (samples_evaluated "1/x" [] (-1) 1 3 pair).2 (by decide) (by decide +kernel)
  have few : (3 : ℤ) ≤ overflowBound := by
    have two : 2 ≤ 1023 := by decide
    have large : 2 ^ 2 ≤ overflowBound :=
      le_trans (pow_le_pow_right₀ one_le_two two) pow_le_overflowBound
    omega
  obtain ⟨number, value?, -, -, points⟩ := within few
  exact ⟨pair, backwards, made, is, _, points⟩

/-- With one sample more than the doubles reach, the iteration of a series fails. -/
theorem points_past_doubles :
    (points "1/0" [] Settings.defaults (.ofDoubles 0 1 (2 ^ 1024 + 1))).outcome =
      .error .overflow := by
  have past : (overflowBound : ℤ) < 2 ^ 1024 + 1 := by
    have le : (overflowBound : ℤ) ≤ (2 ^ 1024 : ℕ) := Int.ofNat_le.mpr overflowBound_le_pow
    rw [Nat.cast_pow, Nat.cast_ofNat] at le
    exact Int.lt_add_one_of_le le
  exact points_of_overflow "1/0" [] rfl (by decide +kernel) past

end Samples

end Reckoner.Sampling
