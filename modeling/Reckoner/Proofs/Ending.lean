import Reckoner.Proofs.Outcome

/-!
# What a computation ends in

A computation ends in values and failures of given kinds if its parts do: one rule for a sequence,
one for a traversal of a list and one for a loop, which carries an invariant.
-/

namespace Reckoner.Outcome

variable {ε α β : Type}

/-- The computation ends in a value of one kind or in a failure of another. -/
def EndsIn (value : α → Prop) (failure : ε → Prop) : Except ε α → Prop
  | .ok a => value a
  | .error e => failure e

variable {value : α → Prop} {result : β → Prop} {failure : ε → Prop}

theorem EndsIn.mono {other : α → Prop} {weaker : ε → Prop} {outcome : Except ε α}
    (ends : EndsIn value failure outcome) (values : ∀ a, value a → other a)
    (failures : ∀ e, failure e → weaker e) : EndsIn other weaker outcome := by
  cases outcome with
  | error e => exact failures e ends
  | ok a => exact values a ends

/-- What the value is like does not matter. -/
theorem EndsIn.anyhow {outcome : Except ε α} (ends : EndsIn value failure outcome) :
    EndsIn (fun _ => True) failure outcome :=
  ends.mono (fun _ _ => trivial) fun _ => id

/-- The value is that of the computation. -/
theorem EndsIn.valued {outcome : Except ε α} (ends : EndsIn value failure outcome) :
    EndsIn (fun a => value a ∧ outcome = .ok a) failure outcome := by
  cases outcome with
  | error e => exact ends
  | ok a => exact ⟨ends, rfl⟩

/-- A computation without failures has a value. -/
theorem EndsIn.exists_ok {outcome : Except ε α} (ends : EndsIn value (fun _ => False) outcome) :
    ∃ a, outcome = .ok a ∧ value a := by
  cases outcome with
  | error e => exact ends.elim
  | ok a => exact ⟨a, rfl, ends⟩

theorem EndsIn.bind {first : Except ε α} {next : α → Except ε β}
    (ends : EndsIn value failure first) (further : ∀ a, value a → EndsIn result failure (next a)) :
    EndsIn result failure (first >>= next) := by
  cases first with
  | error e => exact ends
  | ok a => exact further a ends

theorem EndsIn.map {first : Except ε α} {f : α → β} (ends : EndsIn value failure first)
    (values : ∀ a, value a → result (f a)) : EndsIn result failure (first.map f) := by
  cases first with
  | error e => exact ends
  | ok a => exact values a ends

/-- A traversal gives as many results as there are items, each of the kind that its item gives. -/
theorem endsIn_mapM {f : α → Except ε β} {items : List α}
    (each : ∀ x ∈ items, EndsIn result failure (f x)) :
    EndsIn (fun results => results.length = items.length ∧ ∀ y ∈ results, result y) failure
      (items.mapM f) := by
  induction items with
  | nil => exact ⟨rfl, nofun⟩
  | cons x items ih =>
      rw [List.mapM_cons]
      apply (each x List.mem_cons_self).bind
      intro y ofFirst
      apply (ih fun z member => each z (List.mem_cons_of_mem _ member)).bind
      rintro results ⟨length, ofRest⟩
      refine ⟨by rw [List.length_cons, List.length_cons, length], ?_⟩
      intro z member
      rcases List.mem_cons.mp member with rfl | member
      · exact ofFirst
      · exact ofRest z member

/-- A loop whose step keeps an invariant ends with the invariant. -/
theorem endsIn_foldlM {step : β → α → Except ε β} {items : List α} {start : β}
    (starts : result start)
    (keeps : ∀ state, result state → ∀ x ∈ items, EndsIn result failure (step state x)) :
    EndsIn result failure (items.foldlM step start) := by
  induction items generalizing start with
  | nil => exact starts
  | cons x items ih =>
      rw [List.foldlM_cons]
      apply (keeps start starts x List.mem_cons_self).bind
      intro state held
      apply ih held
      intro state held y member
      exact keeps state held y (List.mem_cons_of_mem _ member)

/-- A loop over the first natural numbers, whose steps carry an invariant from each number to the
next, ends with the invariant of their count. -/
theorem endsIn_foldlM_range {step : β → Nat → Except ε β} {invariant : Nat → β → Prop} {start : β}
    {count : Nat} (starts : invariant 0 start)
    (keeps : ∀ i < count, ∀ state, invariant i state →
      EndsIn (invariant (i + 1)) failure (step state i)) :
    EndsIn (invariant count) failure ((List.range count).foldlM step start) := by
  induction count with
  | zero => exact starts
  | succ count ih =>
      rw [List.range_succ, List.foldlM_append]
      apply (ih fun i below => keeps i (Nat.lt_succ_of_lt below)).bind
      intro state held
      rw [List.foldlM_cons]
      apply (keeps count (Nat.lt_succ_self count) state held).bind
      intro last held
      exact held

end Reckoner.Outcome
