/-!
# Computations that end with a value or a failure

A computation in two parts has a value exactly if both parts have one, and fails with the failure
of the first part that fails.
-/

namespace Reckoner.Outcome

variable {ε α β : Type}

@[simp] theorem ok_bind (a : α) (next : α → Except ε β) : (.ok a >>= next) = next a := rfl

@[simp] theorem error_bind (failure : ε) (next : α → Except ε β) :
    (.error failure >>= next) = .error failure := rfl

@[simp] theorem pure_eq_ok (a : α) : (pure a : Except ε α) = .ok a := rfl

theorem bind_eq_ok {first : Except ε α} {next : α → Except ε β} {b : β} :
    (first >>= next) = .ok b ↔ ∃ a, first = .ok a ∧ next a = .ok b := by
  cases first with
  | error failure => simp
  | ok a => simp

theorem map_eq_ok {first : Except ε α} {f : α → β} {b : β} :
    first.map f = .ok b ↔ ∃ a, first = .ok a ∧ f a = b := by
  cases first with
  | error failure => simp [Except.map]
  | ok a => simp [Except.map]

/-- A computation whose value is known has not failed. -/
theorem map_eq_error {first : Except ε α} {f : α → β} {failure : ε} :
    first.map f = .error failure ↔ first = .error failure := by
  cases first with
  | error other => simp [Except.map]
  | ok a => simp [Except.map]

theorem eq_ok_of_toOption {outcome : Except ε α} {a : α} (is : outcome.toOption = some a) :
    outcome = .ok a := by
  cases outcome with
  | error failure => cases is
  | ok b =>
      cases is
      rfl

/-- A traversal whose parts have known values has these values. -/
theorem mapM_eq_ok {f : α → Except ε β} {g : α → β} {items : List α}
    (each : ∀ item ∈ items, f item = .ok (g item)) : items.mapM f = .ok (items.map g) := by
  induction items with
  | nil => rfl
  | cons item items ih =>
      obtain ⟨ofFirst, ofRest⟩ := List.forall_mem_cons.mp each
      rw [List.mapM_cons, ofFirst, ok_bind, ih ofRest]
      rfl

/-- Every item of a traversal with values has one. -/
theorem exists_of_mapM {f : α → Except ε β} {items : List α} {values : List β}
    (traversed : items.mapM f = .ok values) : ∀ item ∈ items, ∃ b, f item = .ok b := by
  induction items generalizing values with
  | nil => exact fun item member => absurd member List.not_mem_nil
  | cons item items ih =>
      rw [List.mapM_cons] at traversed
      obtain ⟨b, first, traversed⟩ := bind_eq_ok.mp traversed
      obtain ⟨bs, further, _⟩ := bind_eq_ok.mp traversed
      exact List.forall_mem_cons.mpr ⟨⟨b, first⟩, ih further⟩

/-! ## Outcomes that hinge on a condition -/

/-- The computation has a value if the condition holds, and fails in one way if it does not. -/
structure Hinges (failure : ε) (outcome : Except ε α) (condition : Prop) : Prop where
  value : condition → ∃ a, outcome = .ok a
  failure : ¬condition → outcome = .error failure

/-- A computation with a value fulfils the condition. -/
theorem Hinges.holds {failure : ε} {outcome : Except ε α} {condition : Prop}
    (hinges : Hinges failure outcome condition) {a : α} (is : outcome = .ok a) : condition := by
  by_cases holds : condition
  · exact holds
  · rw [hinges.failure holds] at is
    cases is

theorem Hinges.bind {failure : ε} {first : Except ε α} {next : α → Except ε β}
    {condition further : Prop} (hinges : Hinges failure first condition)
    (ofNext : ∀ a, first = .ok a → Hinges failure (next a) further) :
    Hinges failure (first >>= next) (condition ∧ further) := by
  by_cases holds : condition
  · obtain ⟨a, rfl⟩ := hinges.value holds
    have after := ofNext a rfl
    exact ⟨fun both => after.value both.2, fun fails => after.failure fun other =>
      fails ⟨holds, other⟩⟩
  · rw [hinges.failure holds]
    exact ⟨fun both => absurd both.1 holds, fun _ => rfl⟩

theorem Hinges.map {failure : ε} {outcome : Except ε α} {condition : Prop}
    (hinges : Hinges failure outcome condition) (f : α → β) :
    Hinges failure (outcome.map f) condition := by
  refine ⟨fun holds => ?_, fun fails => ?_⟩
  · obtain ⟨a, rfl⟩ := hinges.value holds
    exact ⟨f a, rfl⟩
  · rw [hinges.failure fails]
    rfl

theorem Hinges.congr {failure : ε} {outcome : Except ε α} {condition other : Prop}
    (hinges : Hinges failure outcome condition) (same : condition ↔ other) :
    Hinges failure outcome other :=
  ⟨fun holds => hinges.value (same.mpr holds), fun fails => hinges.failure ((not_congr same).mpr fails)⟩

/-- Computations over a list have values if the condition holds of every item. -/
theorem hinges_mapM {failure : ε} {f : α → Except ε β} {condition : α → Prop}
    (each : ∀ a, Hinges failure (f a) (condition a)) (items : List α) :
    Hinges failure (items.mapM f) (∀ item ∈ items, condition item) := by
  induction items with
  | nil => exact ⟨fun _ => ⟨[], rfl⟩, fun fails => absurd nofun fails⟩
  | cons item items ih =>
      rw [List.mapM_cons]
      refine ((each item).bind fun b _ => ?_).congr List.forall_mem_cons.symm
      have others := ih.map fun bs => b :: bs
      cases is : items.mapM f with
      | error other =>
          rw [is] at others
          exact others
      | ok bs =>
          rw [is] at others
          exact others

/-! ## Computations that mirror others -/

section Mirrors

variable {δ : Type} {whole : Prop}

/-- The second computation has the value of the first if there is one, and if the whole outcome
counts, also its failure. -/
structure Mirrors (whole : Prop) (first second : Except ε α) : Prop where
  value : ∀ a, first = .ok a → second = .ok a
  failure : whole → ∀ e, first = .error e → second = .error e

theorem Mirrors.refl (outcome : Except ε α) : Mirrors whole outcome outcome :=
  ⟨fun _ => id, fun _ _ => id⟩

/-- Where the whole outcome counts, it is the same. -/
theorem Mirrors.eq {first second : Except ε α} (mirrors : Mirrors True first second) :
    first = second := by
  cases is : first with
  | ok a => exact (mirrors.value a is).symm
  | error e => exact (mirrors.failure trivial e is).symm

/-- What is made of two computations, where failures stay failures. -/
theorem Mirrors.through {first second : Except ε α} (mirrors : Mirrors whole first second)
    {f : Except ε α → Except δ β} (fails : ∀ e, ∃ other, f (.error e) = .error other) :
    Mirrors whole (f first) (f second) := by
  cases is : first with
  | ok a =>
      rw [mirrors.value a is]
      exact .refl _
  | error e =>
      obtain ⟨other, failed⟩ := fails e
      refine ⟨fun b valued => ?_, fun counts failure same => ?_⟩
      · rw [failed] at valued
        cases valued
      · rw [mirrors.failure counts e is]
        exact same

theorem Mirrors.map {first second : Except ε α} (mirrors : Mirrors whole first second) (f : α → β) :
    Mirrors whole (first.map f) (second.map f) :=
  mirrors.through fun e => ⟨e, rfl⟩

theorem Mirrors.mapError {first second : Except ε α} (mirrors : Mirrors whole first second)
    (f : ε → δ) : Mirrors whole (first.mapError f) (second.mapError f) :=
  mirrors.through fun e => ⟨f e, rfl⟩

theorem Mirrors.bind {first second : Except ε α} {f g : α → Except ε β}
    (mirrors : Mirrors whole first second)
    (further : ∀ a, first = .ok a → Mirrors whole (f a) (g a)) :
    Mirrors whole (first >>= f) (second >>= g) := by
  cases is : first with
  | ok a =>
      rw [mirrors.value a is]
      exact further a is
  | error e =>
      refine ⟨fun b valued => ?_, fun counts failure failed => ?_⟩
      · cases valued
      · rw [mirrors.failure counts e is]
        exact failed

theorem mirrors_foldlM {f g : β → α → Except ε β} {items : List α}
    (each : ∀ item ∈ items, ∀ state, Mirrors whole (f state item) (g state item)) (start : β) :
    Mirrors whole (items.foldlM f start) (items.foldlM g start) := by
  induction items generalizing start with
  | nil => exact .refl _
  | cons item items ih =>
      obtain ⟨ofItem, ofItems⟩ := List.forall_mem_cons.mp each
      rw [List.foldlM_cons, List.foldlM_cons]
      exact (ofItem start).bind fun state _ => ih ofItems state

end Mirrors

/-! ## Computations that end alike -/

section EndsAlike

variable {δ ζ γ : Type} {value : α → β → Prop} {failure : ε → δ → Prop}

/-- Both computations have values that are related, or both fail in ways that are. -/
inductive EndsAlike (value : α → β → Prop) (failure : ε → δ → Prop) :
    Except ε α → Except δ β → Prop
  | ok {a : α} {b : β} (related : value a b) : EndsAlike value failure (.ok a) (.ok b)
  | error {e : ε} {d : δ} (related : failure e d) : EndsAlike value failure (.error e) (.error d)

theorem EndsAlike.of_eq {first second : Except ε α} (same : first = second) :
    EndsAlike (· = ·) (· = ·) first second := by
  subst same
  cases first with
  | error e => exact .error rfl
  | ok a => exact .ok rfl

/-- Computations whose values look the same from outside. -/
theorem EndsAlike.of_map_eq {first second : Except ε α} {f : α → γ}
    (same : second.map f = first.map f) :
    EndsAlike (fun a b => f b = f a) (· = ·) first second := by
  cases first with
  | error e =>
      obtain rfl := map_eq_error.mp same
      exact .error rfl
  | ok a =>
      obtain ⟨b, rfl, seen⟩ := map_eq_ok.mp same
      exact .ok seen

theorem EndsAlike.mono {first : Except ε α} {second : Except δ β}
    (alike : EndsAlike value failure first second) {other : α → β → Prop} {weaker : ε → δ → Prop}
    (values : ∀ a b, value a b → other a b) (failures : ∀ e d, failure e d → weaker e d) :
    EndsAlike other weaker first second := by
  cases alike with
  | ok related => exact .ok (values _ _ related)
  | error related => exact .error (failures _ _ related)

theorem EndsAlike.map {first : Except ε α} {second : Except δ β}
    (alike : EndsAlike value failure first second) {f : α → γ} {g : β → ζ} {result : γ → ζ → Prop}
    (further : ∀ a b, value a b → result (f a) (g b)) :
    EndsAlike result failure (first.map f) (second.map g) := by
  cases alike with
  | ok related => exact .ok (further _ _ related)
  | error related => exact .error related

theorem EndsAlike.bind {first : Except ε α} {second : Except δ β}
    (alike : EndsAlike value failure first second) {f : α → Except ε γ} {g : β → Except δ ζ}
    {result : γ → ζ → Prop} (further : ∀ a b, value a b → EndsAlike result failure (f a) (g b)) :
    EndsAlike result failure (first >>= f) (second >>= g) := by
  cases alike with
  | ok related => exact further _ _ related
  | error related => exact .error related

end EndsAlike

end Reckoner.Outcome
