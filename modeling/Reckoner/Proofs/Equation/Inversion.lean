import Reckoner.Proofs.Equation.Recognition

/-!
# Terms that have been read

What the solver takes for a term of a side is one: a term without the unknown that has a value is a
constant term (`Reckoner.Equation.exists_chain_of_evaluate`), and a term with a coefficient is a term
of the unknown (`Reckoner.Equation.exists_unknownTerm_of_coefficient`), if no product sign stands in
front of the unknown without a number.
-/

namespace Reckoner.Equation

open Text Outcome

open Decimal (IsDecimal readFloat?)

/-! ## Decimals at the start of a text -/

section Starts

variable {text digits rest : List Char}

theorem all_take_of_all {p : Char → Bool} (each : text.all p = true) (n : Nat) :
    (text.take n).all p = true :=
  List.all_eq_true.mpr fun c member => List.all_eq_true.mp each c (List.mem_of_mem_take member)

/-- A start of a text that can be a decimal is one, unless it is empty or a point alone. -/
theorem isDecimal_of_mem_decimalStarts (member : (digits, rest) ∈ decimalStarts text) :
    text = digits ++ rest ∧
      (digits = [] ∨ digits = ['.'] ∨ IsDecimal isDecimalDigit digits) := by
  have areWhole : (text.takeWhile isDecimalDigit).all isDecimalDigit = true := List.all_takeWhile
  have split := List.takeWhile_append_dropWhile (p := isDecimalDigit) (l := text)
  have following := @List.drop_left _ (text.takeWhile isDecimalDigit)
    (text.dropWhile isDecimalDigit)
  rw [split] at following
  unfold decimalStarts at member
  obtain ⟨n, place, cut⟩ := List.mem_map.mp member
  rw [List.splitAt_eq, Prod.mk.injEq] at cut
  obtain ⟨rfl, rfl⟩ := cut
  refine ⟨(List.take_append_drop n text).symm, ?_⟩
  simp only [following] at place
  generalize text.takeWhile isDecimalDigit = whole at areWhole split place
  generalize text.dropWhile isDecimalDigit = more at split place
  subst split
  rcases List.mem_append.mp place with place | place
  · split at place
    · rename_i behind _
      obtain ⟨k, few, rfl⟩ := List.mem_map.mp place
      rw [List.mem_reverse, List.mem_range] at few
      have areFraction : (behind.take k).all isDecimalDigit = true := by
        have inside := all_take_of_all (@List.all_takeWhile _ isDecimalDigit behind) k
        have within := List.takeWhile_append_dropWhile (p := isDecimalDigit) (l := behind)
        rw [← within, List.take_append_of_le_length (Nat.le_of_lt_succ few)]
        exact inside
      rw [Nat.add_assoc, List.take_length_add_append, Nat.add_comm, List.take_succ_cons]
      by_cases none : whole ++ behind.take k = []
      · obtain ⟨rfl, empty⟩ := List.append_eq_nil_iff.mp none
        rw [empty]
        exact .inr (.inl rfl)
      · exact .inr (.inr (.point none areWhole areFraction))
    · exact absurd place List.not_mem_nil
  · rw [List.mem_reverse, List.mem_range] at place
    rw [List.take_append_of_le_length (Nat.le_of_lt_succ place)]
    by_cases none : whole.take n = []
    · exact .inl none
    · exact .inr (.inr (.whole none (all_take_of_all areWhole n)))

end Starts

/-! ## The term of the unknown -/

section Multiple

variable {v : Char} {text digits rest : List Char} {negative : Bool} {multiple : Multiple}

/-- What follows the unknown is nothing, or the sign of the quotient and a decimal. -/
theorem exists_literal_of_divisorPart? {divisor : Option (List Char)}
    (ascii : HasPlainDigits text) (part : divisorPart? text = some divisor) :
    ∃ literal : Option Literal, divisor = literal.map Literal.text ∧
      (∀ other ∈ literal, ∃ last ∈ other.text.getLast?, last.isDigit = true) ∧
      text = spell [v] (partLexemes (literal.toList.map fun other => (.per, ⟨[], other⟩))) := by
  unfold divisorPart? at part
  split at part
  · cases part
    exact ⟨none, rfl, fun other is => absurd is (Option.not_mem_none other), rfl⟩
  · rename_i behind
    obtain ⟨other, is, rfl⟩ := Option.map_eq_some_iff.mp part
    have isDecimal := Decimal.isDecimal_of_divisor? is
    unfold divisor? at is
    simp only [Option.ite_none_right_eq_some, Option.some.injEq, Bool.and_eq_true] at is
    obtain ⟨⟨ends, _⟩, rfl⟩ := is
    have ofBehind : HasPlainDigits behind :=
      fun c member => ascii c (List.mem_cons_of_mem _ member)
    refine ⟨some ⟨behind, isDecimal_of_hasPlainDigits ofBehind isDecimal⟩, rfl, ?_, ?_⟩
    · intro literal same
      cases same
      obtain ⟨last, isLast, digit⟩ := (Option.any_eq_true _ _).mp ends
      exact ⟨last, isLast, ofBehind last (List.mem_of_getLast? isLast) digit⟩
    · change '/' :: behind = '/' :: (behind ++ [])
      rw [List.append_nil]
  · cases part

/-- The digits are followed by the unknown, with or without the sign of the product. -/
theorem exists_of_multipleAfter? (is : multipleAfter? negative [v] digits rest = some multiple) :
    ∃ behind divisor, multiple = ⟨negative, digits, divisor⟩ ∧
      divisorPart? behind = some divisor ∧ (rest = '*' :: v :: behind ∨ rest = v :: behind) := by
  obtain ⟨divisor, found, rfl⟩ := Option.map_eq_some_iff.mp is
  rcases Option.or_eq_some_iff.mp found with found | ⟨_, found⟩
  · split at found
    · obtain ⟨behind, after, part⟩ := Option.bind_eq_some_iff.mp found
      rw [after?_eq_some.mp after]
      exact ⟨behind, divisor, rfl, part, .inl rfl⟩
    · cases found
  · obtain ⟨behind, after, part⟩ := Option.bind_eq_some_iff.mp found
    exact ⟨behind, divisor, rfl, part, .inr (after?_eq_some.mp after)⟩

/-- A multiple without a sign is a term of the unknown. -/
theorem exists_unknownTerm_of_unsignedMultiple? (ascii : HasPlainDigits text)
    (multiplied : ∀ behind, text ≠ '*' :: v :: behind)
    (found : unsignedMultiple? negative [v] text = some multiple) {size : Float}
    (sized : multiple.size = .ok size) :
    ∃ term : UnknownTerm, term.sign = none ∧ text = spell [v] term.lexemes ∧
      multiple = ⟨negative, term.digits, term.divisor.map Literal.text⟩ := by
  obtain ⟨⟨digits, rest⟩, member, after⟩ := List.exists_of_findSome?_eq_some found
  obtain ⟨rfl, starts⟩ := isDecimal_of_mem_decimalStarts member
  obtain ⟨behind, divisor, rfl, part, follows⟩ := exists_of_multipleAfter? after
  have ofRest : HasPlainDigits rest := fun c inside => ascii c (List.mem_append_right _ inside)
  have ofBehind : HasPlainDigits behind := by
    rcases follows with rfl | rfl
    · exact fun c inside => ofRest c (List.mem_cons_of_mem _ (List.mem_cons_of_mem _ inside))
    · exact fun c inside => ofRest c (List.mem_cons_of_mem _ inside)
  obtain ⟨literal, rfl, closed, rfl⟩ := @exists_literal_of_divisorPart? v _ _ ofBehind part
  rcases starts with rfl | rfl | isDecimal
  · rcases follows with rfl | rfl
    · exact absurd rfl (multiplied _)
    · exact ⟨⟨none, none, literal, closed⟩, rfl, rfl, rfl⟩
  · cases sized
  · have ofDigits : HasPlainDigits digits :=
      fun c inside => ascii c (List.mem_append_left _ inside)
    have decimal := isDecimal_of_hasPlainDigits ofDigits isDecimal
    rcases follows with rfl | rfl
    · refine ⟨⟨none, some ⟨⟨digits, decimal⟩, true⟩, literal, closed⟩, rfl, ?_, rfl⟩
      rfl
    · refine ⟨⟨none, some ⟨⟨digits, decimal⟩, false⟩, literal, closed⟩, rfl, ?_, rfl⟩
      rfl

/-- The product signs in front of the unknown stand behind numbers. -/
def Multiplied (v : Char) (text : List Char) : Prop :=
  ∀ front behind, text = front ++ '*' :: v :: behind →
    ∃ last ∈ front.getLast?, isNumberPart last = true

/-- A multiple is a term of the unknown. -/
theorem exists_unknownTerm_of_multiple? (ascii : HasPlainDigits text)
    (multiplied : Multiplied v text) (found : multiple? [v] text = some multiple) {size : Float}
    (sized : multiple.size = .ok size) :
    ∃ term : UnknownTerm, text = spell [v] term.lexemes ∧
      multiple = ⟨term.isNegative, term.digits, term.divisor.map Literal.text⟩ := by
  have behindSign (sign : Sign) {rest : List Char} {negative : Bool}
      (spelled : text = sign.char :: rest)
      (taken : unsignedMultiple? negative [v] rest = some multiple) :
      ∃ term : UnknownTerm, term.sign = some sign ∧ text = spell [v] term.lexemes ∧
        multiple = ⟨negative, term.digits, term.divisor.map Literal.text⟩ := by
    subst spelled
    have unmultiplied : ∀ behind, rest ≠ '*' :: v :: behind := by
      rintro behind rfl
      obtain ⟨last, is, part⟩ := multiplied [sign.char] behind rfl
      cases is
      cases sign <;> cases part
    obtain ⟨⟨sign, coefficient, divisor, closed⟩, rfl, rfl, rfl⟩ :=
      exists_unknownTerm_of_unsignedMultiple?
        (fun c inside => ascii c (List.mem_cons_of_mem _ inside)) unmultiplied taken sized
    exact ⟨⟨some _, coefficient, divisor, closed⟩, rfl, rfl, rfl⟩
  rcases Option.or_eq_some_iff.mp found with found | ⟨_, found⟩
  · split at found
    · obtain ⟨⟨sign, coefficient, divisor, closed⟩, rfl, spelled, rfl⟩ :=
        behindSign .minus rfl found
      exact ⟨_, spelled, rfl⟩
    · obtain ⟨⟨sign, coefficient, divisor, closed⟩, rfl, spelled, rfl⟩ :=
        behindSign .plus rfl found
      exact ⟨_, spelled, rfl⟩
    · cases found
  · have unmultiplied : ∀ behind, text ≠ '*' :: v :: behind := by
      rintro behind rfl
      obtain ⟨last, is, _⟩ := multiplied [] behind rfl
      cases is
    obtain ⟨⟨sign, coefficient, divisor, closed⟩, rfl, spelled, rfl⟩ :=
      exists_unknownTerm_of_unsignedMultiple? ascii unmultiplied found sized
    exact ⟨_, spelled, rfl⟩

/-- **A term with a coefficient is a term of the unknown**, and the coefficient is its value. -/
theorem exists_unknownTerm_of_coefficient (ascii : HasPlainDigits text)
    (multiplied : Multiplied v text) {a : Float} (read : coefficient text [v] = .ok a) :
    ∃ term : UnknownTerm, text = spell [v] term.lexemes ∧
      (Term.multiple term).Divisible ∧ a = term.value := by
  unfold coefficient at read
  split at read
  · rename_i multiple found
    have valued := read
    unfold Multiple.coefficient at read
    obtain ⟨size, sized, _⟩ := bind_eq_ok.mp read
    obtain ⟨term, spelled, rfl⟩ := exists_unknownTerm_of_multiple? ascii multiplied found sized
    rw [coefficient_parts] at valued
    split at valued
    · cases valued
    · rename_i nonzero
      cases valued
      exact ⟨term, spelled, (divisible_multiple term).mpr (Bool.eq_false_iff.mpr nonzero), rfl⟩
  · cases read

end Multiple

/-! ## Constant terms -/

/-- **A term with a value is a constant term.** -/
theorem exists_chain_of_evaluate {side text : List Char} (member : text ∈ terms side)
    (plain : ∀ c ∈ text, isPlain c = true) {settings : Settings}
    (strict : settings.lenient = false) {value : Float}
    (evaluated : (Scalar.evaluate text [] settings).outcome.map Prod.fst = .ok value) :
    ∃ chain : Chain, chain.text = text := by
  have unbroken := unbroken_of_not_blank fun c inside => (mem_of_mem_terms member c inside).2
  obtain ⟨chains, whole, is, spread⟩ := exists_chains_of_evaluate plain unbroken strict evaluated ['x']
  have single := terms_of_spread rfl spread
  rw [terms_of_mem_terms member, is] at single
  cases chains with
  | nil => cases single
  | cons chain chains =>
      obtain ⟨spelled, _⟩ := List.cons.inj single
      refine ⟨chain, ?_⟩
      rw [spelled]
      exact spell_congr (unknown_not_mem_chain chain) [] ['x']

end Reckoner.Equation
