import Reckoner.Proofs.ComplexNumber.Written

/-!
# Cutting numbers out of a text

The numbers of a text and the text without them share its characters
(`Reckoner.ComplexNumber.literals_cut`): the numbers stand one behind the other, each is a
written number with its sign, and of every other character the rest keeps one.
-/

namespace Reckoner.ComplexNumber

open Text Decimal

/-! ## What is taken -/

section Taken

variable {text rest : List Char}

/-- Only a plain decimal is taken. -/
theorem isPlain_of_takeDecimal? {digits : List Char}
    (taken : takeDecimal? text = some (digits, rest)) : IsPlain digits ∧ text = digits ++ rest := by
  have parts := List.takeWhile_append_dropWhile (p := isDecimalDigit) (l := text)
  unfold takeDecimal? at taken
  simp only [List.isEmpty_iff] at taken
  split at taken
  · cases taken
  · rename_i some
    have whole := all_takeWhile text
    split at taken
    · rename_i fraction behind
      have more := List.takeWhile_append_dropWhile (p := isDecimalDigit) (l := fraction)
      split at taken
      · rename_i digit
        cases taken
        refine ⟨.point some (fun none => ?_) whole (all_takeWhile fraction), ?_⟩
        · cases fraction with
          | nil => cases digit
          | cons c fraction =>
              have digit : isDecimalDigit c = true := digit
              rw [List.takeWhile_cons_of_pos digit] at none
              cases none
        · rw [List.append_assoc, List.cons_append, more, ← behind, parts]
      · cases taken
        exact ⟨.whole some whole, parts.symm⟩
    · cases taken
      exact ⟨.whole some whole, parts.symm⟩

/-- A text is blanks and what stands behind them. -/
theorem exists_blanks (text : List Char) :
    ∃ blanks, blanks.all isBlank = true ∧ text = blanks ++ stripStart text :=
  ⟨text.takeWhile isBlank, List.all_takeWhile, List.takeWhile_append_dropWhile.symm⟩

theorem exists_of_takeInnerSign? {negative : Bool}
    (taken : takeInnerSign? text = some (negative, rest)) :
    ∃ left right, left.all isBlank = true ∧ right.all isBlank = true ∧
      text = left ++ (if negative then '-' else '+') :: (right ++ rest) := by
  have apart {sign : Char} {behind : List Char} (stripped : stripStart text = sign :: behind) :
      ∃ left right, left.all isBlank = true ∧ right.all isBlank = true ∧
        text = left ++ sign :: (right ++ stripStart behind) := by
    obtain ⟨left, blankLeft, is⟩ := exists_blanks text
    obtain ⟨right, blankRight, same⟩ := exists_blanks behind
    rw [stripped, same] at is
    exact ⟨left, right, blankLeft, blankRight, is⟩
  unfold takeInnerSign? at taken
  split at taken
  · rename_i behind stripped
    cases taken
    exact apart stripped
  · rename_i behind stripped
    cases taken
    exact apart stripped
  · cases taken

/-- A sign is a minus before blanks. The text is given nearest first. -/
theorem exists_of_takeOuterSign? (taken : takeOuterSign? text = some rest) :
    ∃ blanks : List Char, blanks.all isBlank = true ∧ text = blanks.reverse ++ '-' :: rest := by
  obtain ⟨blanks, blank, is⟩ := exists_blanks text
  refine ⟨blanks.reverse, by rw [List.all_reverse, blank], ?_⟩
  rw [List.reverse_reverse]
  unfold takeOuterSign? at taken
  split at taken
  · rename_i behind stripped
    rw [stripped] at is
    split at taken
    · cases taken
      exact is
    · rw [Option.ite_none_right_eq_some] at taken
      cases taken.2
      exact is
  · cases taken

/-- Only a written number is taken, and no letter follows it. -/
theorem exists_of_takeUnsigned? {z : ComplexNumber} (taken : takeUnsigned? text = some (z, rest)) :
    ∃ spelled : Spelled, spelled.minus = none ∧ text = spelled.unsigned ++ rest ∧
      (∀ c ∈ rest.head?, isWordLetter c = false) ∧ z = spelled.value := by
  unfold takeUnsigned? at taken
  simp only [Option.bind_eq_bind, Option.bind_eq_some_iff, Prod.exists] at taken
  obtain ⟨real, _, first, negative, _, sign, imaginary, last, second, marked⟩ := taken
  obtain ⟨isReal, rfl⟩ := isPlain_of_takeDecimal? first
  obtain ⟨left, right, blankLeft, blankRight, rfl⟩ := exists_of_takeInnerSign? sign
  obtain ⟨isImaginary, rfl⟩ := isPlain_of_takeDecimal? second
  split at marked
  · split at marked
    · cases marked
    · rename_i ends
      cases marked
      refine ⟨⟨none, real, left, negative, right, imaginary, nofun, isReal, blankLeft, blankRight,
        isImaginary⟩, rfl, ?_, fun c is => ?_, rfl⟩
      · simp only [Spelled.unsigned, Spelled.inner, List.append_assoc, List.cons_append,
          List.nil_append]
      · rw [is] at ends
        exact Bool.eq_false_iff.mpr ends
  · cases marked

end Taken

/-! ## The cuts -/

/-- A number may stand between two texts, of which the first is given nearest first: no decimal goes
on in it, and no word after it. -/
structure Apart (before rest : List Char) : Prop where
  free : ∀ c ∈ before.head?, continuesDecimal c = false
  ends : ∀ c ∈ rest.head?, isWordLetter c = false

/-- The numbers are cut out of a text, one behind the other. The text before and the gaps are given
nearest first. -/
inductive CutsOut : List Char → List Char → List Literal → Prop
  | nothing {before text : List Char} : CutsOut before text []
  | number {before gap rest : List Char} {numbers : List Literal} (spelled : Spelled)
      (apart : Apart (spelled.outer.reverse ++ (gap ++ before)) rest)
      (more : CutsOut (spelled.text.reverse ++ (gap ++ before)) rest numbers) :
      CutsOut before (gap.reverse ++ (spelled.text ++ rest))
        (spelled.literal (gap ++ before).length :: numbers)

section Cuts

variable {before gap text rest : List Char} {numbers : List Literal}

/-- A minus in front of a number stands behind the number before. -/
theorem sign_in_gap (closed : ∀ c ∈ before.head?, c = 'i') {blanks : List Char}
    (blank : blanks.all isBlank = true) (is : gap ++ before = blanks.reverse ++ '-' :: rest) :
    ∃ inner, gap = blanks.reverse ++ '-' :: inner ∧ rest = inner ++ before := by
  rcases List.append_eq_append_iff.mp is with ⟨others, inGap, behind⟩ | ⟨others, inGap, behind⟩
  · cases others with
    | nil =>
        have letter := closed '-' (by rw [behind]; rfl)
        exact absurd letter (by decide)
    | cons c others =>
        have letter := closed c (by rw [behind]; rfl)
        have member : c ∈ blanks.reverse := inGap ▸ List.mem_append_right gap List.mem_cons_self
        have blank := List.all_eq_true.mp blank c (List.mem_reverse.mp member)
        rw [letter] at blank
        exact absurd blank (by decide)
  · cases others with
    | nil =>
        have letter := closed '-' (by rw [← List.nil_append before, ← behind]; rfl)
        exact absurd letter (by decide)
    | cons c inner =>
        rw [List.cons_append, List.cons.injEq] at behind
        obtain ⟨rfl, behind⟩ := behind
        exact ⟨inner, inGap, behind⟩

/-- A character is passed over, or a number starts with it. -/
theorem passed_or_unsigned (before : List Char) (c : Char) (text : List Char) :
    literalsFrom 0 before (c :: text) = literalsFrom 0 (c :: before) text ∨
      ∃ (spelled : Spelled) (rest : List Char), spelled.minus = none ∧
        c :: text = spelled.unsigned ++ rest ∧ Apart before rest := by
  by_cases glued : before.head?.any continuesDecimal = true
  · left
    rw [literalsFrom, if_pos glued]
  · cases taken : takeUnsigned? (c :: text) with
    | none =>
        left
        rw [literalsFrom, if_neg glued, taken]
    | some found =>
        obtain ⟨spelled, unsigned, is, ends, -⟩ := exists_of_takeUnsigned? taken
        refine .inr ⟨spelled, found.2, unsigned, is, fun d first => ?_, ends⟩
        rw [first] at glued
        exact Bool.eq_false_iff.mpr glued

/-- The number with a minus in front. -/
def Spelled.signed (spelled : Spelled) (blanks : List Char) (blank : blanks.all isBlank = true) :
    Spelled :=
  { spelled with
    minus := some blanks
    blankMinus := fun _ is => Option.some.inj is ▸ blank }

theorem Spelled.text_signed (spelled : Spelled) {blanks : List Char}
    (blank : blanks.all isBlank = true) :
    (spelled.signed blanks blank).text = '-' :: (blanks ++ spelled.unsigned) :=
  rfl

theorem Spelled.text_of_unsigned {spelled : Spelled} (unsigned : spelled.minus = none) :
    spelled.text = spelled.unsigned := by
  rw [text, outer, unsigned, List.nil_append]

theorem Spelled.unsigned_ne_nil (spelled : Spelled) : spelled.unsigned ≠ [] := by
  obtain ⟨c, others, is, _⟩ := spelled.isReal.exists_head
  rw [unsigned, is]
  exact List.cons_ne_nil _ _

theorem Spelled.head_reverse (spelled : Spelled) (before : List Char) :
    ∀ c ∈ (spelled.text.reverse ++ before).head?, c = 'i' := by
  obtain ⟨rest, is⟩ := spelled.exists_reverse
  intro c first
  rw [is] at first
  cases first
  rfl

/-- A number without a sign is cut out where it starts. -/
theorem CutsOut.of_unsigned {spelled : Spelled} (unsigned : spelled.minus = none)
    (apart : Apart (gap ++ before) rest)
    (more : CutsOut (spelled.text.reverse ++ (gap ++ before)) rest numbers) :
    CutsOut before (gap.reverse ++ (spelled.unsigned ++ rest))
      (⟨(gap ++ before).length, (gap ++ before).length + spelled.unsigned.length,
        ⟨partValue spelled.real, spelled.imaginaryValue⟩⟩ :: numbers) := by
  have outer : spelled.outer = [] := by rw [Spelled.outer, unsigned]
  have value : spelled.value = ⟨partValue spelled.real, spelled.imaginaryValue⟩ := by
    rw [Spelled.value, unsigned]
    rfl
  have cut := CutsOut.number spelled (by rwa [outer]) more
  rw [Spelled.literal, Spelled.text_of_unsigned unsigned, value] at cut
  exact cut

/-- A number with a sign is cut out from its sign on, which has been passed over as a part of the
gap. -/
theorem CutsOut.of_signed (spelled : Spelled) {blanks : List Char}
    (blank : blanks.all isBlank = true)
    (apart : Apart (blanks.reverse ++ '-' :: (gap ++ before)) rest)
    (more : CutsOut ((spelled.signed blanks blank).text.reverse ++ (gap ++ before)) rest numbers) :
    CutsOut before ((blanks.reverse ++ '-' :: gap).reverse ++ (spelled.unsigned ++ rest))
      (⟨(gap ++ before).length,
        (blanks.reverse ++ '-' :: (gap ++ before)).length + spelled.unsigned.length,
        ⟨-partValue spelled.real, spelled.imaginaryValue⟩⟩ :: numbers) := by
  have start : (spelled.signed blanks blank).outer.reverse = blanks.reverse ++ ['-'] :=
    List.reverse_cons
  have past : (gap ++ before).length + (spelled.signed blanks blank).text.length =
      (blanks.reverse ++ '-' :: (gap ++ before)).length + spelled.unsigned.length := by
    simp only [Spelled.text_signed, List.length_append, List.length_cons, List.length_reverse]
    omega
  have whole : (blanks.reverse ++ '-' :: gap).reverse ++ (spelled.unsigned ++ rest) =
      gap.reverse ++ ((spelled.signed blanks blank).text ++ rest) := by
    simp only [Spelled.text_signed, List.reverse_append, List.reverse_cons, List.reverse_reverse,
      List.append_assoc, List.cons_append, List.nil_append]
  have cut := CutsOut.number (spelled.signed blanks blank)
    (by rw [start, List.append_assoc]; exact apart) more
  rw [Spelled.literal, past] at cut
  rw [whole]
  exact cut

/-- **The numbers that are found are cut out of the text.** The characters in the gap, given nearest
first, have been passed over since the number before. -/
theorem cutsOut_literalsFrom (gap text : List Char) (closed : ∀ c ∈ before.head?, c = 'i') :
    CutsOut before (gap.reverse ++ text) (literalsFrom 0 (gap ++ before) text) := by
  induction size : text.length using Nat.strong_induction_on generalizing before gap text with
  | _ n ih =>
  subst size
  cases text with
  | nil => exact .nothing
  | cons c text =>
      rcases passed_or_unsigned (gap ++ before) c text with passed | found
      · have next := ih text.length (Nat.lt_succ_self _) (c :: gap) text closed rfl
        rw [List.reverse_cons, List.append_assoc] at next
        rw [passed]
        exact next
      · obtain ⟨spelled, rest, unsigned, is, apart⟩ := found
        have shorter : rest.length < (c :: text).length := by
          rw [is, List.length_append]
          exact Nat.lt_add_of_pos_left (List.length_pos_of_ne_nil spelled.unsigned_ne_nil)
        have next (number : Spelled) (front : List Char) :=
          ih rest.length shorter [] rest (number.head_reverse front) rfl
        rw [is, spelled.literalsFrom_unsigned apart.free apart.ends, literalAt]
        cases sign : takeOuterSign? (gap ++ before) with
        | none =>
            have more := next spelled (gap ++ before)
            refine .of_unsigned unsigned apart ?_
            rw [Spelled.text_of_unsigned unsigned] at more ⊢
            exact more
        | some front =>
            obtain ⟨blanks, blank, same⟩ := exists_of_takeOuterSign? sign
            obtain ⟨inner, rfl, rfl⟩ := sign_in_gap closed blank same
            have behind : (spelled.signed blanks blank).text.reverse ++ (inner ++ before) =
                spelled.unsigned.reverse ++ (blanks.reverse ++ '-' :: inner ++ before) := by
              simp only [Spelled.text_signed, List.reverse_cons, List.reverse_append,
                List.append_assoc, List.cons_append, List.nil_append]
            have more := next (spelled.signed blanks blank) (inner ++ before)
            dsimp only
            rw [← behind, same]
            exact .of_signed spelled blank (same ▸ apart) more

end Cuts

/-! ## What the cuts leave -/

section Rest

variable {before text : List Char} {numbers : List Literal}

/-- Each number that is cut out is written at its place. -/
theorem CutsOut.exists_spelled (cuts : CutsOut before text numbers) :
    ∀ number ∈ numbers, ∃ (front : List Char) (spelled : Spelled) (rest : List Char),
      before.reverse ++ text = front ++ (spelled.text ++ rest) ∧
        Apart (front ++ spelled.outer).reverse rest ∧ number = spelled.literal front.length := by
  induction cuts with
  | nothing => exact nofun
  | @number before gap rest numbers spelled apart more ih =>
      refine List.forall_mem_cons.mpr ⟨⟨(gap ++ before).reverse, spelled, rest, ?_, ?_, ?_⟩, ?_⟩
      · rw [List.reverse_append, List.append_assoc]
      · rw [List.reverse_append, List.reverse_reverse]
        exact apart
      · rw [List.length_reverse]
      · intro number member
        obtain ⟨front, written, rest, is, found⟩ := ih number member
        refine ⟨front, written, rest, ?_, found⟩
        rw [← is]
        simp only [List.reverse_append, List.reverse_reverse, List.append_assoc]

/-- A number that is cut out does not reach into the text before. -/
theorem CutsOut.length_le (cuts : CutsOut before text numbers) :
    ∀ number ∈ numbers, before.length ≤ number.first := by
  induction cuts with
  | nothing => exact nofun
  | number spelled apart more ih =>
      refine List.forall_mem_cons.mpr ⟨?_, fun number member => ?_⟩
      · rw [Spelled.literal, List.length_append]
        exact Nat.le_add_left _ _
      · have reached := ih number member
        simp only [List.length_append] at reached
        omega

/-- Each number that is cut out stands behind the one before. -/
theorem CutsOut.pairwise (cuts : CutsOut before text numbers) :
    numbers.Pairwise fun earlier later => earlier.past ≤ later.first := by
  induction cuts with
  | nothing => exact .nil
  | @number before gap rest numbers spelled apart more ih =>
      refine List.pairwise_cons.mpr ⟨fun later member => ?_, ih⟩
      have reached := more.length_le later member
      rw [List.length_append, List.length_reverse, Nat.add_comm] at reached
      exact reached

/-- What is left of a character at a place when numbers are cut out: a blank for the first character
of a number, nothing for its others, and a character outside of the numbers itself. -/
def leftover (numbers : List Literal) : Char × Nat → List Char := fun (c, place) =>
  if ∃ number ∈ numbers, number.first = place then [' ']
  else if ∃ number ∈ numbers, number.first < place ∧ place < number.past then []
  else [c]

/-- In front of the numbers everything is left. -/
theorem leftover_before {place : Nat}
    (behind : ∀ number ∈ numbers, place + text.length ≤ number.first) :
    (text.zipIdx place).flatMap (leftover numbers) = text := by
  have kept : ∀ item ∈ text.zipIdx place, leftover numbers item = [item.1] := by
    intro item member
    have reached := List.snd_lt_add_of_mem_zipIdx member
    rw [leftover, if_neg, if_neg]
    · rintro ⟨number, member, inside⟩
      have bound := behind number member
      omega
    · rintro ⟨number, member, first⟩
      have bound := behind number member
      omega
  rw [List.flatMap_congr kept, ← List.map_eq_flatMap, List.zipIdx_map_fst]

theorem Spelled.text_ne_nil (spelled : Spelled) : spelled.text ≠ [] :=
  List.append_ne_nil_of_right_ne_nil _ spelled.unsigned_ne_nil

theorem Spelled.first_lt_past (spelled : Spelled) (place : Nat) :
    (spelled.literal place).first < (spelled.literal place).past :=
  Nat.lt_add_of_pos_right (List.length_pos_of_ne_nil spelled.text_ne_nil)

/-- A number leaves a blank. -/
theorem leftover_number (spelled : Spelled) {place : Nat}
    (behind : ∀ number ∈ numbers, (spelled.literal place).past ≤ number.first) :
    (spelled.text.zipIdx place).flatMap (leftover (spelled.literal place :: numbers)) = [' '] := by
  have past : (spelled.literal place).past = place + spelled.text.length := rfl
  have nonempty := spelled.text_ne_nil
  cases is : spelled.text with
  | nil => exact absurd is nonempty
  | cons c text =>
      rw [is, List.length_cons] at past
      have nothing : ∀ item ∈ text.zipIdx (place + 1),
          leftover (spelled.literal place :: numbers) item = [] := by
        intro item member
        have least := List.le_snd_of_mem_zipIdx member
        have most := List.snd_lt_add_of_mem_zipIdx member
        rw [leftover, if_neg, if_pos]
        · refine ⟨_, List.mem_cons_self, least, ?_⟩
          omega
        · simp only [List.exists_mem_cons_iff, not_or, not_exists, not_and]
          refine ⟨Nat.ne_of_lt least, fun number member first => ?_⟩
          have bound := behind number member
          omega
      have blank : leftover (spelled.literal place :: numbers) (c, place) = [' '] :=
        if_pos ⟨_, List.mem_cons_self, rfl⟩
      rw [List.zipIdx_cons, List.flatMap_cons, List.flatMap_eq_nil_iff.mpr nothing, blank,
        List.append_nil]

/-- Behind a number it no longer matters. -/
theorem leftover_behind {number : Literal} {place : Nat} (proper : number.first < number.past)
    (behind : number.past ≤ place) :
    (text.zipIdx place).flatMap (leftover (number :: numbers)) =
      (text.zipIdx place).flatMap (leftover numbers) := by
  refine List.flatMap_congr fun item member => ?_
  have least := List.le_snd_of_mem_zipIdx member
  have other : number.first ≠ item.2 := by omega
  have outer : ¬item.2 < number.past := by omega
  simp only [leftover, List.exists_mem_cons_iff, other, outer, and_false, false_or]

/-- **Outside of the numbers everything is left, and a blank for each number.** -/
theorem CutsOut.outsideFrom (cuts : CutsOut before text numbers) :
    ComplexNumber.outsideFrom before.length (before.reverse ++ text) numbers =
      (text.zipIdx before.length).flatMap (leftover numbers) := by
  induction cuts with
  | @nothing before text =>
      have left := outsideFrom_nil before.reverse text
      rw [List.length_reverse] at left
      rw [left, leftover_before (List.forall_mem_nil _)]
  | @number before gap rest numbers spelled apart more ih =>
      have place : before.length + gap.reverse.length = (gap ++ before).length := by
        rw [List.length_append, List.length_reverse, Nat.add_comm]
      have past : (spelled.text.reverse ++ (gap ++ before)).length =
          (gap ++ before).length + spelled.text.length := by
        rw [List.length_append, List.length_reverse, Nat.add_comm]
      have behind : ∀ number ∈ numbers,
          (spelled.literal (gap ++ before).length).past ≤ number.first := by
        intro number member
        have reached := more.length_le number member
        rwa [past] at reached
      have all : ∀ number ∈ spelled.literal (gap ++ before).length :: numbers,
          before.length + gap.reverse.length ≤ number.first := by
        rw [place]
        refine List.forall_mem_cons.mpr ⟨Nat.le_refl _, fun number member => ?_⟩
        exact Nat.le_trans (Nat.le_of_lt (spelled.first_lt_past _)) (behind number member)
      have whole : before.reverse ++ (gap.reverse ++ (spelled.text ++ rest)) =
          (spelled.text.reverse ++ (gap ++ before)).reverse ++ rest := by
        simp only [List.reverse_append, List.reverse_reverse, List.append_assoc]
      have upTo : (before.reverse ++ (gap.reverse ++ spelled.text)).length =
          (spelled.text.reverse ++ (gap ++ before)).length := by
        simp only [List.length_append, List.length_reverse]
        omega
      have last : (rest.zipIdx ((gap ++ before).length + spelled.text.length)).flatMap
          (leftover (spelled.literal (gap ++ before).length :: numbers)) =
            (rest.zipIdx ((gap ++ before).length + spelled.text.length)).flatMap
              (leftover numbers) :=
        leftover_behind (spelled.first_lt_past _) (Nat.le_refl _)
      have cut := outsideFrom_append before.reverse gap.reverse spelled.text rest spelled.value
        numbers
      rw [List.length_reverse, place, upTo, whole, ih, ← whole, past] at cut
      rw [List.zipIdx_append, List.zipIdx_append, List.flatMap_append, List.flatMap_append,
        leftover_before all, place, leftover_number spelled behind, last]
      exact cut

/-- Where the pattern of a number fits, a number is found: there, or before. -/
theorem literalsFrom_ne_nil {spelled : Spelled} {after : List Char} (text : List Char)
    (apart : Apart (text.reverse ++ before) after) :
    literalsFrom 0 before (text ++ (spelled.unsigned ++ after)) ≠ [] := by
  induction text generalizing before with
  | nil =>
      rw [List.reverse_nil, List.nil_append] at apart
      rw [List.nil_append, spelled.literalsFrom_unsigned apart.free apart.ends]
      exact List.cons_ne_nil _ _
  | cons c text ih =>
      rw [List.reverse_cons, List.append_assoc] at apart
      rw [List.cons_append]
      rcases passed_or_unsigned before c (text ++ (spelled.unsigned ++ after)) with passed | found
      · rw [passed]
        exact ih apart
      · obtain ⟨earlier, rest, -, is, apart⟩ := found
        rw [is, earlier.literalsFrom_unsigned apart.free apart.ends]
        exact List.cons_ne_nil _ _

end Rest

/-- **Numbers are disjoint and cut out cleanly.** Each number that is found is written where it
stands, with the real part negated when a minus is a part of it; it ends before the next one starts.
A number is found exactly when the pattern of one fits somewhere. Outside of the numbers every
character is left once and in order, and a blank for each number. -/
theorem literals_cut (text : List Char) :
    (∀ number ∈ literals text, number.first < number.past ∧ number.past ≤ text.length ∧
      ∃ (before : List Char) (spelled : Spelled) (rest : List Char),
        text = before ++ (spelled.text ++ rest) ∧ Apart (before ++ spelled.outer).reverse rest ∧
          number.first = before.length ∧ number.past = before.length + spelled.text.length ∧
            number.value = ⟨if spelled.minus.isSome then -partValue spelled.real
              else partValue spelled.real, spelled.imaginaryValue⟩) ∧
    (literals text).Pairwise (fun earlier later => earlier.past ≤ later.first) ∧
    (literals text ≠ [] ↔ occurs text = true) ∧
    (occurs text = true ↔ ∃ (before : List Char) (spelled : Spelled) (rest : List Char),
      text = before ++ (spelled.unsigned ++ rest) ∧ Apart before.reverse rest) ∧
    outside text = text.zipIdx.flatMap (leftover (literals text)) := by
  have cuts : CutsOut [] text (literals text) := cutsOut_literalsFrom [] text (fun _ => nofun)
  have written := cuts.exists_spelled
  have found : literals text ≠ [] ↔ occurs text = true := by
    rw [occurs, Bool.not_eq_true', List.isEmpty_eq_false_iff]
  refine ⟨fun number member => ?_, cuts.pairwise, found, ⟨fun some => ?_, ?_⟩, cuts.outsideFrom⟩
  · obtain ⟨before, spelled, rest, is, apart, rfl⟩ := written number member
    have bound : before.length + spelled.text.length ≤ text.length := by
      rw [← List.nil_append text, ← List.reverse_nil, is, List.length_append, List.length_append]
      omega
    exact ⟨spelled.first_lt_past _, bound, before, spelled, rest, is, apart, rfl, rfl, rfl⟩
  · obtain ⟨number, member⟩ := List.exists_mem_of_ne_nil _ (found.mpr some)
    obtain ⟨before, spelled, rest, is, apart, -⟩ := written number member
    refine ⟨before ++ spelled.outer, spelled, rest, ?_, apart⟩
    rw [← List.nil_append text, ← List.reverse_nil, is, Spelled.text]
    simp only [List.append_assoc]
  · rintro ⟨before, spelled, rest, rfl, apart⟩
    apply found.mp
    exact literalsFrom_ne_nil before (by rwa [List.append_nil])

example : outside "(- 1+2i) - 3+4i".toList = "( ) -  ".toList := by decide

end Reckoner.ComplexNumber
