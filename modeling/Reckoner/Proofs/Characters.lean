import Reckoner.Text.Blank
import Reckoner.Text.Digit
import Reckoner.Text.Letter

/-!
# Characters that end numbers and names

A number or a name in a text ends before a boundary (`Reckoner.Text.isBoundary`): a blank, or the
character of an operator, a parenthesis, a comma or a root. None of these goes on a number or a
name. What the tables of characters say is checked character by character.
-/

namespace Reckoner.Text

/-- The code points in some ranges. -/
def codes (ranges : List (Nat × Nat)) : List Nat :=
  ranges.flatMap fun range => List.range' range.1 (range.2 + 1 - range.1)

theorem mem_codes_of_inRanges {ranges : List (Nat × Nat)} {code : Nat}
    (inside : inRanges ranges code = true) : code ∈ codes ranges := by
  induction ranges with
  | nil => cases inside
  | cons range rest ih =>
      obtain ⟨first, last⟩ := range
      rw [codes, List.flatMap_cons, List.mem_append]
      simp only [inRanges] at inside
      split at inside
      · rename_i le
        left
        rw [List.mem_range'_1]
        have := of_decide_eq_true inside
        omega
      · exact .inr (ih inside)

/-- What holds of every character of the table of blanks holds of every blank. -/
theorem forall_isBlank {p : Char → Bool}
    (each : (codes blankRanges).all (fun code => p (Char.ofNat code)) = true) {c : Char}
    (blank : isBlank c = true) : p c = true := by
  have inside := List.all_eq_true.mp each c.toNat (mem_codes_of_inRanges blank)
  rwa [Char.ofNat_toNat] at inside

/-- What holds of the 52 ASCII letters holds of every one of them. -/
theorem forall_isAlpha {p : Char → Bool}
    (each : (List.range' 65 26 ++ List.range' 97 26).all (fun code => p (Char.ofNat code)) = true)
    {c : Char} (letter : c.isAlpha = true) : p c = true := by
  have range : c.toNat ∈ List.range' 65 26 ++ List.range' 97 26 := by
    change (decide (65 ≤ c.val ∧ c.val ≤ 90) || (decide (97 ≤ c.val) && decide (c.val ≤ 122))) =
      true at letter
    simp only [Bool.or_eq_true, Bool.and_eq_true, decide_eq_true_eq, UInt32.le_iff_toNat_le]
      at letter
    change 65 ≤ c.toNat ∧ c.toNat ≤ 90 ∨ 97 ≤ c.toNat ∧ c.toNat ≤ 122 at letter
    rw [List.mem_append, List.mem_range'_1, List.mem_range'_1]
    omega
  have holds := List.all_eq_true.mp each c.toNat range
  rwa [Char.ofNat_toNat] at holds

/-- What holds of the ten digits holds of every one of them. -/
theorem forall_isDigit {p : Char → Prop} (each : ∀ n < 10, p (Char.ofNat (48 + n))) {c : Char}
    (digit : c.isDigit = true) : p c := by
  obtain ⟨low, high⟩ := Char.isDigit_iff_toNat.mp digit
  change 48 ≤ c.toNat at low
  change c.toNat ≤ 57 at high
  have holds := each (c.toNat - 48) (by omega)
  rwa [Nat.add_sub_cancel' low, Char.ofNat_toNat] at holds

/-- All characters are ASCII. -/
def IsAscii (text : List Char) : Prop :=
  ∀ c ∈ text, c.toNat < 128

instance (text : List Char) : Decidable (IsAscii text) :=
  List.decidableBAll (fun c : Char => c.toNat < 128) text

/-- What holds of the 128 ASCII characters holds of every one of them. -/
theorem forall_ascii {p : Char → Bool}
    (each : (List.range 128).all (fun code => p (Char.ofNat code)) = true) {c : Char}
    (ascii : c.toNat < 128) : p c = true := by
  have holds := List.all_eq_true.mp each c.toNat (List.mem_range.mpr ascii)
  rwa [Char.ofNat_toNat] at holds

theorem isAscii_of_isAlpha {c : Char} (isLetter : c.isAlpha = true) : c.toNat < 128 :=
  of_decide_eq_true (forall_isAlpha (p := fun c => decide (c.toNat < 128)) (by decide) isLetter)

theorem isAscii_of_isDigit {c : Char} (digit : c.isDigit = true) : c.toNat < 128 :=
  forall_isDigit (p := fun c => c.toNat < 128) (by decide) digit

theorem isDecimalDigit_of_isDigit {c : Char} (digit : c.isDigit = true) :
    isDecimalDigit c = true :=
  forall_isDigit (p := fun c => isDecimalDigit c = true) (by decide) digit

theorem isDecimalDigit_of_isAlpha {c : Char} (letter : c.isAlpha = true) :
    isDecimalDigit c = false :=
  Bool.not_eq_true' _ ▸ forall_isAlpha (p := fun c => !isDecimalDigit c) (by decide) letter

theorem isLetter_of_isAlpha {c : Char} (letter : c.isAlpha = true) : isLetter c = true :=
  forall_isAlpha (by decide) letter

theorem isAlpha_of_isDigit {c : Char} (digit : c.isDigit = true) : c.isAlpha = false :=
  forall_isDigit (p := fun c => c.isAlpha = false) (by decide) digit

theorem isWordLetter_of_isLetter {c : Char} (letter : isLetter c = true) :
    isWordLetter c = true := by
  rw [isWordLetter, letter, Bool.true_or]

theorem isLetter_of_not_isWordLetter {c : Char} (none : isWordLetter c = false) :
    isLetter c = false := by
  rw [isWordLetter, Bool.or_eq_false_iff] at none
  exact none.1

theorem isWordLetter_of_isDigit {c : Char} (digit : c.isDigit = true) : isWordLetter c = false :=
  forall_isDigit (p := fun c => isWordLetter c = false) (by decide) digit

/-- The range ends below a row of code points. -/
def endsBelow (row : Nat) (range : Nat × Nat) : Bool :=
  Nat.blt range.2 row

/-- The rows of ten code points lie apart from the ascending ranges: once the ranges below a row have
been passed, the next one starts above the row. -/
def areApart : List Nat → List (Nat × Nat) → Bool
  | [], _ => true
  | row :: rows, ranges =>
      let ahead := ranges.dropWhile (endsBelow row)
      ahead.head?.all (fun range => Nat.ble (row + 10) range.1 && Nat.ble range.1 range.2) &&
        areApart rows ahead

theorem inRanges_dropWhile {ranges : List (Nat × Nat)} {row code : Nat} (above : row ≤ code) :
    inRanges (ranges.dropWhile (endsBelow row)) code = inRanges ranges code := by
  induction ranges with
  | nil => rfl
  | cons range ranges ih =>
      by_cases passed : endsBelow row range = true
      · have below : range.2 < row := Nat.blt_eq.mp passed
        rw [List.dropWhile_cons_of_pos passed, ih, inRanges, if_neg (by omega)]
      · rw [List.dropWhile_cons_of_neg passed]

/-- A code point of a row is in none of the ranges that the rows lie apart from. -/
theorem inRanges_of_areApart {rows : List Nat} (ascending : rows.Pairwise (· ≤ ·))
    {ranges : List (Nat × Nat)} (apart : areApart rows ranges = true) {row code : Nat}
    (member : row ∈ rows) (above : row ≤ code) (below : code < row + 10) :
    inRanges ranges code = false := by
  induction rows generalizing ranges with
  | nil => cases member
  | cons first rows ih =>
      obtain ⟨least, ofRows⟩ := List.pairwise_cons.mp ascending
      rw [areApart, Bool.and_eq_true] at apart
      rcases List.mem_cons.mp member with rfl | member
      · rw [← inRanges_dropWhile above]
        generalize ranges.dropWhile (endsBelow row) = ahead at apart
        cases ahead with
        | nil => rfl
        | cons range ahead =>
            obtain ⟨next, _⟩ := apart
            rw [List.head?_cons, Option.all_some, Bool.and_eq_true, Nat.ble_eq, Nat.ble_eq] at next
            rw [inRanges, if_pos (by omega)]
            exact decide_eq_false (by omega)
      · rw [← inRanges_dropWhile (Nat.le_trans (least row member) above)]
        exact ih ofRows apart.2 member

theorem exists_row_of_digitOver {rows : List Nat} {code value : Nat}
    (is : digitOver rows code = some value) : ∃ row ∈ rows, row ≤ code ∧ code < row + 10 := by
  induction rows with
  | nil => cases is
  | cons row rows ih =>
      rw [digitOver] at is
      split at is
      · rename_i below
        split at is
        · rename_i above
          exact ⟨row, List.mem_cons_self, above, below⟩
        · cases is
      · obtain ⟨other, member, found⟩ := ih is
        exact ⟨other, List.mem_cons_of_mem _ member, found⟩

/-- A decimal digit of any script is no letter of a word. -/
theorem isWordLetter_of_isDecimalDigit {c : Char} (digit : isDecimalDigit c = true) :
    isWordLetter c = false := by
  obtain ⟨value, is⟩ := Option.isSome_iff_exists.mp digit
  obtain ⟨row, member, above, below⟩ := exists_row_of_digitOver is
  rcases List.mem_cons.mp member with rfl | member
  · exact isWordLetter_of_isDigit (Char.isDigit_iff_toNat.mpr ⟨above, Nat.le_of_lt_succ below⟩)
  · have ascending : zeros.tail.Pairwise (· ≤ ·) := by decide
    have beyond : 128 ≤ row := of_decide_eq_true
      (List.all_eq_true.mp (show zeros.tail.all (fun row => decide (128 ≤ row)) = true by decide)
        row member)
    have letters : areApart zeros.tail letterRanges = true := by decide +kernel
    have numerals : areApart zeros.tail numeralRanges = true := by decide +kernel
    rw [isWordLetter, isLetter, if_neg (by omega),
      inRanges_of_areApart ascending letters member above below,
      inRanges_of_areApart ascending numerals member above below]
    rfl

theorem isDecimalDigit_of_isWordLetter {c : Char} (letter : isWordLetter c = true) :
    isDecimalDigit c = false := by
  rw [← Bool.not_eq_true]
  intro digit
  rw [isWordLetter_of_isDecimalDigit digit] at letter
  cases letter

/-- The character is the symbol of an operator, a parenthesis, a comma or a root. -/
def isSymbol (c : Char) : Bool :=
  ['(', ')', ',', '+', '-', '*', '/', '^', '×', '√'].contains c

/-- The character ends a number or a name before it. -/
def isBoundary (c : Char) : Bool :=
  isBlank c || isSymbol c

/-- The character goes on a number or a name. -/
def goesOn (c : Char) : Bool :=
  isDecimalDigit c || isWordLetter c || c.isDigit || c == '.'

theorem isBoundary_of_isBlank {c : Char} (blank : isBlank c = true) : isBoundary c = true := by
  rw [isBoundary, blank, Bool.true_or]

theorem isBoundary_of_isSymbol {c : Char} (symbol : isSymbol c = true) : isBoundary c = true := by
  rw [isBoundary, symbol, Bool.or_true]

theorem forall_isSymbol {p : Char → Bool}
    (each : ['(', ')', ',', '+', '-', '*', '/', '^', '×', '√'].all p = true) {c : Char}
    (symbol : isSymbol c = true) : p c = true :=
  List.all_eq_true.mp each c (List.contains_iff_mem.mp symbol)

theorem goesOn_of_isBoundary {c : Char} (boundary : isBoundary c = true) : goesOn c = false := by
  rw [isBoundary, Bool.or_eq_true] at boundary
  rw [← Bool.not_eq_true']
  rcases boundary with blank | symbol
  · exact forall_isBlank (p := fun c => !goesOn c) (by decide +kernel) blank
  · exact forall_isSymbol (p := fun c => !goesOn c) (by decide +kernel) symbol

section Boundary

variable {c : Char} (boundary : isBoundary c = true)

include boundary

theorem isDecimalDigit_of_isBoundary : isDecimalDigit c = false := by
  have stops := goesOn_of_isBoundary boundary
  simp only [goesOn, Bool.or_eq_false_iff] at stops
  exact stops.1.1.1

theorem isWordLetter_of_isBoundary : isWordLetter c = false := by
  have stops := goesOn_of_isBoundary boundary
  simp only [goesOn, Bool.or_eq_false_iff] at stops
  exact stops.1.1.2

theorem isLetter_of_isBoundary : isLetter c = false :=
  isLetter_of_not_isWordLetter (isWordLetter_of_isBoundary boundary)

theorem isDigit_of_isBoundary : c.isDigit = false := by
  have stops := goesOn_of_isBoundary boundary
  simp only [goesOn, Bool.or_eq_false_iff] at stops
  exact stops.1.2

theorem ne_point_of_isBoundary : c ≠ '.' := by
  rintro rfl
  exact absurd (goesOn_of_isBoundary boundary) (by decide)

end Boundary

/-- The text is at its end, or a boundary comes next. -/
def AtBoundary (text : List Char) : Prop :=
  ∀ c ∈ text.head?, isBoundary c = true

theorem atBoundary_nil : AtBoundary [] := nofun

theorem atBoundary_cons {c : Char} {text : List Char} (boundary : isBoundary c = true) :
    AtBoundary (c :: text) := by
  intro other is
  cases is
  exact boundary

/-- A letter is no boundary. -/
theorem not_atBoundary_of_isAlpha {c : Char} {text : List Char} (isLetter : c.isAlpha = true) :
    ¬ AtBoundary (c :: text) := by
  intro atBoundary
  have stops := isLetter_of_isBoundary (atBoundary c rfl)
  rw [isLetter_of_isAlpha isLetter] at stops
  cases stops

end Reckoner.Text
