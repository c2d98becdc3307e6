import Mathlib
import Reckoner.Json.Reader
import Reckoner.Json.Writer

/-!
# Strings are read as they were written

A character stands in a string as itself, as a letter after a backslash, or as one or two escaped
units. The reader does not know of a unit whether it is the first of a pair until it has seen what
follows, so a unit may still wait when the next character is read. What waits between two
characters is never the first unit of a pair, and with this each character is read back, one after
the other (`Reckoner.Json.readText?_flatMap_writeChar`).
-/

namespace Reckoner.Json

open Reckoner.Text

/-! ## Units -/

theorem hexDigits_append (width n : ℕ) :
    hexDigits (width + 2) n = hexDigits (width + 1) (n / 16) ++ [Nat.digitChar (n % 16)] := by
  unfold hexDigits
  by_cases small : n < 16
  · have zero : n / 16 = 0 := Nat.div_eq_of_lt small
    rw [zero, Nat.toDigits_of_lt_base small, Nat.toDigits_zero, Nat.mod_eq_of_lt small]
    change List.replicate (width + 1) '0' ++ _ = List.replicate width '0' ++ _ ++ _
    rw [List.replicate_succ']
  · have split := Nat.toDigits_of_base_le (b := 16) (by decide) (Nat.le_of_not_lt small)
    have lengths : (Nat.toDigits 16 n).length = (Nat.toDigits 16 (n / 16)).length + 1 :=
      (congrArg List.length split).trans (List.length_append ..)
    dsimp only
    rw [lengths, split, ← List.append_assoc]
    change List.replicate (width + 1 + 1 - (_ + 1)) '0' ++ _ ++ _ = _
    rw [Nat.add_sub_add_right]

theorem hexValue?_digitChar {digit : ℕ} (small : digit < 16) :
    hexValue? (Nat.digitChar digit) = some digit := by
  have each : ∀ digit < 16, hexValue? (Nat.digitChar digit) = some digit := by decide
  exact each digit small

/-- A unit is written with four digits, which give the unit. -/
theorem exists_unit? {unit : ℕ} (small : unit < 0x10000) :
    ∃ a b c d, hexDigits 4 unit = [a, b, c, d] ∧ unit? a b c d = some unit := by
  have first : hexDigits 1 (unit / 16 / 16 / 16) = [Nat.digitChar (unit / 16 / 16 / 16)] := by
    unfold hexDigits
    rw [Nat.toDigits_of_lt_base (by omega)]
    rfl
  have digits : hexDigits 4 unit = [Nat.digitChar (unit / 16 / 16 / 16),
      Nat.digitChar (unit / 16 / 16 % 16), Nat.digitChar (unit / 16 % 16),
      Nat.digitChar (unit % 16)] := by
    rw [hexDigits_append, hexDigits_append, hexDigits_append, first]
    rfl
  refine ⟨_, _, _, _, digits, ?_⟩
  unfold unit?
  rw [hexValue?_digitChar (by omega), hexValue?_digitChar (by omega),
    hexValue?_digitChar (by omega), hexValue?_digitChar (by omega)]
  change some _ = some _
  congr 1
  omega

/-- A character has no surrogate's code. -/
theorem not_surrogate (c : Char) :
    isHighSurrogate c.toNat = false ∧ isLowSurrogate c.toNat = false := by
  have valid : c.toNat < 0xD800 ∨ 0xDFFF < c.toNat ∧ c.toNat < 0x110000 := c.valid
  constructor
  · by_contra high
    rw [Bool.not_eq_false, isHighSurrogate, Bool.and_eq_true, decide_eq_true_eq,
      decide_eq_true_eq] at high
    omega
  · by_contra low
    rw [Bool.not_eq_false, isLowSurrogate, Bool.and_eq_true, decide_eq_true_eq,
      decide_eq_true_eq] at low
    omega

theorem unitChar_toNat (c : Char) : unitChar c.toNat = c := by
  obtain ⟨high, low⟩ := not_surrogate c
  rw [unitChar, high, low]
  exact Char.ofNat_toNat c

/-- A code past the units is made of the two units that it is written with. -/
theorem pairChar?_toNat {c : Char} (large : 0x10000 ≤ c.toNat) :
    pairChar? (0xD800 + (c.toNat - 0x10000) / 0x400) (0xDC00 + (c.toNat - 0x10000) % 0x400) =
      some c := by
  have valid : c.toNat < 0xD800 ∨ 0xDFFF < c.toNat ∧ c.toNat < 0x110000 := c.valid
  have high : isHighSurrogate (0xD800 + (c.toNat - 0x10000) / 0x400) = true := by
    rw [isHighSurrogate, Bool.and_eq_true, decide_eq_true_eq, decide_eq_true_eq]
    omega
  have low : isLowSurrogate (0xDC00 + (c.toNat - 0x10000) % 0x400) = true := by
    rw [isLowSurrogate, Bool.and_eq_true, decide_eq_true_eq, decide_eq_true_eq]
    omega
  have code : 0x10000 + (0xD800 + (c.toNat - 0x10000) / 0x400 - 0xD800) * 0x400 +
      (0xDC00 + (c.toNat - 0x10000) % 0x400 - 0xDC00) = c.toNat := by omega
  rw [pairChar?, high, low, code, Char.ofNat_toNat]
  rfl

/-! ## One character -/

variable {pending : Option ℕ} {rest : List Char}

/-- What waits is no first unit of a pair. -/
def Settled (pending : Option ℕ) : Prop :=
  ∀ unit ∈ pending, isHighSurrogate unit = false

theorem settled_none : Settled none := fun unit is => by cases is

theorem Settled.pairChar? (settled : Settled pending) (low : ℕ) :
    (pending.bind fun high => pairChar? high low) = none := by
  cases pending with
  | none => rfl
  | some high =>
      have single := settled high rfl
      rw [Option.bind_some, Json.pairChar?, single]
      rfl

@[simp] theorem prepend_some (cs more after : List Char) :
    prepend cs (some (more, after)) = some (cs ++ more, after) := rfl

theorem prepend_prepend (cs ds : List Char) (result : Option (List Char × List Char)) :
    prepend cs (prepend ds result) = prepend (cs ++ ds) result := by
  cases result with
  | none => rfl
  | some read => rw [prepend_some, prepend_some, prepend_some, List.append_assoc]

/-- A unit that makes no pair with what waits settles it, and waits itself. -/
theorem readText?_unit (settled : Settled pending) {unit : ℕ} (small : unit < 0x10000) :
    readText? pending (escapeUnit unit ++ rest) =
      prepend (waiting pending) (readText? (some unit) rest) := by
  obtain ⟨a, b, c, d, digits, read⟩ := exists_unit? small
  rw [escapeUnit, digits]
  simp only [List.cons_append, List.nil_append]
  rw [readText?, read]
  dsimp only
  rw [settled.pairChar?]

/-- The second unit of a pair completes the first one. -/
theorem readText?_second {high low : ℕ} {c : Char} (small : low < 0x10000)
    (pairs : pairChar? high low = some c) :
    readText? (some high) (escapeUnit low ++ rest) = prepend [c] (readText? none rest) := by
  obtain ⟨_, _, _, _, digits, read⟩ := exists_unit? small
  rw [escapeUnit, digits]
  simp only [List.cons_append, List.nil_append]
  rw [readText?, read]
  dsimp only
  rw [Option.bind_some, pairs]

theorem readText?_letter {letter c : Char} (escapes : unescape? letter = some c) :
    readText? pending ('\\' :: letter :: rest) =
      prepend (waiting pending ++ [c]) (readText? none rest) := by
  have other : letter ≠ 'u' := by
    rintro rfl
    cases escapes
  rw [readText?, escapes]
  exact fun _ _ _ _ _ is _ => other is

theorem readText?_plain {c : Char} (noQuote : c ≠ '"') (noBackslash : c ≠ '\\')
    (shown : 32 ≤ c.toNat) :
    readText? pending (c :: rest) = prepend (waiting pending ++ [c]) (readText? none rest) := by
  have stands : ¬(decide (c.toNat < 32) || c == '\\') = true := by
    simp [noBackslash, Nat.not_lt.mpr shown]
  rw [readText?, if_neg stands]
  · exact noQuote
  · exact fun _ _ _ _ _ is _ => noBackslash is
  · exact fun _ _ is _ => noBackslash is

variable {plain : Char → Bool}

/-- An escaped character is read: alone it waits, and as a pair it is complete. -/
theorem readText?_escapeCode (settled : Settled pending) (c : Char) :
    ∃ front next, Settled next ∧ front ++ waiting next = waiting pending ++ [c] ∧
      ∀ rest, readText? pending (escapeCode c.toNat ++ rest) =
        prepend front (readText? next rest) := by
  unfold escapeCode
  rcases Nat.lt_or_ge c.toNat 0x10000 with small | large
  · refine ⟨waiting pending, some c.toNat, ?_, ?_, fun rest => ?_⟩
    · intro unit is
      cases is
      exact (not_surrogate c).1
    · change _ ++ [unitChar c.toNat] = _
      rw [unitChar_toNat]
    · rw [if_pos small, readText?_unit settled small]
  · have valid : c.toNat < 0xD800 ∨ 0xDFFF < c.toNat ∧ c.toNat < 0x110000 := c.valid
    refine ⟨_, none, settled_none, List.append_nil _, fun rest => ?_⟩
    rw [if_neg (Nat.not_lt.mpr large)]
    dsimp only
    rw [List.append_assoc, readText?_unit settled (by omega),
      readText?_second (by omega) (pairChar?_toNat large), prepend_prepend]

/-- The three forms of a character: a letter that stands for it after a backslash, the character
itself, or its code. -/
theorem writeChar_cases (plain : Char → Bool) (c : Char) :
    (∃ letter, unescape? letter = some c ∧ writeChar plain c = ['\\', letter]) ∨
      (c ≠ '"' ∧ c ≠ '\\' ∧ plain c = true ∧ writeChar plain c = [c]) ∨
        writeChar plain c = escapeCode c.toNat := by
  unfold writeChar
  split_ifs with mandatory newline carriage tab feed back shown
  · rw [Bool.or_eq_true, beq_iff_eq, beq_iff_eq] at mandatory
    rcases mandatory with rfl | rfl
    · exact .inl ⟨'"', rfl, rfl⟩
    · exact .inl ⟨'\\', rfl, rfl⟩
  · obtain rfl := beq_iff_eq.mp newline
    exact .inl ⟨'n', rfl, rfl⟩
  · obtain rfl := beq_iff_eq.mp carriage
    exact .inl ⟨'r', rfl, rfl⟩
  · obtain rfl := beq_iff_eq.mp tab
    exact .inl ⟨'t', rfl, rfl⟩
  · obtain rfl := beq_iff_eq.mp feed
    exact .inl ⟨'f', rfl, rfl⟩
  · obtain rfl := beq_iff_eq.mp back
    exact .inl ⟨'b', rfl, rfl⟩
  · rw [Bool.or_eq_true, beq_iff_eq, beq_iff_eq, not_or] at mandatory
    exact .inr (.inl ⟨mandatory.1, mandatory.2, shown, rfl⟩)
  · exact .inr (.inr rfl)

/-- A character is read from its form. What was waiting before is settled, and the character may
itself be waiting then. -/
theorem readText?_writeChar (shown : ∀ c, plain c = true → 32 ≤ c.toNat)
    (settled : Settled pending) (c : Char) :
    ∃ front next, Settled next ∧ front ++ waiting next = waiting pending ++ [c] ∧
      ∀ rest, readText? pending (writeChar plain c ++ rest) =
        prepend front (readText? next rest) := by
  rcases writeChar_cases plain c with ⟨letter, escapes, is⟩ | ⟨noQuote, noSlash, isPlain, is⟩ | is
  · rw [is]
    exact ⟨_, none, settled_none, List.append_nil _, fun rest => readText?_letter escapes⟩
  · rw [is]
    exact ⟨_, none, settled_none, List.append_nil _, fun rest =>
      readText?_plain noQuote noSlash (shown c isPlain)⟩
  · rw [is]
    exact readText?_escapeCode settled c

/-! ## Whole strings -/

/-- **Strings are read back.** The forms of characters up to a quote are read as the characters,
whichever of them beyond the controls are shown as they are. -/
theorem readText?_flatMap_writeChar (shown : ∀ c, plain c = true → 32 ≤ c.toNat)
    (settled : Settled pending) (text rest : List Char) :
    readText? pending (text.flatMap (writeChar plain) ++ '"' :: rest) =
      some (waiting pending ++ text, rest) := by
  induction text generalizing pending with
  | nil =>
      rw [List.append_nil]
      exact readText?.eq_2 pending rest
  | cons c text ih =>
      obtain ⟨front, next, settledNext, same, read⟩ := readText?_writeChar shown settled c
      rw [List.flatMap_cons, List.append_assoc, read, ih settledNext, prepend_some,
        ← List.append_assoc, same, List.append_assoc]
      rfl

/-- A string is read between its quotes. -/
theorem readText?_writeText (shown : ∀ c, plain c = true → 32 ≤ c.toNat) (s : String) :
    ∃ body, (writeText plain s).toList = '"' :: body ∧
      ∀ rest, readText? none (body ++ rest) = some (s.toList, rest) := by
  refine ⟨s.toList.flatMap (writeChar plain) ++ ['"'], String.toList_ofList, fun rest => ?_⟩
  rw [List.append_assoc]
  exact readText?_flatMap_writeChar shown settled_none s.toList rest

theorem le_toNat_of_plainIndented (c : Char) (plain : plainIndented c = true) : 32 ≤ c.toNat := by
  rw [plainIndented, Bool.and_eq_true, decide_eq_true_eq] at plain
  exact plain.1

end Reckoner.Json
