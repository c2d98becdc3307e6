import Reckoner.Proofs.Ending
import Reckoner.Proofs.Json.RoundTrip

/-!
# Values that have been read

Whatever the reader accepts is a value that can be written and read back: its integers keep to the
limit on digits, and its objects have no key twice (`Reckoner.Json.storable_of_read`).
-/

namespace Reckoner.Json

open Decimal Outcome

/-! ## Numbers -/

/-- Digits make a number below the power of ten with as many zeros. -/
theorem digitsValue_lt {digits : List Char} (areDigits : ∀ c ∈ digits, c.isDigit = true) :
    digitsValue digits < 10 ^ digits.length := by
  induction digits with
  | nil => exact Nat.one_pos
  | cons c digits ih =>
      obtain ⟨digit, ofRest⟩ := List.forall_mem_cons.mp areDigits
      have small := Text.forall_isDigit (p := fun c => digitsValue [c] ≤ 9) (by decide) digit
      have rest := ih ofRest
      have front := Nat.mul_le_mul_left (10 ^ digits.length) small
      rw [← List.singleton_append, digitsValue_append, List.singleton_append, List.length_cons,
        pow_succ]
      omega

theorem isDigit_takeWhole (size : List Char) : ∀ c ∈ (takeWhole size).1, c.isDigit = true := by
  unfold takeWhole
  split
  · exact List.forall_mem_singleton.mpr rfl
  · exact fun c member => List.mem_takeWhile_imp member

/-- An integer with a sign keeps to the limit if its digits do. -/
theorem storable_signed {size : ℕ} (short : size < 10 ^ digitLimit) (negative : Bool) :
    (integer (if negative then -(size : ℤ) else size)).Storable := by
  refine .integer ?_
  cases negative with
  | false => exact short
  | true =>
      rw [if_pos rfl, Int.natAbs_neg]
      exact short

/-- The result of a reader is a value that can be stored, and what follows it. -/
def ReadsStorable : Except ReadFault (Json × List Char) → Prop :=
  EndsIn (fun result => result.1.Storable) fun _ => True

theorem readsStorable_readSize (negative : Bool) (size : List Char) :
    ReadsStorable (readSize negative size) := by
  unfold readSize
  dsimp only
  split
  · trivial
  · split
    · split
      · trivial
      · rename_i within
        have below := digitsValue_lt (isDigit_takeWhole size)
        have short := Nat.pow_le_pow_right (by decide : 0 < 10) (Nat.le_of_not_lt within)
        exact storable_signed (Nat.lt_of_lt_of_le below short) negative
    · split
      · exact .double _
      · trivial

theorem readsStorable_readNumber (text : List Char) : ReadsStorable (readNumber text) := by
  unfold readNumber
  split
  · exact readsStorable_readSize true _
  · exact readsStorable_readSize false _

/-! ## Values -/

theorem storable_of_readWord? {text rest : List Char} {value : Json}
    (found : readWord? text = some (value, rest)) : value.Storable := by
  unfold readWord? at found
  split at found
  · cases found
    exact .null
  · cases found
    exact .bool true
  · cases found
    exact .bool false
  · cases found
    exact .double _
  · cases found
    exact .double _
  · cases found
    exact .double _
  · cases found

/-- The readers of one more level of parts, if those of the parts read values that can be stored. -/
structure ReadsWell (fuel : ℕ) : Prop where
  value : ∀ text, ReadsStorable (readValue fuel text)
  items : ∀ text, EndsIn (fun result => ∀ item ∈ result.1, item.Storable) (fun _ => True)
    (readItems fuel text)
  members : ∀ text, EndsIn (fun result => ∀ member ∈ result.1, member.2.Storable) (fun _ => True)
    (readMembers fuel text)

variable {fuel : ℕ}

theorem ReadsWell.readValue (well : ReadsWell fuel) (text : List Char) :
    ReadsStorable (readValue (fuel + 1) text) := by
  have distinct : (Entries.keys ([] : Entries Json)).Nodup := List.nodup_nil
  have none : ∀ entry ∈ ([] : Entries Json), entry.2.Storable := List.forall_mem_nil _
  unfold Json.readValue
  split
  · trivial
  case h_2 same =>
    cases same
    split
    · exact .array (List.forall_mem_nil _)
    · exact (well.items _).bind fun result each => .array each
  case h_3 same =>
    cases same
    split
    · exact .object distinct none
    · exact (well.members _).bind fun result each =>
        .object (Entries.nodup_overlay distinct _) (Entries.forall_mem_overlay none each)
  · split
    · exact .text _
    · trivial
  · split
    · exact storable_of_readWord? ‹_›
    · exact readsStorable_readNumber _

theorem ReadsWell.readItems (well : ReadsWell fuel) (text : List Char) :
    EndsIn (fun result => ∀ item ∈ result.1, item.Storable) (fun _ => True)
      (readItems (fuel + 1) text) := by
  unfold Json.readItems
  refine (well.value text).bind fun first ofFirst => ?_
  dsimp only
  split
  · exact List.forall_mem_singleton.mpr ofFirst
  · refine (well.items _).bind fun rest ofRest => ?_
    exact List.forall_mem_cons.mpr ⟨ofFirst, ofRest⟩
  · trivial

theorem ReadsWell.readMembers (well : ReadsWell fuel) (text : List Char) :
    EndsIn (fun result => ∀ member ∈ result.1, member.2.Storable) (fun _ => True)
      (readMembers (fuel + 1) text) := by
  unfold Json.readMembers
  cases readKey text with
  | error fault => trivial
  | ok keyed =>
      refine (well.value keyed.2).bind fun first ofFirst => ?_
      dsimp only
      split
      · exact List.forall_mem_singleton.mpr ofFirst
      · refine (well.members _).bind fun rest ofRest => ?_
        exact List.forall_mem_cons.mpr ⟨ofFirst, ofRest⟩
      · trivial

theorem readsWell (fuel : ℕ) : ReadsWell fuel := by
  induction fuel with
  | zero => exact ⟨fun _ => trivial, fun _ => trivial, fun _ => trivial⟩
  | succ fuel ih => exact ⟨ih.readValue, ih.readItems, ih.readMembers⟩

/-- **Whatever is read can be stored.** -/
theorem storable_of_read {source : String} {value : Json} (read : Json.read source = .ok value) :
    value.Storable := by
  have ends := (readsWell (source.toList.length + 1)).value (skipSpace source.toList)
  unfold Json.read at read
  dsimp only at read
  split at read
  · cases read
  · rename_i found
    rw [found] at ends
    split at read
    · cases read
      exact ends
    · cases read

end Reckoner.Json
