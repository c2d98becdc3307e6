import Reckoner.Decimal.Binary
import Reckoner.Json.Basic

/-!
# Comparing JSON values

Numbers of either kind are compared by their exact values, and a truth value counts as zero or one.
Texts are ordered by their code points and lists by their first items that differ; no other values
can be compared. Nothing is at most the non-number, nor is it at most anything.
-/

namespace Reckoner.Json

/-- The exact value of a number that is neither infinite nor the non-number. -/
def exactValue? : Json → Option Rat
  | .bool b => some (if b then 1 else 0)
  | .integer n => some n
  | .double x => if x.isFinite then some (Decimal.exact x) else none
  | _ => none

/-- The double of an infinite value or the non-number. -/
def special? : Json → Option Float
  | .double x => if x.isFinite then none else some x
  | _ => none

/-- The first number is at most the second; nothing is known of values that are no numbers. -/
def atMostNumber? (a b : Json) : Option Bool :=
  match exactValue? a, exactValue? b, special? a, special? b with
  | some x, some y, _, _ => some (x ≤ y)
  | some _, _, _, some y => some (0 < y)
  | _, some _, some x, _ => some (x < 0)
  | _, _, some x, some y => some (x ≤ y)
  | _, _, _, _ => none

mutual

/-- Two values are equal. -/
def same (a b : Json) : Bool :=
  match a, b with
  | .null, .null => true
  | .text s, .text t => s == t
  | .array xs, .array ys => sameItems xs ys
  | .object xs, .object ys => xs.length == ys.length && sameMembers xs ys
  | a, b => atMostNumber? a b == some true && atMostNumber? b a == some true

/-- Two lists of values are equal. -/
def sameItems : List Json → List Json → Bool
  | [], [] => true
  | x :: xs, y :: ys => same x y && sameItems xs ys
  | _, _ => false

/-- The members of an object are among those of another. -/
def sameMembers : List (String × Json) → List (String × Json) → Bool
  | [], _ => true
  | (key, x) :: xs, ys =>
      (match Entries.get? ys key with
        | some y => same x y
        | none => false) && sameMembers xs ys

end

mutual

/-- The first value is at most the second. Only numbers, texts and lists can be compared, each with
their like. -/
def atMost? : Json → Json → Option Bool
  | .text s, .text t => some (s ≤ t)
  | .array xs, .array ys => atMostItems? xs ys
  | a, b => atMostNumber? a b

/-- Lists are compared by their first items that differ. -/
def atMostItems? : List Json → List Json → Option Bool
  | [], _ => some true
  | _ :: _, [] => some false
  | x :: xs, y :: ys => if same x y then atMostItems? xs ys else atMost? x y

end

end Reckoner.Json
