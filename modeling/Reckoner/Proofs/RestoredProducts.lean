import Mathlib.Data.List.Chain
import Reckoner.Proofs.Juxtaposition

/-!
# Signs of products that are left out

Two tokens that stand next to each other for a product are a juxtaposition. Tokens without one stay
the same if any signs between such tokens are left out and inserted again; and for any tokens, what
is inserted are such signs, after which no juxtaposition is left
(`Reckoner.Token.insertProducts_restores`).
-/

namespace Reckoner.Token

/-- The first token ends an operand and the second one starts another: a number, a variable or a
closing parenthesis comes before a variable, a function, an opening parenthesis or, if it is no
number itself, before a number. -/
structure Juxtaposition (left right : Token) : Prop where
  ends : (∃ x, left = number x) ∨ (∃ name, left = identifier name) ∨ left = closing
  starts : (∃ name, right = identifier name) ∨ (∃ name, right = function name) ∨
    right = opening ∨ ((∃ x, right = number x) ∧ ∀ x, left ≠ number x)

theorem juxtaposition_iff {left right : Token} :
    Juxtaposition left right ↔ juxtaposed left right = true := by
  constructor
  · rintro ⟨ends, starts⟩
    rw [juxtaposed, Bool.and_eq_true]
    constructor
    · rcases ends with ⟨x, rfl⟩ | ⟨name, rfl⟩ | rfl <;> rfl
    · rcases starts with ⟨name, rfl⟩ | ⟨name, rfl⟩ | rfl | ⟨⟨x, rfl⟩, apart⟩
      · rfl
      · rfl
      · rfl
      · cases left with
        | number y => exact absurd rfl (apart y)
        | _ => rfl
  · intro together
    rw [juxtaposed, Bool.and_eq_true] at together
    obtain ⟨ends, starts⟩ := together
    constructor
    · cases left with
      | number x => exact .inl ⟨x, rfl⟩
      | identifier name => exact .inr (.inl ⟨name, rfl⟩)
      | closing => exact .inr (.inr rfl)
      | _ => cases ends
    · cases right with
      | identifier name => exact .inl ⟨name, rfl⟩
      | function name => exact .inr (.inl ⟨name, rfl⟩)
      | opening => exact .inr (.inr (.inl rfl))
      | number x =>
          refine .inr (.inr (.inr ⟨⟨x, rfl⟩, ?_⟩))
          rintro y rfl
          cases starts
      | _ => cases starts

instance (left right : Token) : Decidable (Juxtaposition left right) :=
  decidable_of_iff _ juxtaposition_iff.symm

theorem Juxtaposition.ne_product {left right : Token} (together : Juxtaposition left right) :
    left ≠ operator .multiply ∧ right ≠ operator .multiply := by
  rw [juxtaposition_iff] at together
  constructor
  · rintro rfl
    cases together
  · rintro rfl
    cases left <;> cases together

/-- No neighbours in the tokens are a juxtaposition. -/
def Unjoined (tokens : List Token) : Prop :=
  tokens.IsChain fun left right => ¬Juxtaposition left right

instance (tokens : List Token) : Decidable (Unjoined tokens) :=
  inferInstanceAs (Decidable (tokens.IsChain _))

theorem signed_some_iff {previous : Token} {tokens : List Token} :
    Signed (some previous) tokens ↔ Unjoined (previous :: tokens) := by
  induction tokens generalizing previous with
  | nil => exact ⟨fun _ => .singleton previous, fun _ => trivial⟩
  | cons token rest ih =>
      rw [Unjoined, List.isChain_cons_cons, ← Unjoined, ← ih, juxtaposition_iff, Bool.not_eq_true]
      constructor
      · exact fun signed => ⟨signed.1 previous rfl, signed.2⟩
      · rintro ⟨apart, signed⟩
        exact ⟨fun _ is => Option.some.inj is ▸ apart, signed⟩

theorem signed_none_iff {tokens : List Token} : Signed none tokens ↔ Unjoined tokens := by
  cases tokens with
  | nil => exact ⟨fun _ => .nil, fun _ => trivial⟩
  | cons token rest => exact ⟨fun signed => signed_some_iff.mp signed.2,
      fun chain => ⟨nofun, signed_some_iff.mpr chain⟩⟩

/-! ## Places of signs -/

/-- The tokens without those at some places, which are counted from zero. -/
def leaveOut (places : Nat → Bool) : List Token → List Token
  | [] => []
  | token :: rest =>
      if places 0 then leaveOut (fun i => places (i + 1)) rest
      else token :: leaveOut (fun i => places (i + 1)) rest

/-- At each of the places stands a sign of a product between two tokens that would be a
juxtaposition without it. -/
def Spare (places : Nat → Bool) (tokens : List Token) : Prop :=
  ∀ i, places i = true → ∃ front left right back,
    tokens = front ++ left :: operator .multiply :: right :: back ∧ i = front.length + 1 ∧
      Juxtaposition left right

namespace Spare

variable {places : Nat → Bool} {token : Token} {tokens : List Token}

theorem zero (spare : Spare places tokens) : places 0 = false := by
  rw [← Bool.not_eq_true]
  intro first
  obtain ⟨front, left, right, back, _, place, _⟩ := spare 0 first
  cases place

/-- The second of the tokens, if it can be spared. -/
theorem one (spare : Spare places (token :: tokens)) (second : places 1 = true) :
    ∃ right back, tokens = operator .multiply :: right :: back ∧ Juxtaposition token right := by
  obtain ⟨front, left, right, back, split, place, together⟩ := spare 1 second
  cases front with
  | nil =>
      cases split
      exact ⟨right, back, rfl, together⟩
  | cons first front => cases place

/-- Behind a first token and a second one that is kept, the same signs can be spared. -/
theorem tail (spare : Spare places (token :: tokens)) (kept : places 1 = false) :
    Spare (fun i => places (i + 1)) tokens := by
  intro i there
  obtain ⟨front, left, right, back, split, place, together⟩ := spare (i + 1) there
  cases front with
  | nil =>
      obtain rfl : i = 0 := Nat.succ.inj place
      have second : places 1 = true := there
      rw [kept] at second
      cases second
  | cons first front =>
      exact ⟨front, left, right, back, (List.cons.inj split).2, Nat.succ.inj place, together⟩

/-- The neighbours of a sign are no signs, so behind it the same signs can be spared as well. -/
theorem tail_tail (spare : Spare places (token :: operator .multiply :: tokens)) :
    Spare (fun i => places (i + 2)) tokens := by
  intro i there
  obtain ⟨front, left, right, back, split, place, together⟩ := spare (i + 2) there
  cases front with
  | nil => cases place
  | cons first front =>
      have split := (List.cons.inj split).2
      cases front with
      | nil => exact absurd (List.cons.inj split).1.symm together.ne_product.1
      | cons second front =>
          refine ⟨front, left, right, back, (List.cons.inj split).2, ?_, together⟩
          exact Nat.succ.inj (Nat.succ.inj place)

end Spare

theorem leaveOut_cons {places : Nat → Bool} {token : Token} {tokens : List Token}
    (kept : places 0 = false) : leaveOut places (token :: tokens) =
      token :: leaveOut (fun i => places (i + 1)) tokens := by
  rw [leaveOut, kept, if_neg Bool.false_ne_true]

/-- Without spare signs the tokens are elided ones. -/
theorem elides_leaveOut {places : Nat → Bool} {tokens : List Token} (spare : Spare places tokens) :
    Elides (leaveOut places tokens) tokens := by
  match tokens with
  | [] => exact .nil
  | token :: rest =>
      rw [leaveOut_cons spare.zero]
      cases second : places 1 with
      | false => exact .keep token (elides_leaveOut (spare.tail second))
      | true =>
          obtain ⟨right, back, rfl, together⟩ := spare.one second
          have further := spare.tail_tail
          have others := elides_leaveOut further
          rw [leaveOut_cons further.zero] at others
          rw [leaveOut, second, if_pos rfl, leaveOut_cons further.zero]
          exact .product (juxtaposition_iff.mp together) others
termination_by tokens.length

/-- Elided tokens are the full ones without spare signs. -/
theorem exists_spare_of_elides {tokens full : List Token} (elides : Elides tokens full) :
    ∃ places, Spare places full ∧ leaveOut places full = tokens := by
  induction elides with
  | nil => exact ⟨fun _ => false, fun _ there => (nomatch there), rfl⟩
  | @keep token tokens full _ ih =>
      obtain ⟨places, spare, rfl⟩ := ih
      refine ⟨fun i => i.casesOn false places, fun i there => ?_, rfl⟩
      cases i with
      | zero => cases there
      | succ i =>
          obtain ⟨front, left, right, back, rfl, rfl, joined⟩ := spare i there
          exact ⟨token :: front, left, right, back, rfl, rfl, joined⟩
  | @product token next tokens full together _ ih =>
      obtain ⟨places, spare, left⟩ := ih
      refine ⟨fun i => i.casesOn false fun i => i.casesOn true places, fun i there => ?_, ?_⟩
      · match i with
        | 0 => cases there
        | 1 => exact ⟨[], token, next, full, rfl, rfl, juxtaposition_iff.mpr together⟩
        | i + 2 =>
            obtain ⟨front, left, right, back, split, rfl, joined⟩ := spare i there
            exact ⟨token :: operator .multiply :: front, left, right, back,
              congrArg (token :: operator .multiply :: ·) split, rfl, joined⟩
      · exact congrArg (token :: ·) left

theorem elides_insertProductsAfter (previous : Token) (tokens : List Token) :
    Elides (previous :: tokens) (previous :: insertProductsAfter previous tokens) := by
  induction tokens generalizing previous with
  | nil => exact .refl _
  | cons token rest ih =>
      cases together : juxtaposed previous token with
      | true =>
          rw [insertProductsAfter, if_pos together]
          exact .product together (ih token)
      | false =>
          rw [insertProductsAfter, together, if_neg Bool.false_ne_true]
          exact .keep previous (ih token)

/-- Tokens are elided ones of what is made of them. -/
theorem elides_insertProducts (tokens : List Token) : Elides tokens (insertProducts tokens) := by
  cases tokens with
  | nil => exact .nil
  | cons token rest => exact elides_insertProductsAfter token rest

/-- **Signs of products that are left out are restored.** In tokens without a juxtaposition, any
signs between two tokens that would be one are inserted again if they are left out. Whatever the
tokens, what is made of them has no juxtaposition, differs from them by such signs only, and stays
the same when it is made again. -/
theorem insertProducts_restores :
    (∀ tokens places, Unjoined tokens → Spare places tokens →
      insertProducts (leaveOut places tokens) = tokens) ∧
    ∀ tokens, Unjoined (insertProducts tokens) ∧
      (∃ places, Spare places (insertProducts tokens) ∧
        leaveOut places (insertProducts tokens) = tokens) ∧
      insertProducts (insertProducts tokens) = insertProducts tokens := by
  refine ⟨fun tokens places unjoined spare => ?_, fun tokens => ⟨?_, ?_, ?_⟩⟩
  · exact insertProducts_of_elides (elides_leaveOut spare) (signed_none_iff.mpr unjoined)
  · exact signed_none_iff.mp (signed_insertProducts tokens)
  · exact exists_spare_of_elides (elides_insertProducts tokens)
  · exact insertProducts_of_signed (signed_insertProducts tokens)

/-- Of `2 * x * (3) * 4` two signs are left out, and `2 x * (3) 4` gets them back. -/
theorem insertProducts_restores_two_signs :
    let full := [number 2, operator .multiply, identifier "x", operator .multiply, opening,
      number 3, closing, operator .multiply, number 4]
    let places := fun i => i == 1 || i == 7
    Unjoined full ∧ Spare places full ∧ leaveOut places full = [number 2, identifier "x",
      operator .multiply, opening, number 3, closing, number 4] ∧
      insertProducts (leaveOut places full) = full := by
  intro full places
  have unjoined : Unjoined full := by decide
  have spare : Spare places full := by
    intro i there
    rcases (Bool.or_eq_true _ _).mp there with first | second
    · obtain rfl := beq_iff_eq.mp first
      exact ⟨[], _, _, _, rfl, rfl, by decide⟩
    · obtain rfl := beq_iff_eq.mp second
      exact ⟨[_, _, _, _, _, _], _, _, _, rfl, rfl, by decide⟩
  exact ⟨unjoined, spare, rfl, insertProducts_restores.1 full places unjoined spare⟩

end Reckoner.Token
