import Reckoner.Token.Juxtaposition

/-!
# Signs of products

After the signs of products have been inserted, no two tokens stand next to each other for a product
(`Reckoner.Token.signed_insertProducts`), and tokens that have all their signs stay as they are
(`Reckoner.Token.insertProducts_of_signed`).
-/

namespace Reckoner.Token

/-- No token stands next to the one before it for a product. -/
def Signed : Option Token → List Token → Prop
  | _, [] => True
  | previous, token :: rest =>
      (∀ before ∈ previous, juxtaposed before token = false) ∧ Signed (some token) rest

/-- A token that no product starts with can follow any token. -/
theorem juxtaposed_eq_false {token : Token} (before : Token)
    (starts : ∀ before, startsOperandAfter before token = false) :
    juxtaposed before token = false := by
  rw [juxtaposed, starts, Bool.and_false]

theorem signed_insertProductsAfter (previous : Token) (tokens : List Token) :
    Signed (some previous) (insertProductsAfter previous tokens) := by
  induction tokens generalizing previous with
  | nil => exact trivial
  | cons token rest ih =>
      cases together : juxtaposed previous token with
      | true =>
          rw [insertProductsAfter, if_pos together]
          refine ⟨fun before _ => juxtaposed_eq_false before fun _ => rfl, fun before is => ?_,
            ih token⟩
          cases is
          rfl
      | false =>
          rw [insertProductsAfter, if_neg (by rw [together]; exact Bool.false_ne_true)]
          refine ⟨fun before is => ?_, ih token⟩
          cases is
          exact together

theorem signed_insertProducts (tokens : List Token) : Signed none (insertProducts tokens) := by
  cases tokens with
  | nil => exact trivial
  | cons token rest => exact ⟨nofun, signed_insertProductsAfter token rest⟩

theorem insertProductsAfter_of_signed {previous : Token} {tokens : List Token}
    (signed : Signed (some previous) tokens) : insertProductsAfter previous tokens = tokens := by
  induction tokens generalizing previous with
  | nil => rfl
  | cons token rest ih =>
      have apart := signed.1 previous rfl
      rw [insertProductsAfter, if_neg (by rw [apart]; exact Bool.false_ne_true), ih signed.2]

theorem insertProducts_of_signed {tokens : List Token} (signed : Signed none tokens) :
    insertProducts tokens = tokens := by
  cases tokens with
  | nil => rfl
  | cons token rest => rw [insertProducts, insertProductsAfter_of_signed signed.2]

/-- The first tokens are the second ones with some signs of products left out where the operands next
to each other stand for the product. -/
inductive Elides : List Token → List Token → Prop
  | nil : Elides [] []
  | keep (token : Token) {tokens full : List Token} (ofRest : Elides tokens full) :
      Elides (token :: tokens) (token :: full)
  | product {token next : Token} {tokens full : List Token}
      (together : juxtaposed token next = true) (ofRest : Elides (next :: tokens) (next :: full)) :
      Elides (token :: next :: tokens) (token :: operator .multiply :: next :: full)

theorem Elides.refl (tokens : List Token) : Elides tokens tokens := by
  induction tokens with
  | nil => exact .nil
  | cons token rest ih => exact .keep token ih

theorem Elides.append {first second tokens full : List Token} (elides : Elides first second)
    (ofRest : Elides tokens full) : Elides (first ++ tokens) (second ++ full) := by
  induction elides with
  | nil => exact ofRest
  | keep token _ ih => exact .keep token ih
  | product together _ ih => exact .product together ih

theorem insertProductsAfter_of_elides {previous : Token} {tokens full : List Token}
    (elides : Elides tokens full) (signed : Signed (some previous) full) :
    insertProductsAfter previous tokens = full := by
  induction elides generalizing previous with
  | nil => rfl
  | keep token ofRest ih =>
      have apart := signed.1 previous rfl
      rw [insertProductsAfter, if_neg (by rw [apart]; exact Bool.false_ne_true), ih signed.2]
  | @product token next tokens full together ofRest ih =>
      obtain ⟨apart, _, further⟩ := signed
      have apart := apart previous rfl
      -- The tokens after the product are the same whatever stands before them.
      have after := ih further
      have loose := further.1 (operator .multiply) rfl
      rw [insertProductsAfter, if_neg (by rw [loose]; exact Bool.false_ne_true)] at after
      rw [insertProductsAfter, if_neg (by rw [apart]; exact Bool.false_ne_true),
        insertProductsAfter, if_pos together, after]

/-- **Signs of products that are left out are inserted.** -/
theorem insertProducts_of_elides {tokens full : List Token} (elides : Elides tokens full)
    (signed : Signed none full) : insertProducts tokens = full := by
  have same : insertProducts tokens = insertProductsAfter (operator .multiply) tokens := by
    cases tokens <;> rfl
  rw [same]
  apply insertProductsAfter_of_elides elides
  cases full with
  | nil => exact trivial
  | cons token rest =>
      refine ⟨fun before is => ?_, signed.2⟩
      cases is
      rfl

/-- The tokens with all signs of products are the tokens without them, and signs of products. -/
theorem mem_insertProductsAfter {previous token : Token} {tokens : List Token}
    (member : token ∈ insertProductsAfter previous tokens) :
    token ∈ tokens ∨ token = operator .multiply := by
  induction tokens generalizing previous with
  | nil => exact .inl member
  | cons first rest ih =>
      rw [insertProductsAfter] at member
      split at member
      · rcases List.mem_cons.mp member with is | member
        · exact .inr is
        · rcases List.mem_cons.mp member with is | member
          · exact .inl (List.mem_cons.mpr (.inl is))
          · exact (ih member).imp_left (List.mem_cons_of_mem _)
      · rcases List.mem_cons.mp member with is | member
        · exact .inl (List.mem_cons.mpr (.inl is))
        · exact (ih member).imp_left (List.mem_cons_of_mem _)

theorem mem_insertProducts {token : Token} {tokens : List Token}
    (member : token ∈ insertProducts tokens) : token ∈ tokens ∨ token = operator .multiply := by
  cases tokens with
  | nil => exact .inl member
  | cons first rest =>
      rcases List.mem_cons.mp member with is | member
      · exact .inl (List.mem_cons.mpr (.inl is))
      · exact (mem_insertProductsAfter member).imp_left (List.mem_cons_of_mem _)

end Reckoner.Token
