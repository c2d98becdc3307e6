import Reckoner.Token

/-!
# Products without a sign

Where an operand stands right before another one, their product is meant. Two numbers next to each
other are no product.
-/

namespace Reckoner.Token

/-- The token ends an operand. -/
def endsOperand : Token → Bool
  | number _ | identifier _ | closing => true
  | _ => false

/-- The token starts an operand when it stands right after the other one. -/
def startsOperandAfter (previous : Token) : Token → Bool
  | identifier _ | function _ | opening => true
  | number _ =>
      match previous with
      | number _ => false
      | _ => true
  | _ => false

/-- The two tokens stand next to each other for a product. -/
def juxtaposed (previous token : Token) : Bool :=
  previous.endsOperand && startsOperandAfter previous token

/-- The tokens after a given one, with the signs of products that are left out. -/
def insertProductsAfter (previous : Token) : List Token → List Token
  | [] => []
  | token :: rest =>
      if juxtaposed previous token then
        operator .multiply :: token :: insertProductsAfter token rest
      else token :: insertProductsAfter token rest

/-- The tokens with the signs of products that are left out. -/
def insertProducts : List Token → List Token
  | [] => []
  | token :: rest => token :: insertProductsAfter token rest

end Reckoner.Token
