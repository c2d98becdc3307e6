import Reckoner.Proofs.Equation.Value
import Reckoner.Proofs.LexemeReplacement
import Reckoner.Proofs.Meaning

/-!
# Texts of sides

A text of a side has blanks anywhere between its words (`Reckoner.Equation.Spread`). With a number
written in the place of the unknown it is read as the tokens of the side, and it evaluates to the
value of its arithmetic (`Reckoner.Equation.outcome_evaluate_constant`,
`Reckoner.Equation.outcome_evaluate_bound`).
-/

namespace Reckoner.Equation

open Text Token Substitution Outcome

open Decimal (IsDecimal IsPower)

open Expression (Written atomic)

/-! ## Words -/

/-- A word of a side. -/
inductive Lexeme
  | sign (sign : Sign)
  | joint (joint : Joint)
  | literal (literal : Literal)
  | unknown

/-- The characters of a word, with a name for the unknown. -/
def Lexeme.text (name : List Char) : Lexeme → List Char
  | .sign kind => [kind.char]
  | .joint kind => [kind.char]
  | .literal decimal => decimal.text
  | .unknown => name

/-- The tokens of a word, with other tokens in the place of the unknown. -/
def Lexeme.tokens (hole : List Token) : Lexeme → List Token
  | .sign kind => [operator kind.op]
  | .joint kind => [operator kind.op]
  | .literal decimal => [number decimal.value]
  | .unknown => hole

def Factor.lexemes (factor : Factor) : List Lexeme :=
  factor.signs.map .sign ++ [.literal factor.literal]

/-- The words of further factors. -/
def partLexemes (rest : List (Joint × Factor)) : List Lexeme :=
  rest.flatMap fun part => .joint part.1 :: part.2.lexemes

def Chain.lexemes (chain : Chain) : List Lexeme :=
  chain.first.lexemes ++ partLexemes chain.rest

def Coefficient.lexemes (coefficient : Coefficient) : List Lexeme :=
  .literal coefficient.literal :: if coefficient.times then [.joint .times] else []

def UnknownTerm.lexemes (term : UnknownTerm) : List Lexeme :=
  term.sign.toList.map .sign ++
    (term.coefficient.elim [] Coefficient.lexemes ++ .unknown :: partLexemes term.divisors)

def Term.lexemes : Term → List Lexeme
  | constant chain => chain.lexemes
  | multiple term => term.lexemes

def Side.lexemes (side : Side) : List Lexeme :=
  side.terms.flatMap Term.lexemes

/-! ## Neighbours -/

/-- The word is an operator. -/
def Lexeme.operates : Lexeme → Bool
  | .sign _ | .joint _ => true
  | _ => false

/-- How words follow each other inside a term: after an operand comes the sign of a product or of a
quotient, and the unknown can stand right behind its coefficient. -/
def Inside (word next : Lexeme) : Prop :=
  word.operates = true ∨ (∃ joint, next = .joint joint) ∨
    ∃ literal, word = .literal literal ∧ next = .unknown

/-- How words follow each other in a side. -/
def Apart (word next : Lexeme) : Prop :=
  word.operates = true ∨ next.operates = true ∨ ∃ literal, word = .literal literal ∧ next = .unknown

theorem apart_of_inside {word next : Lexeme} (inside : Inside word next) : Apart word next := by
  rcases inside with operates | ⟨joint, rfl⟩ | unknown
  · exact .inl operates
  · exact .inr (.inl rfl)
  · exact .inr (.inr unknown)

/-- Neither a number nor the unknown stands right before a number. -/
theorem not_apart_literal {word : Lexeme} (operand : word.operates = false) (literal : Literal) :
    ¬Apart word (.literal literal) := by
  rintro (operates | operates | ⟨_, _, is⟩)
  · rw [operand] at operates
    cases operates
  · cases operates
  · cases is

theorem operates_of_apart_unknown {next : Lexeme} (apart : Apart .unknown next) :
    next.operates = true := by
  rcases apart with operates | operates | ⟨_, is, _⟩
  · cases operates
  · exact operates
  · cases is

section Chain

variable {words rest : List Lexeme}

theorem chain_signs (signs : List Sign) (chain : rest.IsChain Inside) :
    (signs.map Lexeme.sign ++ rest).IsChain Inside := by
  induction signs with
  | nil => exact chain
  | cons sign signs ih => exact List.isChain_cons.mpr ⟨fun _ _ => .inl rfl, ih⟩

/-- Further factors go on a term. -/
theorem chain_parts (chain : words.IsChain Inside) (parts : List (Joint × Factor)) :
    (words ++ partLexemes parts).IsChain Inside := by
  induction parts generalizing words with
  | nil =>
      rw [partLexemes, List.flatMap_nil, List.append_nil]
      exact chain
  | cons part parts ih =>
      have ofPart : (Lexeme.joint part.1 :: part.2.lexemes).IsChain Inside :=
        List.isChain_cons.mpr ⟨fun _ _ => .inl rfl, chain_signs part.2.signs (.singleton _)⟩
      have further := ih (chain.append ofPart fun word _ next is => by
        cases is
        exact .inr (.inl ⟨_, rfl⟩))
      rwa [List.append_assoc] at further

theorem chain_term (term : Term) : term.lexemes.IsChain Inside := by
  cases term with
  | constant chain => exact chain_parts (chain_signs chain.first.signs (.singleton _)) chain.rest
  | multiple term =>
      refine chain_signs _ ?_
      rw [← List.singleton_append, ← List.append_assoc]
      apply chain_parts
      cases term.coefficient with
      | none => exact .singleton _
      | some coefficient =>
          have behind : Inside (.literal coefficient.literal) .unknown := .inr (.inr ⟨_, rfl, rfl⟩)
          have product : Inside (.literal coefficient.literal) (.joint .times) :=
            .inr (.inl ⟨_, rfl⟩)
          rw [Option.elim_some, Coefficient.lexemes]
          cases coefficient.times with
          | true => exact .cons_cons product (.cons_cons (.inl rfl) (.singleton _))
          | false => exact .cons_cons behind (.singleton _)

theorem lexemes_eq_signs (term : Term) :
    ∃ rest, term.lexemes = term.signs.map Lexeme.sign ++ rest := by
  cases term with
  | constant chain => exact ⟨_, List.append_assoc _ _ _⟩
  | multiple term => exact ⟨_, rfl⟩

/-- A term with signs starts with the first of them. -/
theorem lexemes_eq_sign {term : Term} (signed : term.signs ≠ []) :
    ∃ sign rest, term.lexemes = .sign sign :: rest := by
  obtain ⟨sign, signs, is⟩ := List.exists_cons_of_ne_nil signed
  obtain ⟨rest, words⟩ := lexemes_eq_signs term
  rw [is] at words
  exact ⟨sign, _, words⟩

theorem chain_terms {terms : List Term} (chain : words.IsChain Apart)
    (signed : ∀ term ∈ terms, term.signs ≠ []) :
    (words ++ terms.flatMap Term.lexemes).IsChain Apart := by
  induction terms generalizing words with
  | nil =>
      rw [List.flatMap_nil, List.append_nil]
      exact chain
  | cons term terms ih =>
      obtain ⟨sign, rest, is⟩ := lexemes_eq_sign (signed term List.mem_cons_self)
      have ofTerm := (chain_term term).imp fun _ _ => apart_of_inside
      have further := ih (chain.append ofTerm fun word _ next isNext => by
          rw [is] at isNext
          cases isNext
          exact .inr (.inl rfl)) fun other member => signed other (List.mem_cons_of_mem _ member)
      rwa [List.append_assoc] at further

theorem chain_side (side : Side) : side.lexemes.IsChain Apart :=
  chain_terms ((chain_term side.first).imp fun _ _ => apart_of_inside) side.signed

end Chain

/-! ## Texts with blanks -/

/-- The text is made of the words, with blanks anywhere between them. -/
inductive Spread (name : List Char) : List Lexeme → List Char → Prop
  | nil : Spread name [] []
  | blank {words : List Lexeme} {c : Char} {text : List Char} (isBlank : isBlank c = true)
      (ofRest : Spread name words text) : Spread name words (c :: text)
  | word {words : List Lexeme} {text : List Char} (first : Lexeme)
      (ofRest : Spread name words text) : Spread name (first :: words) (first.text name ++ text)

theorem isBoundary_sign (sign : Sign) : isBoundary sign.char = true := by
  cases sign <;> decide

theorem isBoundary_joint (joint : Joint) : isBoundary joint.char = true := by
  cases joint <;> decide

section Spread

variable {name : List Char} {words : List Lexeme} {text : List Char}

/-- A text without a number or the unknown at its start is at a boundary. -/
theorem atBoundary_of_spread (spread : Spread name words text)
    (operates : ∀ first ∈ words.head?, first.operates = true) : AtBoundary text := by
  cases spread with
  | nil => exact atBoundary_nil
  | blank isBlank ofRest => exact atBoundary_cons (isBoundary_of_isBlank isBlank)
  | word first ofRest =>
      cases first with
      | sign sign => exact atBoundary_cons (isBoundary_sign sign)
      | joint joint => exact atBoundary_cons (isBoundary_joint joint)
      | literal literal => cases operates _ rfl
      | unknown => cases operates _ rfl

theorem atBoundary_behind_unknown (spread : Spread name words text)
    (neighbour : ∀ next ∈ words.head?, Apart .unknown next) : AtBoundary text :=
  atBoundary_of_spread spread fun next is => operates_of_apart_unknown (neighbour next is)

/-- Without the unknown among the words its name makes no difference. -/
theorem spread_congr (named : Lexeme.unknown ∉ words) (spread : Spread name words text)
    (other : List Char) : Spread other words text := by
  induction spread with
  | nil => exact .nil
  | blank isBlank ofRest ih => exact .blank isBlank (ih named)
  | word first ofRest ih =>
      obtain ⟨different, further⟩ := not_or.mp (List.mem_cons.not.mp named)
      cases first with
      | sign sign => exact .word (.sign sign) (ih further)
      | joint joint => exact .word (.joint joint) (ih further)
      | literal literal => exact .word (.literal literal) (ih further)
      | unknown => exact absurd rfl different

/-- **The words of a text are read**, with a number in the place of the unknown. -/
theorem lexemes_of_spread {x : Float} (finite : x.isFinite = true)
    (spread : Spread (enclosed x) words text) (chain : words.IsChain Apart)
    (before : Option Char) :
    Lexemes before text (words.flatMap (Lexeme.tokens (enclosedTokens x))) := by
  induction spread generalizing before with
  | nil => exact .nil
  | blank isBlank ofRest ih => exact .blank isBlank (ih chain _)
  | @word words text first ofRest ih =>
      obtain ⟨neighbour, ofWords⟩ := List.isChain_cons.mp chain
      have further := ih ofWords
      cases first with
      | sign sign =>
          cases sign with
          | plus => exact .symbol (c := '+') (by decide) rfl (further _)
          | minus => exact .symbol (c := '-') (by decide) rfl (further _)
      | joint joint =>
          cases joint with
          | times => exact .symbol (c := '*') (by decide) rfl (further _)
          | per => exact .symbol (c := '/') (by decide) rfl (further _)
      | literal literal =>
          have ends : AtBoundary text := by
            cases ofRest with
            | nil => exact atBoundary_nil
            | blank isBlank ofRest => exact atBoundary_cons (isBoundary_of_isBlank isBlank)
            | word next ofRest =>
                cases next with
                | sign sign => exact atBoundary_cons (isBoundary_sign sign)
                | joint joint => exact atBoundary_cons (isBoundary_joint joint)
                | literal other => exact absurd (neighbour _ rfl) (not_apart_literal rfl other)
                | unknown => exact @atBoundary_cons '(' _ (by decide)
          have whole := Lexemes.number literal.isDecimal .none (numberEnds_of_atBoundary ends)
            (further (lastOf before (literal.text ++ [])))
          rw [List.append_nil] at whole
          exact whole
      | unknown => exact lexemes_enclosed finite (further _)

end Spread

/-! ## Writing a number for the unknown -/

/-- The letter is one that some constant is looked for by. -/
def isConstantLetter (v : Char) : Bool :=
  constants.any fun entry => accepts (constantPattern entry.1).spelling [v]

section Replace

variable {pattern : Pattern} {v : Char} {words : List Lexeme} {text : List Char}

/-- A single letter is found by a pattern only if the pattern accepts it. -/
theorem find?_letter_eq_none (fair : pattern.Fair) (rejected : accepts pattern.spelling [v] = false)
    {rest : List Char} (ends : startsWithLetter rest = false) (before : Option Char) :
    pattern.find? before (v :: rest) = none := by
  cases outside : before.any isWordLetter with
  | true => exact find?_of_letter outside _
  | false =>
      cases letter : isWordLetter v with
      | false => exact find?_of_head fair letter
      | true =>
          have found := find?_word fair outside (List.forall_mem_singleton.mpr letter) ends
          rw [rejected] at found
          exact found

theorem literal_ne_nil (literal : Literal) : literal.text ≠ [] := by
  obtain ⟨first, rest, is, _⟩ := Decimal.head_of_isDecimal literal.isDecimal
  rw [is]
  exact nofun

theorem lexeme_ne_nil {name : List Char} (some : name ≠ []) (word : Lexeme) :
    word.text name ≠ [] := by
  cases word with
  | literal literal => exact literal_ne_nil literal
  | unknown => exact some
  | _ => exact nofun

theorem any_lastOf_others {word : List Char} (others : ∀ c ∈ word, isWordLetter c = false)
    (some : word ≠ []) {before : Option Char} : (lastOf before word).any isWordLetter = false := by
  induction word generalizing before with
  | nil => exact absurd rfl some
  | cons c word ih =>
      obtain ⟨other, further⟩ := List.forall_mem_cons.mp others
      cases word with
      | nil => exact other
      | cons d word => exact @ih further nofun (.some c)

theorem lexeme_others {word : Lexeme} (named : word ≠ .unknown) (name : List Char) :
    ∀ c ∈ word.text name, isWordLetter c = false := by
  cases word with
  | sign sign => exact List.forall_mem_singleton.mpr (isWordLetter_of_isBoundary (isBoundary_sign _))
  | joint joint =>
      exact List.forall_mem_singleton.mpr (isWordLetter_of_isBoundary (isBoundary_joint _))
  | literal literal => exact not_letter_of_isDecimal literal.isDecimal
  | unknown => exact absurd rfl named

/-- What a replacement makes of a text with the unknown, if it makes the same of the unknown wherever
it stands. -/
theorem spread_replaceFrom (fair : pattern.Fair) {insert other : List Char}
    (replaced : Lexeme.unknown ∈ words → ∀ before rest, before.any isWordLetter = false →
      AtBoundary rest → replaceFrom pattern insert 0 before (v :: rest) =
        other ++ replaceFrom pattern insert 0 (some v) rest)
    (spread : Spread [v] words text) (chain : words.IsChain Apart) {before : Option Char}
    (apart : words.head? = some .unknown → before.any isWordLetter = false) :
    Spread other words (replaceFrom pattern insert 0 before text) := by
  induction spread generalizing before with
  | nil => exact .nil
  | @blank words c text isBlank ofRest ih =>
      have stops := isWordLetter_of_isBoundary (isBoundary_of_isBlank isBlank)
      rw [replaceFrom_cons fair _ stops]
      exact .blank isBlank (ih replaced chain fun _ => stops)
  | @word words text first ofRest ih =>
      obtain ⟨neighbour, ofWords⟩ := List.isChain_cons.mp chain
      have within : Lexeme.unknown ∈ words → _ :=
        fun member => replaced (List.mem_cons_of_mem _ member)
      by_cases named : first = .unknown
      · subst named
        have ends := atBoundary_behind_unknown ofRest neighbour
        have same := replaced List.mem_cons_self before text (apart rfl) ends
        have further := @ih within ofWords (some v) fun is =>
          absurd (operates_of_apart_unknown (neighbour _ is)) Bool.false_ne_true
        change Spread other _ (replaceFrom pattern insert 0 before (v :: text))
        rw [same]
        exact .word .unknown further
      · have others := lexeme_others named [v]
        have texts : first.text [v] = first.text other := by
          cases first with
          | unknown => exact absurd rfl named
          | _ => rfl
        rw [replaceFrom_others fair others, texts]
        refine .word first (ih within ofWords fun is => ?_)
        rw [← texts]
        exact any_lastOf_others others (lexeme_ne_nil (List.cons_ne_nil v []) first)

/-- Rules that do not go by the letter leave a text as it is. -/
theorem spread_writeAll {rules : List Rule} (fair : ∀ rule ∈ rules, rule.Fair)
    (rejected : Lexeme.unknown ∈ words →
      ∀ rule ∈ rules, accepts rule.pattern.spelling [v] = false)
    (spread : Spread [v] words text) (chain : words.IsChain Apart) :
    Spread [v] words (writeAll rules text) := by
  induction rules generalizing text with
  | nil => exact spread
  | cons rule rules ih =>
      obtain ⟨ofRule, ofRules⟩ := List.forall_mem_cons.mp fair
      refine ih ofRules (fun member other inside =>
        rejected member other (List.mem_cons_of_mem _ inside)) ?_
      refine spread_replaceFrom ofRule.pattern (fun member before rest _ ends => ?_) spread chain
        fun _ => rfl
      exact replaceFrom_of_none (find?_letter_eq_none ofRule.pattern
        (rejected member rule List.mem_cons_self) (startsWithLetter_of_atBoundary ends) before)

theorem spread_writeConstants (free : Lexeme.unknown ∈ words → isConstantLetter v = false)
    (spread : Spread [v] words text) (chain : words.IsChain Apart) :
    Spread [v] words (writeAll (constants.map constantRule) text) := by
  refine spread_writeAll (List.forall_mem_map.mpr fun entry => fair_constantRule) ?_ spread chain
  intro member
  refine List.forall_mem_map.mpr fun entry inside => ?_
  exact Bool.not_eq_true _ ▸ List.any_eq_false.mp (free member) entry inside

/-- **A number is written in the place of the unknown.** -/
theorem exists_substitute {value : BoundValue} {x : Float} (double : value.toDouble = .ok x)
    (finite : x.isFinite = true) (sound : Bindings.fault? (String.ofList [v]) value = none)
    (free : isConstantLetter v = false) (spread : Spread [v] words text)
    (chain : words.IsChain Apart) :
    ∃ result, substitute text [(String.ofList [v], value)] = .ok result ∧
      Spread (enclosed x) words result := by
  have checked : Bindings.check [(String.ofList [v], value)] = .ok () :=
    Bindings.check_singleton.mpr sound
  have bounded : Bindings.Finite [(String.ofList [v], value)] :=
    List.forall_mem_singleton.mpr ⟨x, double, finite⟩
  have fair : Pattern.Fair ⟨exactly [v], false⟩ := by
    have named := fair_exactly sound
    rwa [String.toList_ofList] at named
  refine ⟨_, substitute_eq checked bounded text, ?_⟩
  rw [writeAll, List.foldl_append, Bindings.texts_singleton, bindingRules, double]
  change Spread (enclosed x) words (replace ⟨exactly (String.ofList [v]).toList, false⟩ _ _)
  rw [String.toList_ofList]
  refine spread_replaceFrom fair (fun _ before rest apart ends => ?_)
    (spread_writeConstants (fun _ => free) spread chain) chain fun _ => rfl
  have unmarked : isExponentMark before [v] rest = false := by
    have lower : ([v] == ['e']) = false := beq_false_of_ne fun is => by
      obtain ⟨rfl, _⟩ := List.cons.inj is
      exact absurd free (by decide)
    have upper : ([v] == ['E']) = false := beq_false_of_ne fun is => by
      obtain ⟨rfl, _⟩ := List.cons.inj is
      exact absurd free (by decide)
    unfold isExponentMark
    rw [lower, upper]
    rfl
  have written : Pattern.writesFor ⟨exactly [v], false⟩ before [v] rest = true := by
    rw [Pattern.writesFor, accepts_exactly, unmarked]
    simp
  have letter : ∀ c ∈ [v], isWordLetter c = true := by
    rw [List.forall_mem_singleton]
    exact fair.letters [v] List.mem_cons_self v List.mem_cons_self
  change replaceFrom _ _ 0 before ([v] ++ rest) = _
  rw [replaceFrom_run fair apart (List.cons_ne_nil v []) letter
    (startsWithLetter_of_atBoundary ends), written]
  rfl

end Replace

/-! ## Tokens of words -/

section Tokens

variable {hole : List Token}

theorem tokens_signs (signs : List Sign) :
    (signs.map Lexeme.sign).flatMap (Lexeme.tokens hole) = signTokens signs := by
  rw [List.flatMap_map]
  exact List.flatMap_pure_eq_map _ signs

theorem tokens_factor (factor : Factor) :
    factor.lexemes.flatMap (Lexeme.tokens hole) = factor.tokens := by
  rw [Factor.lexemes, List.flatMap_append, tokens_signs]
  rfl

theorem tokens_parts (rest : List (Joint × Factor)) :
    (partLexemes rest).flatMap (Lexeme.tokens hole) = partTokens rest := by
  rw [partLexemes, List.flatMap_assoc, partTokens]
  refine congrArg (List.flatMap · rest) (funext fun part => ?_)
  rw [List.flatMap_cons, tokens_factor]
  rfl

theorem tokens_chain (chain : Chain) :
    chain.lexemes.flatMap (Lexeme.tokens hole) = (Term.constant chain).tokens hole := by
  rw [Chain.lexemes, List.flatMap_append, tokens_factor, tokens_parts, Factor.tokens,
    List.append_assoc]
  rfl

variable {first : Token} {inside : List Token}
  (together : ∀ value, juxtaposed (number value) first = true)

include together

/-- The tokens of a term without the signs of products that its words do not have. -/
theorem elides_term (term : Term) :
    Elides (term.lexemes.flatMap (Lexeme.tokens (first :: inside)))
      (term.tokens (first :: inside)) := by
  cases term with
  | constant chain =>
      rw [Term.lexemes, tokens_chain]
      exact .refl _
  | multiple term =>
      rw [Term.lexemes, UnknownTerm.lexemes, List.flatMap_append, tokens_signs, Term.tokens]
      refine (Elides.refl _).append ?_
      rw [List.flatMap_append, List.flatMap_cons, tokens_parts, ← List.append_assoc]
      refine Elides.append ?_ (.refl _)
      cases term.coefficient with
      | none => exact .refl _
      | some coefficient =>
          rw [Option.elim_some, Coefficient.lexemes]
          cases coefficient.times with
          | true => exact .refl _
          | false => exact .product (together _) (.refl _)

theorem elides_side (side : Side) :
    Elides (side.lexemes.flatMap (Lexeme.tokens (first :: inside)))
      (side.tokens (first :: inside)) := by
  rw [Side.lexemes, Side.tokens]
  induction side.terms with
  | nil => exact .nil
  | cons term terms ih =>
      rw [List.flatMap_cons, List.flatMap_append, List.flatMap_cons]
      exact (elides_term together term).append ih

end Tokens

/-! ## Evaluation -/

section Evaluation

variable {v : Char} {words : List Lexeme} {text : List Char} {bindings : Bindings} {x : Float}

/-- Once a number has been written for the unknown, a text has the value of the arithmetic, or fails
as it does. -/
theorem outcome_of_substituted {side : Side} {result : List Char} (bounded : x.isFinite = true)
    (substituted : substitute text bindings = .ok result)
    (spread : Spread (enclosed x) side.lexemes result) (settings : Settings) :
    (Scalar.evaluate text bindings settings).outcome.map Prod.fst =
      ((side.arithmetic.tree (Expression.literal x)).value settings.degrees
        Expression.unbound).mapError Expression.reported := by
  have read := lexemes_of_spread bounded spread (chain_side side) none
  obtain ⟨level, written⟩ := @Side.written (fun _ => False) (Expression.literal x)
    (enclosedTokens x) (Expression.written_enclosed x) side
  have arranged := Expression.arranged_of_written written
  have inserted := insertProducts_of_elides (elides_side (fun _ => rfl) side) arranged.signed
  have some : side.lexemes.flatMap (Lexeme.tokens (enclosedTokens x)) ≠ [] := by
    intro none
    obtain ⟨last, isLast, _⟩ := arranged.ended
    unfold enclosedTokens at none
    rw [none] at inserted
    unfold enclosedTokens at isLast
    rw [← inserted] at isLast
    cases isLast
  have tokens := Scalar.tokens_eq_ok.mpr ⟨result, _, substituted,
    @scan_of_lexemes _ settings.lenient none _ read, some, inserted⟩
  have wellFormed : (Expression.literal x).WellFormed := by
    unfold Expression.literal
    cases Decimal.signBit x with
    | false => exact .number x
    | true => exact .negation (.number (-x))
  exact Scalar.outcome_of_tokens tokens written (wellFormed_tree wellFormed side.arithmetic)

/-- **A text of constants has the value of its arithmetic**, or fails as it does. -/
theorem outcome_evaluate_constant {side : Side} (named : Lexeme.unknown ∉ side.lexemes)
    {name : List Char} (spread : Spread name side.lexemes text) (settings : Settings) :
    (Scalar.evaluate text [] settings).outcome.map Prod.fst =
      ((side.arithmetic.tree (Expression.literal 0)).value settings.degrees
        Expression.unbound).mapError Expression.reported := by
  have spread := spread_congr named spread ['x']
  have written := spread_writeConstants (fun member => absurd member named) spread (chain_side side)
  have substituted := @substitute_eq [] rfl nofun text
  rw [Bindings.texts_nil, bindingRules, List.append_nil] at substituted
  exact outcome_of_substituted (by decide) substituted (spread_congr named written _) settings

/-- **A text of a side has the value of its arithmetic** where the unknown is bound, or fails as it
does. -/
theorem outcome_evaluate_bound {side : Side} {v : Char} {value : BoundValue}
    (double : value.toDouble = .ok x) (bounded : x.isFinite = true)
    (sound : Bindings.fault? (String.ofList [v]) value = none) (free : isConstantLetter v = false)
    (spread : Spread [v] side.lexemes text) (settings : Settings) :
    (Scalar.evaluate text [(String.ofList [v], value)] settings).outcome.map Prod.fst =
      ((side.arithmetic.tree (Expression.literal x)).value settings.degrees
        Expression.unbound).mapError Expression.reported := by
  obtain ⟨result, substituted, written⟩ :=
    exists_substitute double bounded sound free spread (chain_side side)
  exact outcome_of_substituted bounded substituted written settings

end Evaluation

end Reckoner.Equation
