import Reckoner.Decimal.Reader
import Reckoner.RowMatrix.Operation
import Reckoner.Text.Case

/-!
# Matrices in text

A matrix is written between brackets, its rows separated by semicolons and the entries of a row by
commas. Every group of brackets in an expression is one matrix; the text outside of the groups
tells the operation. A result with a single entry is a number.
-/

namespace Reckoner.RowMatrix

open Reckoner.Text

/-- A part of an expression: the text within a pair of brackets, or a character outside. -/
inductive Part where
  | group (body : List Char)
  | outside (c : Char)

/-- The characters up to the nearest bracket, and the text from it on. -/
def untilBracket (text : List Char) : List Char × List Char :=
  (text.takeWhile fun c => c != '[' && c != ']', text.dropWhile fun c => c != '[' && c != ']')

/-- The parts of an expression. A bracket without its counterpart stays outside. -/
def parts : List Char → List Part
  | [] => []
  | c :: text =>
      if c == '[' then
        match closed : (untilBracket text).2 with
        | ']' :: rest =>
            have : rest.length < text.length := by
              have suffix := (List.dropWhile_sublist (l := text)
                (fun c => c != '[' && c != ']')).length_le
              simp only [untilBracket] at closed
              rw [closed, List.length_cons] at suffix
              exact suffix
            .group (untilBracket text).1 :: parts rest
        | _ => .outside c :: parts text
      else .outside c :: parts text
termination_by text => text.length

/-- The texts of the matrices in an expression. -/
def bodies (text : List Char) : List (List Char) :=
  (parts text).filterMap fun
    | .group body => some body
    | .outside _ => none

/-- The text outside of the matrices, with a blank for each of them. -/
def outside (text : List Char) : List Char :=
  (parts text).map fun
    | .group _ => ' '
    | .outside c => c

/-- The entries of a row, if all of them are numbers. -/
def readRow? (text : List Char) : Option (List Float) :=
  (pieces ',' text).mapM fun piece => Decimal.readFloat? (strip piece)

/-- The matrix that the text between two brackets denotes. -/
def readBody (body : List Char) : Except Cause (RowMatrix Float) :=
  match (pieces ';' body).mapM readRow? with
  | none => .error (.matrixLiteral (String.ofList body))
  | some rows =>
      if isRectangular rows then .ok rows else .error (.raggedMatrix (String.ofList body))

/-- The matrices in an expression, from left to right. -/
def readAll (text : List Char) : Except Cause (List (RowMatrix Float)) :=
  (bodies text).mapM readBody

/-- The text of a matrix, which reads back up to the rounding of its entries. -/
def write (m : RowMatrix Float) : String :=
  "[" ++ join "; " (m.map fun row => join ", " (row.map traceNumber)) ++ "]"

/-- The text of a matrix that shows every digit of its entries. -/
def describe (m : RowMatrix Float) : String :=
  "MatrixResult([" ++
    join ", " (m.map fun row => "[" ++ join ", " (row.map Decimal.shortest) ++ "]") ++ "])"

/-- Two rows have equal entries. -/
def sameRow : List Float → List Float → Bool
  | [], [] => true
  | x :: xs, y :: ys => x == y && sameRow xs ys
  | _, _ => false

/-- Two matrices have equal entries in the same places. A non-number equals nothing. -/
def same : RowMatrix Float → RowMatrix Float → Bool
  | [], [] => true
  | x :: xs, y :: ys => sameRow x y && same xs ys
  | _, _ => false

/-- The words for operations, in the order in which they are looked for. -/
def keywords : List (List Char × MatrixOperation) :=
  [("transpose".toList, .transpose), ("trace".toList, .trace), ("inv".toList, .inverse)]

/-- The operation that the text outside of the matrices asks for: a sign before a word, and the
determinant without either. -/
def operationOf (text : List Char) : MatrixOperation :=
  let rest := outside text
  if rest.contains '×' || rest.contains '*' then .multiply
  else if rest.contains '+' then .add
  else if rest.contains '-' then .subtract
  else
    match keywords.find? fun (word, _) => occursIn word (lower rest) with
    | some (_, operation) => operation
    | none => .determinant

/-- The last code point of a character. -/
def lastCode : Nat := 0x10FFFF

/-- The step that shows the matrix with a number, the first one as A. -/
def matrixStep (m : RowMatrix Float) (index : Nat) : Except Cause String :=
  let code := 'A'.toNat + index
  if lastCode < code then .error .unexpected
  else .ok ("Matrix " ++ String.ofList [Char.ofNat code] ++ ": " ++ write m)

/-- The result of a matrix expression, and the steps that lead to it. -/
def evaluate (text : List Char) : Except Cause (RowMatrix Float × List String) := do
  let matrices ← readAll text
  let operation := operationOf text
  let shown ← matrices.zipIdx.mapM fun (m, i) => matrixStep m i
  let result ← operation.perform matrices
  return (result, shown ++ ["Matrix Operation: " ++ operation.name, "Result: " ++ write result])

/-- The only entry of a matrix of order one. -/
def entry? : RowMatrix Float → Option Float
  | [[value]] => some value
  | _ => none

end Reckoner.RowMatrix
