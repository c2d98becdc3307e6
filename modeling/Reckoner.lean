import Reckoner.CommandLine.Installation
import Reckoner.Main
import Reckoner.Proofs.Acceptance
import Reckoner.Proofs.Characters
import Reckoner.Proofs.Conversion
import Reckoner.Proofs.Expression
import Reckoner.Proofs.Grammar
import Reckoner.Proofs.Juxtaposition
import Reckoner.Proofs.Meaning
import Reckoner.Proofs.Outcome
import Reckoner.Proofs.Reading
import Reckoner.Proofs.StackMachine
import Reckoner.Proofs.Stages
import Reckoner.Proofs.Writing
import Reckoner.Proofs.Decimal.Readable
import Reckoner.Proofs.Ending
import Reckoner.Proofs.RowMatrix.Shaped
import Reckoner.Proofs.RowMatrix.Determinant
import Reckoner.Proofs.RowMatrix.Inverse
import Reckoner.Proofs.ScalarFailures
import Reckoner.Proofs.EquationTerms
import Reckoner.Proofs.InternalFailures
import Reckoner.Proofs.Lexemes
import Reckoner.Proofs.Reaching
import Reckoner.Proofs.LexemeReplacement
import Reckoner.Proofs.TokenSubstitution
import Reckoner.Proofs.Equation.Side
import Reckoner.Proofs.Equation.Value
import Reckoner.Proofs.Equation.Spacing
import Reckoner.Proofs.Equation.Splitting
import Reckoner.Proofs.Equation.Coefficient
import Reckoner.Proofs.Equation.CutAtSigns
import Reckoner.Proofs.Equation.Solution
import Reckoner.Proofs.Equation.SingleUnknown
import Reckoner.Proofs.Equation.Recognition
import Reckoner.Proofs.Equation.Inversion
import Reckoner.Proofs.Equation.WellSpelled
import Reckoner.Proofs.Equation.Rational
import Reckoner.Proofs.Equation.Answered
import Reckoner.Proofs.Requested
import Reckoner.Proofs.Json.Soundness
import Reckoner.Proofs.Persistence
import Reckoner.Proofs.StoredSettings
import Reckoner.Proofs.AngleWords
import Reckoner.Proofs.BoundNames
import Reckoner.Proofs.Dialogue
import Reckoner.Proofs.Influence
import Reckoner.Proofs.Rendering.Marked
import Reckoner.Proofs.Rearrangement
import Reckoner.Proofs.Rendering.Fractions
import Reckoner.Proofs.Joining
import Reckoner.Proofs.LenientReading
import Reckoner.Proofs.RestoredProducts
import Reckoner.Proofs.RowMatrix.Conformable
import Reckoner.Proofs.CaseOfNames
import Reckoner.Proofs.SymbolForPi
import Reckoner.Proofs.RowMatrix.Transposition
import Reckoner.Proofs.Counting
import Reckoner.Proofs.ComplexNumber.Cutting
import Reckoner.Proofs.Sampling.Passes
