import PocketCalc.Text
import PocketCalc.Text.Blank
import PocketCalc.Text.Alphabetic
import PocketCalc.Number.Rounding
import PocketCalc.Number.Digits
import PocketCalc.Number.Binary64
import PocketCalc.Number.CubeRoot
import PocketCalc.Number.Decimal
import PocketCalc.Number.Shortest
import PocketCalc.Number.Significant
import PocketCalc.Number.Grouping
import PocketCalc.Number.Result
import PocketCalc.MathFunction
import PocketCalc.Operator
import PocketCalc.Fault
import PocketCalc.Token
import PocketCalc.Token.Lexer
import PocketCalc.Token.Sign
import PocketCalc.Rpn
import PocketCalc.Rpn.Eval
import PocketCalc.Expression
import PocketCalc.Entry.Splice
import PocketCalc.Entry.LastNumber
import PocketCalc.Entry.Insertion
import PocketCalc.Entry.Erasure
import PocketCalc.Entry.Operand
import PocketCalc.Entry.Parens
import PocketCalc.Entry.Pretty
import PocketCalc.History
import PocketCalc.Key
import PocketCalc.Preview
import PocketCalc.Calculator
import PocketCalc.Page
import PocketCalc.Proofs.Formula
import PocketCalc.Proofs.Formula.Reordering
import PocketCalc.Proofs.Formula.Spelling
import PocketCalc.Proofs.Rpn.Grouping
import PocketCalc.Proofs.Formula.Acceptance
import PocketCalc.Proofs.Preview.LatestWins
import PocketCalc.Proofs.Preview.Delivery
import PocketCalc.Proofs.Number.Bits
import PocketCalc.Proofs.Number.Reentry
import PocketCalc.Proofs.Calculator.Commit
import PocketCalc.Proofs.Calculator.Coherence
import PocketCalc.Proofs.Calculator.FixedPoint
import PocketCalc.Proofs.Calculator.AllOrNothing
import PocketCalc.Proofs.Entry.Changes
import PocketCalc.Proofs.Keypad.Runs
import PocketCalc.Proofs.Keypad.Numerals
import PocketCalc.Proofs.Keypad.Calls
import PocketCalc.Proofs.Calculator.Continuation
import PocketCalc.Proofs.Calculator.Ledger
import PocketCalc.Proofs.Rpn.Matching
import PocketCalc.Proofs.Entry.Nesting
import PocketCalc.Proofs.Keypad.Parens
import PocketCalc.Proofs.Keypad.Operators
import PocketCalc.Proofs.Rpn.Depth
import PocketCalc.Proofs.Token.Locality
import PocketCalc.Proofs.Token.Segments
import PocketCalc.Proofs.Number.Literal
import PocketCalc.Proofs.Token.Language
import PocketCalc.Proofs.Token.ReadBack
import PocketCalc.Proofs.Number.Signs
import PocketCalc.Proofs.Formula.LastOperand
import PocketCalc.Proofs.Formula.Value
import PocketCalc.Proofs.Entry.Operand
import PocketCalc.Proofs.Entry.Pretty
import PocketCalc.Proofs.History.Kind
import PocketCalc.Proofs.Entry.Closing
import PocketCalc.Proofs.Keypad.Typing
import PocketCalc.Proofs.Number.Exact
import PocketCalc.Proofs.Number.Canonical
import PocketCalc.Proofs.Number.FloatText
import PocketCalc.Proofs.Expression.Working
import PocketCalc.Proofs.Calculator.AngleUnit
import PocketCalc.Proofs.Entry.Erasing
import PocketCalc.Proofs.Entry.Positions
