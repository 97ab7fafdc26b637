/-
PocketCalc.Fault — why an expression has no value.

A fault is either one of reading, found in the text or its parentheses, or
one of evaluation, found when the operands do not fit the operators. A
division by zero or a root of a negative number is no fault: its value is
an infinity or not a number.
-/
import PocketCalc.Text

namespace PocketCalc

/-! ## 1. Causes -/

/-- Why a text cannot be read as an expression. The numeral and the word
are given as typed, without spaces. -/
inductive SyntaxFault where
  | badNumber (numeral : Text)
  | unknownName (word : Text)
  | unexpectedChar (c : Char)
  | unmatchedParens
deriving DecidableEq

/-- Why operands and operators do not fit. -/
inductive EvalFault where
  | missingOperand
  | invalidExpression
deriving DecidableEq

/-- Why an expression has no value. -/
inductive Fault where
  | reading (fault : SyntaxFault)
  | evaluation (fault : EvalFault)
deriving DecidableEq

/-! ## 2. Codes for programs -/

/-- A short constant text for each cause. -/
def SyntaxFault.code : SyntaxFault → Text
  | badNumber _ => "invalid number format".toList
  | unknownName _ => "unknown name".toList
  | unexpectedChar _ => "unexpected character".toList
  | unmatchedParens => "mismatched parentheses".toList

/-- A short constant text for each cause. -/
def EvalFault.code : EvalFault → Text
  | missingOperand => "missing operand".toList
  | invalidExpression => "invalid expression".toList

/-- A short constant text for each cause. -/
def Fault.code : Fault → Text
  | reading fault => fault.code
  | evaluation fault => fault.code

/-! ## 3. Messages for the user -/

/-- A text between straight quotes. -/
def quoted (text : Text) : Text :=
  '\'' :: text ++ ['\'']

/-- The cause in words, with the offending text. -/
def SyntaxFault.message : SyntaxFault → Text
  | badNumber numeral => "nombre invalide: ".toList ++ quoted numeral
  | unknownName word => "nom inconnu: ".toList ++ quoted word
  | unexpectedChar c => "caractère inattendu: ".toList ++ quoted [c]
  | unmatchedParens => "parenthèses non appariées".toList

/-- The cause in words. -/
def EvalFault.message : EvalFault → Text
  | missingOperand => "opérande manquant".toList
  | invalidExpression => "expression invalide".toList

/-- The kind of fault and its cause in words. -/
def Fault.message : Fault → Text
  | reading fault => "erreur de syntaxe : ".toList ++ fault.message
  | evaluation fault => "erreur d’évaluation : ".toList ++ fault.message

end PocketCalc
