/-
PocketCalc.Proofs.Formula — the grammar of well-formed expressions.

A formula is a syntax tree of the grammar

    sum      ::= sum + product | sum - product | product
    product  ::= product * power | product / power | power
    power    ::= signed ^ power | signed
    signed   ::= - signed | suffixed
    suffixed ::= suffixed ! | suffixed % | atom
    atom     ::= number | ( sum ) | function ( sum )

and its type says which of the six levels it belongs to, so a tree that
breaks a precedence cannot be built. Each tree has three readings: its
value, its tokens in the order they are written, and its tokens in the
reverse order.
-/
import PocketCalc.Token

namespace PocketCalc

/-! ## 1. Levels -/

/-- The levels of the grammar, the one that binds loosest first. -/
inductive Level where
  | sum | product | power | signed | suffixed | atom
deriving DecidableEq

namespace Level

/-- The level whose phrases are also phrases of this level. -/
def tighter? : Level → Option Level
  | sum => some product
  | product => some power
  | power => some signed
  | signed => some suffixed
  | suffixed => some atom
  | atom => none

/-- The lowest precedence an operator of a phrase of this level can have
outside of parentheses. -/
def floor : Level → Nat
  | sum => 1
  | product => 2
  | power => 3
  | signed => 4
  | suffixed | atom => 5

theorem floor_le_of_tighter? {level tight : Level} (h : level.tighter? = some tight) :
    level.floor ≤ tight.floor := by
  cases level <;> simp only [tighter?, Option.some.injEq, reduceCtorEq] at h <;> subst h <;> decide

end Level

namespace BinaryOperator

/-- The level of the phrases that an operator makes. -/
def level : BinaryOperator → Level
  | plus | minus => .sum
  | times | divide => .product
  | power => .power

/-- The level of the left operand. -/
def leftLevel : BinaryOperator → Level
  | plus | minus => .sum
  | times | divide => .product
  | power => .signed

/-- The level of the right operand. -/
def rightLevel : BinaryOperator → Level
  | plus | minus => .product
  | times | divide => .power
  | power => .power

end BinaryOperator

/-! ## 2. Trees -/

/-- The syntax trees of a level. -/
inductive Formula : Level → Type where
  /-- A phrase of the next tighter level. -/
  | lift {level tight : Level} (h : level.tighter? = some tight) (x : Formula tight) :
      Formula level
  | binary (op : BinaryOperator) (x : Formula op.leftLevel) (y : Formula op.rightLevel) :
      Formula op.level
  | negate (x : Formula .signed) : Formula .signed
  | suffix (x : Formula .suffixed) (s : Suffix) : Formula .suffixed
  | number (x : Float) : Formula .atom
  | group (x : Formula .sum) : Formula .atom
  | call (f : MathFunction) (x : Formula .sum) : Formula .atom

namespace Formula

/-- A phrase of a level as a phrase of the next looser one. -/
abbrev ofProduct (x : Formula .product) : Formula .sum := lift rfl x

@[inherit_doc ofProduct]
abbrev ofPower (x : Formula .power) : Formula .product := lift rfl x

@[inherit_doc ofProduct]
abbrev ofSigned (x : Formula .signed) : Formula .power := lift rfl x

@[inherit_doc ofProduct]
abbrev ofSuffixed (x : Formula .suffixed) : Formula .signed := lift rfl x

@[inherit_doc ofProduct]
abbrev ofAtom (x : Formula .atom) : Formula .suffixed := lift rfl x

/-- The value of a tree, computed from the leaves. -/
def value (unit : AngleUnit) : {level : Level} → Formula level → Float
  | _, lift _ x => x.value unit
  | _, binary op x y => op.apply (x.value unit) (y.value unit)
  | _, negate x => -(x.value unit)
  | _, suffix x s => s.apply (x.value unit)
  | _, number x => x
  | _, group x => x.value unit
  | _, call f x => f.apply unit (x.value unit)

/-- The tokens of a tree, where `sign` stands for a negation. -/
def tokensWith (sign : Operator) : {level : Level} → Formula level → List Token
  | _, lift _ x => x.tokensWith sign
  | _, binary op x y => x.tokensWith sign ++ .operator (.binary op) :: y.tokensWith sign
  | _, negate x => .operator sign :: x.tokensWith sign
  | _, suffix x s => x.tokensWith sign ++ [.suffix s]
  | _, number x => [.number x]
  | _, group x => .openParen :: (x.tokensWith sign ++ [.closeParen])
  | _, call f x => .function f :: .openParen :: (x.tokensWith sign ++ [.closeParen])

/-- The tokens of a tree as they are read: a negation is a minus sign. -/
abbrev tokens {level : Level} (x : Formula level) : List Token :=
  x.tokensWith (.binary .minus)

/-- The tokens of a tree with its negations marked. -/
abbrev signedTokens {level : Level} (x : Formula level) : List Token :=
  x.tokensWith .negate

/-- The tokens of a tree in the reverse order. -/
def rpn : {level : Level} → Formula level → List Token
  | _, lift _ x => x.rpn
  | _, binary op x y => x.rpn ++ y.rpn ++ [.operator (.binary op)]
  | _, negate x => x.rpn ++ [.operator .negate]
  | _, suffix x s => x.rpn ++ [.suffix s]
  | _, number x => [.number x]
  | _, group x => x.rpn
  | _, call f x => x.rpn ++ [.function f]

end Formula

/-- A list of tokens that the grammar derives. -/
def Token.IsDerivable (tokens : List Token) : Prop :=
  ∃ x : Formula .sum, x.tokens = tokens

end PocketCalc
