/-
PocketCalc.Proofs.Formula.LastOperand — a formula seen from its last
operand.

What a key does at the end of the line it does at the end of the tokens,
and there a formula has its last operand, with its suffixes. In the tree
that is the end of the right edge. What stands in front of it is no subtree:
it is what is met on the way down the right edge, operators with their left
operands and minus signs. A `Front` is such a way, and putting another
phrase at its end is what it means to replace the last operand.

Every formula has a last term and a last operand (`exists_term`,
`exists_operand`), and the end of the tokens says what the operand is
(`operand_of_tokens`). Also, an operand starts only where one is due
(`isChain_tokensWith`).
-/
import Mathlib.Data.List.Chain
import Mathlib.Data.List.Induction
import PocketCalc.Proofs.Formula.Acceptance
import PocketCalc.Proofs.Number.Signs

namespace PocketCalc

variable {level tight hole : Level}

/-! ## 1. Fronts -/

namespace Level

@[simp] theorem tighter?_sum : tighter? sum = some product := rfl

@[simp] theorem tighter?_product : tighter? product = some power := rfl

@[simp] theorem tighter?_power : tighter? power = some signed := rfl

@[simp] theorem tighter?_signed : tighter? signed = some suffixed := rfl

end Level

/-- What stands in front of the last phrase of a formula: the way down the right edge of its
tree, from a phrase of the level `level` to one of the level `hole`. -/
inductive Front : Level → Level → Type where
  | here {level : Level} : Front level level
  | lift {level tight hole : Level} (h : level.tighter? = some tight) (front : Front tight hole) :
      Front level hole
  | binary {hole : Level} (op : BinaryOperator) (x : Formula op.leftLevel)
      (front : Front op.rightLevel hole) : Front op.level hole
  | negate {hole : Level} (front : Front .signed hole) : Front .signed hole

namespace Front

/-- A front inside a phrase of the next tighter level. -/
abbrev ofProduct (front : Front .product hole) : Front .sum hole := lift Level.tighter?_sum front

@[inherit_doc ofProduct]
abbrev ofPower (front : Front .power hole) : Front .product hole :=
  lift Level.tighter?_product front

@[inherit_doc ofProduct]
abbrev ofSigned (front : Front .signed hole) : Front .power hole := lift Level.tighter?_power front

@[inherit_doc ofProduct]
abbrev ofSuffixed (front : Front .suffixed hole) : Front .signed hole :=
  lift Level.tighter?_signed front

/-- The formula that ends with a phrase. -/
def fill : {level hole : Level} → Front level hole → Formula hole → Formula level
  | _, _, here, y => y
  | _, _, lift h front, y => .lift h (front.fill y)
  | _, _, binary op x front, y => .binary op x (front.fill y)
  | _, _, negate front, y => .negate (front.fill y)

/-- The tokens in front of the phrase, where `sign` stands for a negation. -/
def tokensWith (sign : Operator) : {level hole : Level} → Front level hole → List Token
  | _, _, here => []
  | _, _, lift _ front => front.tokensWith sign
  | _, _, binary op x front => x.tokensWith sign ++ .operator (.binary op) :: front.tokensWith sign
  | _, _, negate front => .operator sign :: front.tokensWith sign

@[inherit_doc Formula.tokens]
abbrev tokens (front : Front level hole) : List Token :=
  front.tokensWith (.binary .minus)

@[inherit_doc Formula.signedTokens]
abbrev signedTokens (front : Front level hole) : List Token :=
  front.tokensWith .negate

theorem tokensWith_fill (sign : Operator) (front : Front level hole) (y : Formula hole) :
    (front.fill y).tokensWith sign = front.tokensWith sign ++ y.tokensWith sign := by
  induction front with
  | here => rfl
  | lift h front ih => exact ih y
  | binary op x front ih => simp [fill, tokensWith, Formula.tokensWith, ih]
  | negate front ih => simp [fill, tokensWith, Formula.tokensWith, ih]

/-- The value of a formula depends on that of its last phrase only. -/
theorem value_fill_congr {unit : AngleUnit} (front : Front level hole) {y z : Formula hole}
    (h : y.value unit = z.value unit) : (front.fill y).value unit = (front.fill z).value unit := by
  induction front with
  | here => exact h
  | lift hlevel front ih => exact ih h
  | binary op x front ih => simp only [fill, Formula.value, ih h]
  | negate front ih => simp only [fill, Formula.value, ih h]

/-- Minus signs in front of a phrase pass through a division. -/
theorem value_fill_div {unit : AngleUnit} {v : Float} (front : Front level hole)
    {y z : Formula hole} (hsigns : ∀ token ∈ front.signedTokens, token = .operator .negate)
    (h : y.value unit / v = z.value unit) :
    (front.fill y).value unit / v = (front.fill z).value unit := by
  induction front with
  | here => exact h
  | lift hlevel front ih => exact ih hsigns h
  | binary op x front ih => cases hsigns (.operator (.binary op)) (by simp [tokensWith])
  | negate front ih =>
    have hback := ih (fun token htoken => hsigns token (List.mem_cons_of_mem _ htoken)) h
    simp only [fill, Formula.value]
    rw [Number.neg_div, hback]

end Front

namespace Formula

/-- Every sum ends with a term. -/
theorem exists_term (x : Formula level) (h : level = .sum) :
    ∃ (front : Front level .product) (term : Formula .product), front.fill term = x := by
  cases x with
  | lift hlevel x =>
    subst h
    cases hlevel
    exact ⟨.lift rfl .here, x, rfl⟩
  | binary op x y =>
    cases op with
    | plus => exact ⟨.binary .plus x .here, y, rfl⟩
    | minus => exact ⟨.binary .minus x .here, y, rfl⟩
    | times | divide | power => cases h
  | negate | suffix | number | group | call => cases h

/-- Every phrase that is not an atom ends with an operand that may have suffixes. -/
theorem exists_operand (x : Formula level) (h : level ≠ .atom) :
    ∃ (front : Front level .suffixed) (operand : Formula .suffixed), front.fill operand = x := by
  induction x with
  | @lift level tight hlevel x ih =>
    by_cases htight : tight = .atom
    · subst htight
      obtain rfl : level = .suffixed := by cases level <;> cases hlevel; rfl
      exact ⟨.here, .lift hlevel x, rfl⟩
    · obtain ⟨front, operand, rfl⟩ := ih htight
      exact ⟨.lift hlevel front, operand, rfl⟩
  | binary op x y _ ihy =>
    obtain ⟨front, operand, rfl⟩ := ihy (by cases op <;> decide)
    exact ⟨.binary op x front, operand, rfl⟩
  | negate x ih =>
    obtain ⟨front, operand, rfl⟩ := ih (by decide)
    exact ⟨.negate front, operand, rfl⟩
  | suffix x s => exact ⟨.here, .suffix x s, rfl⟩
  | number | group | call => exact absurd rfl h

/-! ## 2. Operands -/

/-- An atom with suffixes behind it. -/
def withSuffixes (x : Formula .atom) (suffixes : List Suffix) : Formula .suffixed :=
  suffixes.foldl suffix (ofAtom x)

theorem withSuffixes_concat (x : Formula .atom) (suffixes : List Suffix) (s : Suffix) :
    x.withSuffixes (suffixes ++ [s]) = suffix (x.withSuffixes suffixes) s := by
  simp [withSuffixes]

theorem tokensWith_withSuffixes (sign : Operator) (x : Formula .atom) (suffixes : List Suffix) :
    (x.withSuffixes suffixes).tokensWith sign = x.tokensWith sign ++ suffixes.map .suffix := by
  induction suffixes using List.reverseRecOn with
  | nil => simp [withSuffixes, tokensWith]
  | append_singleton suffixes s ih => simp [withSuffixes_concat, tokensWith, ih]

theorem exists_withSuffixes (x : Formula level) (h : level = .suffixed) :
    ∃ (atom : Formula .atom) (suffixes : List Suffix), atom.withSuffixes suffixes = h ▸ x := by
  induction x with
  | lift hlevel x _ =>
    subst h
    cases hlevel
    exact ⟨x, [], rfl⟩
  | suffix x s ih =>
    obtain ⟨atom, suffixes, hx⟩ := ih rfl
    exact ⟨atom, suffixes ++ [s], by rw [withSuffixes_concat, hx]⟩
  | binary op => cases op <;> cases h
  | negate | number | group | call => cases h

/-- An atom is a number or ends with a closing parenthesis. -/
theorem number_or_closed (x : Formula level) (h : level = .atom) :
    (∃ v, h ▸ x = number v) ∨ ∃ front, x.tokens = front ++ [.closeParen] := by
  cases x with
  | number v => exact Or.inl ⟨v, rfl⟩
  | group x => exact Or.inr ⟨.openParen :: x.tokens, rfl⟩
  | call f x => exact Or.inr ⟨.function f :: .openParen :: x.tokens, rfl⟩
  | lift hlevel x =>
    subst h
    cases hlevel
  | binary op => cases op <;> cases h
  | negate | suffix => cases h

/-- The suffixes at the end of a list, and what they stand behind, are known from the list. -/
theorem suffixes_inj {front pre : List Token} {last token : Token} {more suffixes : List Suffix}
    (hlast : ∀ s, last ≠ .suffix s) (htoken : ∀ s, token ≠ .suffix s)
    (h : front ++ [last] ++ more.map .suffix = pre ++ [token] ++ suffixes.map .suffix) :
    front = pre ∧ last = token ∧ more = suffixes := by
  induction more using List.reverseRecOn generalizing suffixes with
  | nil =>
    rcases List.eq_nil_or_concat' suffixes with rfl | ⟨suffixes, s, rfl⟩
    · simpa using h
    · rw [List.map_nil, List.append_nil, List.map_append, ← List.append_assoc] at h
      exact absurd (List.append_inj_right' h rfl) (by simpa using hlast s)
  | append_singleton more s ih =>
    rcases List.eq_nil_or_concat' suffixes with rfl | ⟨suffixes, t, rfl⟩
    · rw [List.map_nil, List.append_nil, List.map_append, ← List.append_assoc] at h
      exact absurd (List.append_inj_right' h rfl) (by simpa using (htoken s).symm)
    · rw [List.map_append, List.map_append, ← List.append_assoc, ← List.append_assoc] at h
      obtain ⟨hfront, hs⟩ := List.append_inj' h rfl
      obtain ⟨rfl, rfl, rfl⟩ := ih hfront
      refine ⟨rfl, rfl, ?_⟩
      simpa using hs

/-- An operand that ends like a number with suffixes is that number with these suffixes. -/
theorem operand_of_tokens {operand : Formula .suffixed} {front pre : List Token} {v : Float}
    {suffixes : List Suffix}
    (h : front ++ operand.tokens = pre ++ .number v :: suffixes.map .suffix) :
    operand = (number v).withSuffixes suffixes ∧ front = pre := by
  obtain ⟨atom, more, rfl⟩ := exists_withSuffixes operand rfl
  have hback : pre ++ .number v :: suffixes.map .suffix =
      pre ++ [.number v] ++ suffixes.map .suffix := by simp
  rw [tokens, tokensWith_withSuffixes, ← List.append_assoc, hback] at h
  rcases number_or_closed atom rfl with ⟨w, rfl⟩ | ⟨inner, hinner⟩
  · obtain ⟨hfront, hnumber, rfl⟩ := suffixes_inj (by simp) (by simp) h
    cases hnumber
    exact ⟨rfl, hfront⟩
  · -- the atom would end with a parenthesis where the number is
    rw [tokens] at hinner
    rw [hinner, ← List.append_assoc] at h
    obtain ⟨-, hclose, -⟩ := suffixes_inj (by simp) (by simp) h
    cases hclose

@[simp] theorem tokensWith_toSum (sign : Operator) (x : Formula level) :
    x.toSum.tokensWith sign = x.tokensWith sign := by
  cases level <;> rfl

@[simp] theorem tokensWith_grouped (sign : Operator) (x : Formula .sum) (level : Level) :
    (x.grouped level).tokensWith sign = .openParen :: (x.tokensWith sign ++ [.closeParen]) := by
  cases level <;> rfl

/-- A negation of the operand, in parentheses. -/
def negated (operand : Formula .suffixed) : Formula .suffixed :=
  (negate (ofSuffixed operand)).toSum.grouped .suffixed

/-- A quotient whose divisor stands in parentheses. -/
def dividedBy (term : Formula .product) (divisor : Formula .sum) : Formula .product :=
  binary .divide term (divisor.grouped .power)

@[simp] theorem tokensWith_negated (sign : Operator) (operand : Formula .suffixed) :
    operand.negated.tokensWith sign =
      .openParen :: .operator sign :: (operand.tokensWith sign ++ [.closeParen]) :=
  rfl

@[simp] theorem tokensWith_dividedBy (sign : Operator) (term : Formula .product)
    (divisor : Formula .sum) :
    (term.dividedBy divisor).tokensWith sign = term.tokensWith sign ++
      .operator (.binary .divide) :: .openParen :: (divisor.tokensWith sign ++ [.closeParen]) :=
  rfl

end Formula

/-! ## 3. Neighbours -/

namespace Token

/-- Whether an operand starts with the token. An opening parenthesis is left out: it also stands
behind a function. -/
def startsOperand : Token → Bool
  | number _ | function _ => true
  | _ => false

/-- The second of two tokens in a row starts an operand only where one is due. -/
def Neighbours (first second : Token) : Prop :=
  second.startsOperand = true → first.opensOperand = true

variable {first second : Token} {tokens : List Token}

theorem isChain_cons_of_opens (hfirst : first.opensOperand = true)
    (h : tokens.IsChain Neighbours) : (first :: tokens).IsChain Neighbours :=
  List.isChain_cons.mpr ⟨fun _ _ _ => hfirst, h⟩

theorem isChain_concat (hsecond : second.startsOperand = false) (h : tokens.IsChain Neighbours) :
    (tokens ++ [second]).IsChain Neighbours := by
  refine List.isChain_append.mpr ⟨h, List.isChain_singleton _, ?_⟩
  rintro first - last hlast hstarts
  cases hlast
  rw [hsecond] at hstarts
  cases hstarts

end Token

open Token in
/-- In a formula every operand starts where one is due. -/
theorem Formula.isChain_tokensWith (sign : Operator) (x : Formula level) :
    (x.tokensWith sign).IsChain Neighbours := by
  induction x with
  | lift h x ih => exact ih
  | number v => exact List.isChain_singleton _
  | binary op x y ihx ihy =>
    have hfront : (x.tokensWith sign ++ [Token.operator (.binary op)]).IsChain Neighbours :=
      isChain_concat rfl ihx
    have hback : (Token.operator (.binary op) :: y.tokensWith sign).IsChain Neighbours :=
      isChain_cons_of_opens rfl ihy
    simpa [tokensWith] using hfront.append_overlap hback (List.cons_ne_nil _ _)
  | negate x ih => exact isChain_cons_of_opens rfl ih
  | suffix x s ih => exact isChain_concat rfl ih
  | group x ih => exact isChain_cons_of_opens rfl (isChain_concat rfl ih)
  | call f x ih =>
    refine List.isChain_cons_cons.mpr ⟨?_, isChain_cons_of_opens rfl (isChain_concat rfl ih)⟩
    intro hstarts
    cases hstarts

end PocketCalc
