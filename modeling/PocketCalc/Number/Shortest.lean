/-
PocketCalc.Number.Shortest — the fewest decimal digits that read back.

For one digit, then two, and so on up to seventeen, the value of a double
lies between two neighbouring points of the decimal grid with that many
digits. The first grid with a neighbour that reads back as the same double
decides; of two such neighbours the nearer wins, and of two equally near
the larger. Main statement: `rank_shortest`, the decimal chosen always
reads back.
-/
import PocketCalc.Number.Decimal

namespace PocketCalc.Number

/-! ## 1. Decimal grids -/

/-- The power of ten just below a positive quotient: the exponent `e` with
`10 ^ e ≤ num / den < 10 ^ (e + 1)`. -/
def decimalOrder (num den : Nat) : Int :=
  if den ≤ num then digitCount (num / den) - 1
  else -(digitCount ((den + num - 1) / num - 1) : Nat)

/-- The quotient `num / den` measured in units of `10 ^ unit`, again as a
quotient. -/
def inUnits (num den : Nat) : Int → Nat × Nat
  | .ofNat up => (num, den * 10 ^ up)
  | .negSucc down => (num * 10 ^ (down + 1), den)

/-- The decimal `count · 10 ^ unit`. -/
def Decimal.ofUnits (count : Nat) : Int → Decimal
  | .ofNat up => ⟨count * 10 ^ up, 0⟩
  | .negSucc down => ⟨count, down + 1⟩

/-- The points just below and just above the double of a given rank on the
grid of decimals with `size` digits, the nearer first and the larger first
when both are equally near. -/
def gridNeighbours (rank size : Nat) : List Decimal :=
  let unit := decimalOrder (quanta rank) quantaPerUnit - (size - 1 : Nat)
  let (num, den) := inUnits (quanta rank) quantaPerUnit unit
  let below := (Decimal.ofUnits (num / den) unit).trim
  let above := (Decimal.ofUnits (num / den + 1) unit).trim
  if 2 * (num % den) < den then [below, above] else [above, below]

/-! ## 2. The shortest decimal -/

/-- The value of the double of a given rank as a decimal, without rounding. -/
def exactDecimal (rank : Nat) : Decimal :=
  ⟨quanta rank * 5 ^ quantumHalvings, quantumHalvings⟩

/-- The shortest decimal that reads back as the double of a given rank.
Seventeen digits tell any two doubles apart. -/
def shortest (rank : Nat) : Decimal :=
  let found := (List.range' 1 17).findSome? fun size =>
    (gridNeighbours rank size).find? fun d => d.rank = rank
  found.getD (exactDecimal rank)

theorem ten_pow (n : Nat) : 10 ^ n = 2 ^ n * 5 ^ n :=
  Nat.mul_pow 2 5 n

/-- The exact value of a double is nearest to it. -/
theorem rank_exactDecimal {rank : Nat} (h : rank < infinityRank) :
    (exactDecimal rank).rank = rank := by
  have hpow : 10 ^ quantumHalvings = quantaPerUnit * 5 ^ quantumHalvings := by
    rw [ten_pow, quantaPerUnit]
  have hpos : 0 < 5 ^ quantumHalvings := Nat.pow_pos (by decide)
  simp only [Decimal.rank, exactDecimal]
  rw [hpow, nearestRank_scale _ _ hpos, nearestRank_quanta h]

/-- The shortest decimal of a finite double reads back as that double. -/
theorem rank_shortest {rank : Nat} (h : rank < infinityRank) : (shortest rank).rank = rank := by
  unfold shortest
  generalize hfound : ((List.range' 1 17).findSome? fun size =>
    (gridNeighbours rank size).find? fun d => d.rank = rank) = found
  cases found with
  | none => exact rank_exactDecimal h
  | some d =>
    obtain ⟨size, -, hsize⟩ := List.exists_of_findSome?_eq_some hfound
    simpa using List.find?_some hsize

/-- So it stands for the double it was found for. -/
theorem toFloat_shortest {rank : Nat} (h : rank < infinityRank) :
    (shortest rank).toFloat = floatOfRank rank := by
  rw [Decimal.toFloat, rank_shortest h]

/-! ## 3. Doubles as text -/

/-- A minus sign in front of a negative number. -/
def signText (negative : Bool) : Text :=
  if negative then ['-'] else []

/-- A double in full with the fewest digits: no exponent, no point after a
whole number, a sign also on negative zero. -/
def Binary64.text : Binary64 → Text
  | .nan => "NaN".toList
  | .infinite negative => signText negative ++ "inf".toList
  | .finite negative rank => signText negative ++ (shortest rank).text

/-- The text of a double in full. -/
def floatText (x : Float) : Text :=
  (Binary64.ofFloat x).text

end PocketCalc.Number
