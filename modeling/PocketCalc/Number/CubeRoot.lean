/-
PocketCalc.Number.CubeRoot — the cube root of a double, correctly rounded.

A finite double is a whole number of quanta, and the number of halvings of
the quantum is three times 358, so the cube root of a double is the cube
root of a whole number over 2³⁵⁸. That root is found in whole numbers with
64 bits to spare; when it is not exact, half a unit is added, which cannot
lie on a boundary between two roundings because a double has fewer bits.
-/
import PocketCalc.Number.Binary64

namespace PocketCalc.Number

/-- The largest whole number whose cube is at most `n`. The root of an
eighth gives all its binary digits but the last. -/
def floorCubeRoot (n : Nat) : Nat :=
  if n = 0 then 0
  else
    let root := 2 * floorCubeRoot (n / 8)
    if (root + 1) ^ (3 : Nat) ≤ n then root + 1 else root

/-- How many bits of the root are found beyond those of the quantum. -/
def spareBits : Nat := 64

/-- The rank of the double nearest the cube root of the double of a given
rank. -/
def cubeRootRank (rank : Nat) : Nat :=
  let cube := quanta rank * 2 ^ (3 * spareBits)
  let root := floorCubeRoot cube
  let doubled := if root ^ (3 : Nat) = cube then 2 * root else 2 * root + 1
  nearestRank doubled (2 * 2 ^ (spareBits + quantumHalvings / 3))

/-- The cube root of a double, with its sign. -/
def cubeRoot (x : Float) : Float :=
  match Binary64.ofFloat x with
  | .finite negative rank =>
    let root := floatOfRank (cubeRootRank rank)
    if negative then -root else root
  | _ => x

/-- The whole root is the floor of the cube root. -/
theorem floorCubeRoot_bounds (n : Nat) :
    floorCubeRoot n ^ (3 : Nat) ≤ n ∧ n < (floorCubeRoot n + 1) ^ (3 : Nat) := by
  fun_induction floorCubeRoot n with
  | case1 => decide
  | case2 n hn root h ih =>
    have hdouble : (2 * (floorCubeRoot (n / 8) + 1)) ^ (3 : Nat) =
        8 * (floorCubeRoot (n / 8) + 1) ^ (3 : Nat) := by
      rw [Nat.mul_pow]
    have hle : (root + 1 + 1) ^ (3 : Nat) = (2 * (floorCubeRoot (n / 8) + 1)) ^ (3 : Nat) := by
      simp only [root]
      congr 1
    exact ⟨h, by omega⟩
  | case3 n hn root h ih =>
    have hcube : root ^ (3 : Nat) = 8 * floorCubeRoot (n / 8) ^ (3 : Nat) := by
      simp only [root]
      rw [Nat.mul_pow]
    exact ⟨by omega, by omega⟩

end PocketCalc.Number
