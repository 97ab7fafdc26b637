/-
PocketCalc.MathFunction — the eighteen functions and their values.

All functions take one argument. The six trigonometric ones read or give
an angle in the current unit; the others ignore it. Outside its domain a
function gives a value that is not a number or an infinity, never a fault.
-/
import PocketCalc.Number.CubeRoot
import PocketCalc.Text

namespace PocketCalc

/-! ## 1. Names -/

/-- A function of one argument. -/
inductive MathFunction where
  | sin | cos | tan | asin | acos | atan
  | log | ln | sqrt | exp | cbrt | abs
  | sinh | cosh | tanh | asinh | acosh | atanh
deriving DecidableEq

namespace MathFunction

/-- All functions, once each. -/
def all : List MathFunction :=
  [sin, cos, tan, asin, acos, atan, log, ln, sqrt, exp, cbrt, abs,
   sinh, cosh, tanh, asinh, acosh, atanh]

/-- The name by which an expression calls the function. -/
def name : MathFunction → Text
  | sin => "sin".toList
  | cos => "cos".toList
  | tan => "tan".toList
  | asin => "asin".toList
  | acos => "acos".toList
  | atan => "atan".toList
  | log => "log".toList
  | ln => "ln".toList
  | sqrt => "sqrt".toList
  | exp => "exp".toList
  | cbrt => "cbrt".toList
  | abs => "abs".toList
  | sinh => "sinh".toList
  | cosh => "cosh".toList
  | tanh => "tanh".toList
  | asinh => "asinh".toList
  | acosh => "acosh".toList
  | atanh => "atanh".toList

/-- The way a call of the function is shown to the user. -/
def glyph : MathFunction → Text
  | sqrt => "√".toList
  | cbrt => "³√".toList
  | exp => "eˣ".toList
  | abs => "|".toList
  | asin => "sin⁻¹".toList
  | acos => "cos⁻¹".toList
  | atan => "tan⁻¹".toList
  | asinh => "sinh⁻¹".toList
  | acosh => "cosh⁻¹".toList
  | atanh => "tanh⁻¹".toList
  | f => f.name

/-- The function with a given name, in lower case. -/
def ofName? (text : Text) : Option MathFunction :=
  all.find? fun f => f.name = text

theorem mem_all (f : MathFunction) : f ∈ all := by
  cases f <;> decide

@[simp] theorem ofName?_name (f : MathFunction) : ofName? f.name = some f := by
  cases f <;> decide

theorem name_of_ofName? {text : Text} {f : MathFunction} (h : ofName? text = some f) :
    f.name = text := by
  simpa using List.find?_some h

end MathFunction

/-! ## 2. Angles -/

/-- The unit of angles. -/
inductive AngleUnit where
  | degrees
  | radians
deriving DecidableEq

namespace AngleUnit

/-- The other unit. -/
def toggle : AngleUnit → AngleUnit
  | degrees => radians
  | radians => degrees

end AngleUnit

/-- The double nearest π. -/
def pi : Float := Float.ofBits 0x400921FB54442D18

/-- The double nearest the base of natural logarithms. -/
def euler : Float := Float.ofBits 0x4005BF0A8B145769

namespace AngleUnit

/-- An angle in this unit, in radians. -/
def toRadians : AngleUnit → Float → Float
  | degrees, x => x * (pi / 180)
  | radians, x => x

/-- An angle in radians, in this unit. -/
def ofRadians : AngleUnit → Float → Float
  | degrees, x => x * (180 / pi)
  | radians, x => x

end AngleUnit

/-! ## 3. Values -/

namespace MathFunction

/-- The value of a function. A trigonometric function converts its argument
to radians first; an inverse one converts its value last. -/
def apply (unit : AngleUnit) : MathFunction → Float → Float
  | sin, x => (unit.toRadians x).sin
  | cos, x => (unit.toRadians x).cos
  | tan, x => (unit.toRadians x).tan
  | asin, x => unit.ofRadians x.asin
  | acos, x => unit.ofRadians x.acos
  | atan, x => unit.ofRadians x.atan
  | log, x => x.log10
  | ln, x => x.log
  | sqrt, x => x.sqrt
  | exp, x => x.exp
  | cbrt, x => Number.cubeRoot x
  | abs, x => x.abs
  | sinh, x => x.sinh
  | cosh, x => x.cosh
  | tanh, x => x.tanh
  | asinh, x => x.asinh
  | acosh, x => x.acosh
  | atanh, x => x.atanh

/-- Whether the function takes or gives an angle. -/
def isTrigonometric : MathFunction → Bool
  | sin | cos | tan | asin | acos | atan => true
  | _ => false

/-- The unit matters to the trigonometric functions only. -/
theorem apply_eq_apply {f : MathFunction} (h : f.isTrigonometric = false)
    (unit other : AngleUnit) (x : Float) : f.apply unit x = f.apply other x := by
  cases f <;> first | rfl | simp [isTrigonometric] at h

end MathFunction

end PocketCalc
