import Mathlib.Data.Int.Log
import Mathlib.Data.Rat.Floor

/-! Python floats.  `repr` gives a float the shortest decimal that rounds back
to it, so the decimal names the float; every NaN is printed alike. -/

namespace PyFloat

def isNumberChar (c : Char) : Bool :=
  c.isDigit || c = '-' || c = '+' || c = '.' || c = 'e'

def isFloatText (text : List Char) : Bool :=
  text.all isNumberChar && text.any (fun c => c = '.' || c = 'e') &&
    (text.dropWhile fun c => c = '-').head?.any Char.isDigit

/-- The text `float.__repr__` gives a finite float. -/
structure FloatText where
  text : List Char
  wellFormed : isFloatText text = true
  deriving DecidableEq

def readInt (text : List Char) : Int :=
  match text with
  | '-' :: digits => -(Nat.ofDigitChars 10 digits 0 : Int)
  | '+' :: digits => Nat.ofDigitChars 10 digits 0
  | digits => Nat.ofDigitChars 10 digits 0

def readDecimal (text : List Char) : Rat :=
  let sign : Rat := if text.head? = some '-' then -1 else 1
  let mantissa := (text.dropWhile fun c => c = '-').takeWhile fun c => c ≠ 'e'
  let exponent := readInt ((text.dropWhile fun c => c ≠ 'e').drop 1)
  let whole := mantissa.takeWhile fun c => c ≠ '.'
  let fraction := (mantissa.dropWhile fun c => c ≠ '.').drop 1
  sign * (Nat.ofDigitChars 10 (whole ++ fraction) 0 : Rat) *
    (10 : Rat) ^ (exponent - fraction.length)

def roundHalfEven (value : Rat) : Int :=
  let below := value.floor
  if value - below < 1 / 2 then below
  else if 1 / 2 < value - below then below + 1
  else if below % 2 = 0 then below
  else below + 1

/-- The binary64 number nearest to a rational. -/
def binary64 (value : Rat) : Rat :=
  if value = 0 then 0
  else
    let unit : Rat := 2 ^ max (Int.log 2 |value| - 52) (-1074)
    roundHalfEven (value / unit) * unit

end PyFloat

inductive PyFloat where
  | nan
  | inf (negative : Bool)
  | finite (repr : PyFloat.FloatText)
  deriving DecidableEq

namespace PyFloat

/-- What a number is to `==` and `<`: a float and an integer compare exactly. -/
inductive Magnitude where
  | finite (value : Rat)
  | inf (negative : Bool)
  deriving DecidableEq

def Magnitude.le : Magnitude → Magnitude → Bool
  | .finite left, .finite right => decide (left ≤ right)
  | .inf true, _ => true
  | _, .inf false => true
  | .inf false, .finite _ => false
  | .inf false, .inf true => false
  | .finite _, .inf true => false

/-- `none` for NaN, which equals nothing. -/
def magnitude? : PyFloat → Option Magnitude
  | .nan => none
  | .inf negative => some (.inf negative)
  | .finite repr => some (.finite (binary64 (readDecimal repr.text)))

example : binary64 (readDecimal "1e+23".toList) = 99999999999999991611392 := by
  decide +kernel

end PyFloat
