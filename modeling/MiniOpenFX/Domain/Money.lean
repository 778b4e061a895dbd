import MiniOpenFX.Common.Errors
import Mathlib.Data.Rat.Defs

/-!
# Money

Amounts are integers in minor units, `10 ^ 8` of them to one unit of any currency. Conversions go
through decimal.js, which is a parameter of the development (`DecimalJs`); what is assumed of it is
stated in `LawfulDecimalJs`.

Source: `apps/api/src/domain/money.ts`.
-/

namespace MiniOpenFX

open Js

/-- Rounding modes of decimal.js. -/
inductive Rounding where
  | ROUND_UP
  | ROUND_DOWN
  deriving DecidableEq

/-- What the services use of decimal.js, at its default configuration. -/
class DecimalJs where
  Decimal : Type
  /-- the number a decimal stands for; `none` for an infinity and for `NaN` -/
  value : Decimal → Option ℚ
  /-- `new Decimal(text)`; `none` where the constructor throws -/
  ofText? : String → Option Decimal
  /-- `new Decimal(n.toString())` for a `BigInt` -/
  ofBigInt : Int → Decimal
  mul : Decimal → Decimal → Decimal
  div : Decimal → Decimal → Decimal
  pow : Decimal → Nat → Decimal
  toDecimalPlaces : Decimal → Nat → Rounding → Decimal
  isInteger : Decimal → Bool
  toFixed : Decimal → Nat → String
  toText : Decimal → String

open DecimalJs

section
variable [DecimalJs]

/-- What decimal.js accepts where it takes a number: here a text or a decimal. -/
inductive DecimalValue where
  | text (s : String)
  | decimal (d : Decimal)

/-- `new Decimal(value)`. -/
def DecimalValue.new : DecimalValue → Except JsError Decimal
  | .text s => match ofText? s with
    | none => .error (.error s!"[DecimalError] Invalid argument: {s}")
    | some d => .ok d
  | .decimal d => .ok d

/-- The value as the text that decimal.js reads. -/
def DecimalValue.toText : DecimalValue → String
  | .text s => s
  | .decimal d => DecimalJs.toText d

/-- `MINOR_UNIT_DECIMALS`, for every currency. -/
def MINOR_UNIT_DECIMALS : Nat := 8

/-- `MINOR_UNIT_SCALE`: the minor units in one unit. -/
def MINOR_UNIT_SCALE : Decimal := pow (ofBigInt 10) MINOR_UNIT_DECIMALS

/-- `BigInt(text)`. -/
def bigInt (text : String) : Except JsError Int :=
  match bigintOfText? text with
  | none => .error (.error s!"Cannot convert {text} to a BigInt")
  | some n => .ok n

/-- `toMinorUnits`: the minor units of an amount, which must be whole. The product with the scale
has at most twenty digits, so the test for a whole number sees it rounded. -/
def toMinorUnits (amount : DecimalValue) : Except JsError Int := do
  let scaled := mul (← amount.new) MINOR_UNIT_SCALE
  if ¬ isInteger scaled then
    .error (.error
      s!"Amount {amount.toText} has more precision than {MINOR_UNIT_DECIMALS} decimals")
  else bigInt (toFixed scaled 0)

/-- `fromMinorUnits`: the amount that so many minor units are. -/
def fromMinorUnits (minor : Int) : Decimal := div (ofBigInt minor) MINOR_UNIT_SCALE

/-- The decimal text of an amount in every response. -/
def formatMinorUnits (minor : Int) : String := DecimalJs.toText (fromMinorUnits minor)

/-- `roundToMinorUnits`: as `toMinorUnits`, with a remainder rounded as the caller says. -/
def roundToMinorUnits (amount : DecimalValue) (rounding : Rounding) : Except JsError Int := do
  toMinorUnits (.decimal (toDecimalPlaces (← amount.new) MINOR_UNIT_DECIMALS rounding))

end

/-- `POSITIVE_DECIMAL_REGEX`: digits, and possibly a point and more digits. -/
def isPositiveDecimal (s : String) : Bool :=
  let whole := s.toList.takeWhile Char.isDigit
  match s.toList.dropWhile Char.isDigit with
  | [] => !whole.isEmpty
  | '.' :: fraction => !whole.isEmpty && !fraction.isEmpty && fraction.all Char.isDigit
  | _ => false

end MiniOpenFX
