import MiniOpenFX.Js.Date
import MiniOpenFX.Js.Json
import MiniOpenFX.Rounding.Significant

/-!
# JSON values as dates and integers

`new Date(value)` and `BigInt(value)` take any value. What ECMAScript leaves to the
implementation, and what it computes from the shortest text of a double, is a parameter
(`JsEngine`); a text in the form of `toISOString` is read by `Date.ofIso?` in every
implementation.
-/

namespace Js

/-- What the implementation of the language decides. -/
class JsEngine where
  /-- `new Date(text)` of a text that is not in the form of `toISOString`: the short forms, local
  times and whatever else is accepted; `none` for an invalid date -/
  dateOfText : String → Option Date
  /-- `String(array)`; `none` where it throws -/
  textOfArray : List Json → Option String

/-! ## Numbers -/

/-- The number a JSON number stands for, before it becomes a double. -/
def numberOfText (s : String) : ℚ :=
  let natural := fun cs : List Char => Nat.ofDigitChars 10 cs 0
  let (sign, cs) := match s.toList with
    | '-' :: cs => ((-1 : ℚ), cs)
    | cs => (1, cs)
  let whole := cs.takeWhile Char.isDigit
  let (fraction, cs) := match cs.dropWhile Char.isDigit with
    | '.' :: cs => (cs.takeWhile Char.isDigit, cs.dropWhile Char.isDigit)
    | cs => ([], cs)
  let exponent : Int := match cs with
    | _ :: '-' :: cs => -(natural cs : Int)
    | _ :: '+' :: cs => natural cs
    | _ :: cs => natural cs
    | [] => 0
  sign * natural (whole ++ fraction) * 10 ^ (exponent - fraction.length)

/-- The nearest integer; a tie goes to the even one. -/
def halfEven (x : ℚ) : Int :=
  if Int.fract x < 1 / 2 ∨ Int.fract x = 1 / 2 ∧ ⌊x⌋ % 2 = 0 then ⌊x⌋ else ⌊x⌋ + 1

/-- The nearest double. Nothing below depends on the least exponent of doubles, and what exceeds
their range exceeds every range asked for below. -/
def toDouble (x : ℚ) : ℚ := halfEven (x / Significant.ulp 2 53 x) * Significant.ulp 2 53 x

/-- The integer towards zero. -/
def truncate (x : ℚ) : Int := if 0 ≤ x then ⌊x⌋ else -⌊-x⌋

/-- The double of a JSON number: zero if it is too small for one, none if it is infinite. -/
def doubleOfText? (s : String) : Option ℚ :=
  let x := numberOfText s
  if |x| ≤ 2 ^ (-1075 : Int) then some 0
  else if (2 : ℚ) ^ 1024 ≤ |toDouble x| then none
  else some (toDouble x)

/-- A value that counts as true. -/
def Json.truthy : Json → Bool
  | .null => false
  | .bool b => b
  | .num text => doubleOfText? text ≠ some 0
  | .str s => s ≠ ""
  | .arr _ | .obj _ => true

/-! ## Integers -/

/-- The number with some digits in base `b`. -/
def digitsIn? (b : Nat) (cs : List Char) : Option Int :=
  match cs.mapM Json.hexValue? with
  | none | some [] => none
  | some ds => if ds.all (· < b) then some (ds.foldl (fun n d => n * b + d) 0 : Nat) else none

/-- `BigInt(text)`: a decimal text, or digits in another base after its prefix. -/
def bigintOfLiteral? (s : String) : Option Int :=
  match (trim s).toList with
  | '0' :: 'x' :: cs | '0' :: 'X' :: cs => digitsIn? 16 cs
  | '0' :: 'o' :: cs | '0' :: 'O' :: cs => digitsIn? 8 cs
  | '0' :: 'b' :: cs | '0' :: 'B' :: cs => digitsIn? 2 cs
  | _ => bigintOfText? s

/-- The text of an integer consists of digits, but for a sign. -/
theorem mem_bigintText {n : Int} {c : Char} (h : c ∈ (bigintText n).toList) :
    c = '-' ∨ c.isDigit = true := by
  have hdigits : ∀ m : Nat, c ∈ Nat.toDigits 10 m → c.isDigit = true :=
    fun m hc => Nat.isDigit_of_mem_toDigits (by decide) (by decide) hc
  cases n with
  | ofNat m =>
    rw [bigintText, String.toList_ofList] at h
    exact .inr (hdigits m h)
  | negSucc m =>
    rw [bigintText, String.toList_ofList] at h
    exact (List.mem_cons.mp h).imp_right (hdigits (m + 1))

/-- The decimal text of an integer has no prefix of another base. -/
@[simp] theorem bigintOfLiteral?_bigintText (n : Int) :
    bigintOfLiteral? (bigintText n) = some n := by
  have htrim : trim (bigintText n) = bigintText n := by
    have hends : ∀ c ∈ (bigintText n).toList, isSpace c = false := fun c hc => by
      rcases mem_bigintText hc with rfl | hc
      · decide
      · exact isSpace_of_isDigit hc
    have := trim_of_ends hends
    rwa [String.ofList_toList] at this
  have hstart : ∀ {c d cs}, (bigintText n).toList = c :: d :: cs → d = '-' ∨ d.isDigit = true :=
    fun hcs => mem_bigintText (hcs ▸ List.mem_cons_of_mem _ (.head _))
  unfold bigintOfLiteral?
  rw [htrim]
  split
  case h_7 => exact bigintOfText?_bigintText n
  all_goals next hcs => exact absurd (hstart hcs) (by decide)

section
variable [JsEngine]

/-- `BigInt(value)` of a JSON value, or of a property that is missing; `none` where it throws. -/
def bigintOfJson? : Option Json → Option Int
  | none | some .null | some (.obj _) => none
  | some (.bool b) => some (if b then 1 else 0)
  | some (.num text) => (doubleOfText? text).bind fun x => if x.den = 1 then some x.num else none
  | some (.str s) => bigintOfLiteral? s
  | some (.arr items) => (JsEngine.textOfArray items).bind bigintOfLiteral?

/-- The value cannot be made a text: an object with a property `toString`, or an array that has
one among its items. -/
def Json.textless : Json → Bool
  | .obj fields => (Json.obj fields).field? "toString" |>.isSome
  | .arr items => (JsEngine.textOfArray items).isNone
  | _ => false

/-! ## Dates -/

/-- `new Date(text)`. -/
def Date.ofText? (s : String) : Option Date := (Date.ofIso? s).or (JsEngine.dateOfText s)

/-- `new Date(value)` of a JSON value, or of a property that is missing; `none` for an invalid
date. The text of a plain object is none that a date has. -/
def Date.ofJson? : Option Json → Option Date
  | none | some (.obj _) => none
  | some .null => Date.ofMillis? 0
  | some (.bool b) => Date.ofMillis? (if b then 1 else 0)
  | some (.num text) => Date.ofMillis? (truncate (toDouble (numberOfText text)))
  | some (.str s) => Date.ofText? s
  | some (.arr items) => (JsEngine.textOfArray items).bind Date.ofText?

/-- The `Date` constructor reads the text that `toISOString` prints as the date it was printed
from. -/
@[simp] theorem Date.ofText?_toISOString (d : Date) : Date.ofText? d.toISOString = some d := by
  rw [Date.ofText?, Date.ofIso?_toISOString, Option.some_or]

end

namespace Reference

/-- An implementation that reads no other dates, and arrays neither as dates nor as integers. -/
scoped instance jsEngine : JsEngine := ⟨fun _ => none, fun _ => none⟩

end Reference

end Js
