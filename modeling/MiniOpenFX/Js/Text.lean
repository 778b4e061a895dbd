import Mathlib.Data.Nat.Digits.Defs
import Mathlib.Tactic.IntervalCases

/-!
# Texts of the runtime

The pieces of JavaScript's and Postgres' text handling the services rest on: `String.trim`,
decimal digits, `BigInt` to and from text, and `uuid` columns. A `Uuid` is a value of a Postgres
`uuid` column in the only form Postgres prints it, lower-case; `Uuid.ofText?` is the cast from
text in the standard form, which accepts either case (`Uuid.ofText?_eq_iff`), and `Uuid.cast?` that
of any text.
-/

namespace Js

/-! ## Trimming -/

/-- White space and line terminators of ECMAScript, the characters `trim` removes. -/
def isSpace (c : Char) : Bool :=
  c ∈ ['\t', '\n', '\x0b', '\x0c', '\r', ' ', '\u00a0', '\u1680', '\u2000', '\u2001', '\u2002',
    '\u2003', '\u2004', '\u2005', '\u2006', '\u2007', '\u2008', '\u2009', '\u200a', '\u2028',
    '\u2029', '\u202f', '\u205f', '\u3000', '\ufeff']

/-- `String.prototype.trim`. -/
def trim (s : String) : String :=
  String.ofList (((s.toList.dropWhile isSpace).reverse.dropWhile isSpace).reverse)

/-! ## Digits -/

/-- The number a non-empty run of decimal digits stands for. -/
def digits? (cs : List Char) : Option Nat :=
  if cs ≠ [] ∧ cs.all Char.isDigit then some (Nat.ofDigitChars 10 cs 0) else none

/-- The digits of a number, read back. -/
theorem digits?_toDigits (n : Nat) : digits? (Nat.toDigits 10 n) = some n := by
  have hall : (Nat.toDigits 10 n).all Char.isDigit = true :=
    List.all_eq_true.mpr fun c hc => Nat.isDigit_of_mem_toDigits (by decide) (by decide) hc
  rw [digits?, if_pos ⟨Nat.toDigits_ne_nil, hall⟩, Nat.ofDigitChars_ten_toDigits]

/-- `n` in exactly `w` digits, leading zeros included. -/
def padded : Nat → Nat → List Char
  | 0, _ => []
  | w + 1, n => padded w (n / 10) ++ [Nat.digitChar (n % 10)]

@[simp] theorem padded_length (w n : Nat) : (padded w n).length = w := by
  induction w generalizing n with
  | zero => rfl
  | succ w ih => simp [padded, ih]

theorem padded_isDigit (w n : Nat) : ∀ c ∈ padded w n, c.isDigit = true := by
  induction w generalizing n with
  | zero => intro c hc; cases hc
  | succ w ih =>
    intro c hc
    rcases List.mem_append.mp hc with hc | hc
    · exact ih _ c hc
    · rw [List.mem_singleton.mp hc]
      simp [Nat.isDigit_digitChar, Nat.mod_lt]

/-- A number that fits the width is the value of its padded digits. -/
theorem ofDigitChars_padded (w n : Nat) (h : n < 10 ^ w) :
    Nat.ofDigitChars 10 (padded w n) 0 = n := by
  induction w generalizing n with
  | zero => simp [padded]; omega
  | succ w ih =>
    have hdiv : n / 10 < 10 ^ w := Nat.div_lt_of_lt_mul (by rw [pow_succ] at h; omega)
    rw [padded, Nat.ofDigitChars_append, ih _ hdiv,
      Nat.ofDigitChars_cons_digitChar_of_lt_ten (Nat.mod_lt n (by decide)), Nat.ofDigitChars_nil]
    omega

/-- Fixed-width digits, read back. -/
theorem digits?_padded {w n : Nat} (hw : 0 < w) (h : n < 10 ^ w) :
    digits? (padded w n) = some n := by
  have hne : padded w n ≠ [] := by
    intro h0
    have := padded_length w n
    rw [h0] at this
    simp at this
    omega
  have hall : (padded w n).all Char.isDigit = true := List.all_eq_true.mpr (padded_isDigit w n)
  simp only [digits?, ne_eq, hne, not_false_eq_true, hall, and_self, if_true,
    ofDigitChars_padded w n h]

/-! ## BigInt -/

/-- `BigInt.prototype.toString`. -/
def bigintText : Int → String
  | .ofNat n => String.ofList (Nat.toDigits 10 n)
  | .negSucc n => String.ofList ('-' :: Nat.toDigits 10 (n + 1))

/-- `BigInt(text)` on decimal text: surrounding white space, an optional sign, digits; the empty
text is zero. -/
def bigintOfText? (s : String) : Option Int :=
  match (trim s).toList with
  | [] => some 0
  | '-' :: cs => (digits? cs).map fun n : Nat => -(n : Int)
  | '+' :: cs => (digits? cs).map fun n : Nat => (n : Int)
  | cs => (digits? cs).map fun n : Nat => (n : Int)

/-- A text without white space is its own trimmed text. -/
theorem trim_of_ends {cs : List Char} (h : ∀ c ∈ cs, isSpace c = false) :
    trim (String.ofList cs) = String.ofList cs := by
  have hd : ∀ l : List Char, (∀ c ∈ l, isSpace c = false) → l.dropWhile isSpace = l := by
    intro l hl
    cases l with
    | nil => rfl
    | cons c l => simp [hl c (.head _)]
  simp only [trim, String.toList_ofList, hd cs h]
  rw [hd cs.reverse fun c hc => h c (List.mem_reverse.mp hc), List.reverse_reverse]

/-- Printable characters of ASCII are no white space. -/
theorem isSpace_of_printable {c : Char} (h : 33 ≤ c.toNat ∧ c.toNat ≤ 126) : isSpace c = false := by
  simp only [isSpace, decide_eq_false_iff_not]
  intro hc
  simp only [List.mem_cons, List.not_mem_nil, or_false] at hc
  rcases hc with rfl | rfl | rfl | rfl | rfl | rfl | rfl | rfl | rfl | rfl | rfl | rfl | rfl |
    rfl | rfl | rfl | rfl | rfl | rfl | rfl | rfl | rfl | rfl | rfl | rfl <;>
    exact absurd h (by decide)

theorem isSpace_of_isDigit {c : Char} (h : c.isDigit = true) : isSpace c = false := by
  rw [Char.isDigit_iff_toNat] at h
  have h₀ : '0'.toNat = 48 := rfl
  have h₉ : '9'.toNat = 57 := rfl
  exact isSpace_of_printable ⟨by omega, by omega⟩

theorem toDigits_cons (n : Nat) :
    ∃ c cs, Nat.toDigits 10 n = c :: cs ∧ c.isDigit = true := by
  cases h : Nat.toDigits 10 n with
  | nil => exact absurd h Nat.toDigits_ne_nil
  | cons c cs =>
    exact ⟨c, cs, rfl, Nat.isDigit_of_mem_toDigits (by decide) (by decide) (h ▸ List.Mem.head _)⟩

/-- A `BigInt` survives its text. -/
theorem bigintOfText?_bigintText (n : Int) : bigintOfText? (bigintText n) = some n := by
  have hdig : ∀ m : Nat, ∀ c ∈ Nat.toDigits 10 m, isSpace c = false := fun m c hc =>
    isSpace_of_isDigit (Nat.isDigit_of_mem_toDigits (by decide) (by decide) hc)
  cases n with
  | ofNat m =>
    obtain ⟨c, cs, hcs, hc⟩ := toDigits_cons m
    have hm : c ≠ '-' := by rintro rfl; exact absurd hc (by decide)
    have hp : c ≠ '+' := by rintro rfl; exact absurd hc (by decide)
    rw [bigintText, bigintOfText?, trim_of_ends (hdig m), String.toList_ofList]
    split
    · next h => rw [hcs] at h; cases h
    · next h => rw [hcs] at h; exact absurd (List.cons.inj h).1 hm
    · next h => rw [hcs] at h; exact absurd (List.cons.inj h).1 hp
    · rw [digits?_toDigits]; rfl
  | negSucc m =>
    rw [bigintText, bigintOfText?, trim_of_ends, String.toList_ofList]
    · simp only [digits?_toDigits]
      rfl
    · intro c hc
      rcases List.mem_cons.mp hc with rfl | hc
      · decide
      · exact hdig (m + 1) c hc

/-! ## Uuids -/

/-- Lower-case ASCII letters. -/
def lowerCase (s : String) : String := String.ofList (s.toList.map Char.toLower)

/-- A hexadecimal digit of either case. -/
def isHex (c : Char) : Bool :=
  c.isDigit || ('a' ≤ c && c ≤ 'f') || ('A' ≤ c && c ≤ 'F')

/-- The characters of a list satisfy the tests of another, one by one. -/
def matches? : List (Char → Bool) → List Char → Bool
  | [], [] => true
  | p :: ps, c :: cs => p c && matches? ps cs
  | _, _ => false

/-- `8-4-4-4-12` hexadecimal digits. -/
def uuidShape : List (Char → Bool) :=
  .replicate 8 isHex ++ [(· == '-')] ++ .replicate 4 isHex ++ [(· == '-')] ++
    .replicate 4 isHex ++ [(· == '-')] ++ .replicate 4 isHex ++ [(· == '-')] ++
    .replicate 12 isHex

/-- The texts that spell a uuid, in either case. -/
def isUuidText (s : String) : Bool := matches? uuidShape s.toList

/-- Lower case moves the code points of the letters A to Z by thirty-two and no others. -/
theorem toLower_toNat (c : Char) :
    c.toLower.toNat = if 65 ≤ c.toNat ∧ c.toNat ≤ 90 then c.toNat + 32 else c.toNat := by
  unfold Char.toLower
  by_cases h : c.val ≥ 'A'.val ∧ c.val ≤ 'Z'.val
  · have h' : 65 ≤ c.toNat ∧ c.toNat ≤ 90 := by
      simpa [UInt32.le_iff_toNat_le, Char.toNat_val] using h
    rw [dif_pos h, if_pos h', Char.toNat_mk, UInt32.toNat_add]
    have : c.val.toNat = c.toNat := rfl
    rw [this]
    change (c.toNat + 32) % 2 ^ 32 = c.toNat + 32
    omega
  · have h' : ¬ (65 ≤ c.toNat ∧ c.toNat ≤ 90) := by
      simpa [UInt32.le_iff_toNat_le, Char.toNat_val] using h
    rw [dif_neg h, if_neg h']

/-- A character in lower case is not changed by lower case. -/
theorem toLower_toLower (c : Char) : c.toLower.toLower = c.toLower := by
  apply Char.toNat_inj.mp
  rw [toLower_toNat c.toLower, toLower_toNat c]
  by_cases h : 65 ≤ c.toNat ∧ c.toNat ≤ 90
  · rw [if_pos h, if_neg (by omega)]
  · rw [if_neg h, if_neg h]

theorem isHex_toLower (c : Char) : isHex c.toLower = isHex c := by
  have h : ∀ d : Char, isHex d = true ↔ (48 ≤ d.toNat ∧ d.toNat ≤ 57) ∨
      (97 ≤ d.toNat ∧ d.toNat ≤ 102) ∨ (65 ≤ d.toNat ∧ d.toNat ≤ 70) := by
    intro d
    simp [isHex, Char.isDigit_iff_toNat, Char.le_def, UInt32.le_iff_toNat_le, or_assoc]
  rw [Bool.eq_iff_iff, h, h, toLower_toNat]
  split <;> omega

theorem dash_toLower (c : Char) : (c.toLower == '-') = (c == '-') := by
  rw [Bool.eq_iff_iff, beq_iff_eq, beq_iff_eq, ← Char.toNat_inj, ← Char.toNat_inj, toLower_toNat]
  change _ = 45 ↔ _ = 45
  split <;> omega

/-- A text matches a pattern in either case if each character class of the pattern does not tell
the cases apart. -/
theorem matches?_map_toLower {ps : List (Char → Bool)} (hp : ∀ p ∈ ps, ∀ c, p c.toLower = p c)
    (cs : List Char) : matches? ps (cs.map Char.toLower) = matches? ps cs := by
  induction ps generalizing cs with
  | nil => cases cs <;> rfl
  | cons p ps ih =>
    cases cs with
    | nil => rfl
    | cons c cs =>
      simp only [List.map_cons, matches?, hp p (.head _) c,
        ih (fun q hq => hp q (.tail _ hq)) cs]

/-- Whether a text spells a uuid does not depend on its case. -/
theorem isUuidText_lowerCase (s : String) : isUuidText (lowerCase s) = isUuidText s := by
  rw [isUuidText, lowerCase, String.toList_ofList, isUuidText]
  refine matches?_map_toLower (fun p hp c => ?_) s.toList
  simp only [uuidShape, List.mem_append, List.mem_replicate, List.mem_singleton] at hp
  have : p = isHex ∨ p = (· == '-') := by tauto
  rcases this with rfl | rfl
  · exact isHex_toLower c
  · exact dash_toLower c

theorem lowerCase_lowerCase (s : String) : lowerCase (lowerCase s) = lowerCase s := by
  have : Char.toLower ∘ Char.toLower = Char.toLower := funext toLower_toLower
  simp [lowerCase, this]

/-- A value of a `uuid` column, in the form Postgres prints it. -/
structure Uuid where
  text : String
  shape : isUuidText text = true
  lower : lowerCase text = text
  deriving DecidableEq

namespace Uuid

/-- Two uuids with the same text are equal. -/
theorem ext {a b : Uuid} (h : a.text = b.text) : a = b := by
  cases a; cases b; cases h; rfl

/-- The cast from text to `uuid`: either case is accepted, anything else is an error. -/
def ofText? (s : String) : Option Uuid :=
  if h : isUuidText s = true then
    some ⟨lowerCase s, (isUuidText_lowerCase s).trans h, lowerCase_lowerCase s⟩
  else none

/-- A uuid is read back from the text Postgres prints. -/
@[simp] theorem ofText?_text (u : Uuid) : ofText? u.text = some u := by
  rw [ofText?, dif_pos u.shape]
  exact congrArg some (ext u.lower)

/-- The spellings of `u` are the texts whose lower-case form is `u`'s. -/
theorem ofText?_eq_iff {s : String} {u : Uuid} : ofText? s = some u ↔ lowerCase s = u.text := by
  unfold ofText?
  split
  · next h =>
    rw [Option.some_inj]
    exact ⟨fun he => he ▸ rfl, fun he => ext he⟩
  · next h =>
    refine ⟨fun he => (nomatch he), fun he => absurd ?_ h⟩
    rw [← isUuidText_lowerCase, he]
    exact u.shape

/-- Groups of four hexadecimal digits, a hyphen allowed after each but the last, and what
follows. -/
def looseGroups : Nat → List Char → Option (List Char × List Char)
  | 0, cs => some ([], cs)
  | n + 1, a :: b :: c :: d :: cs =>
    if [a, b, c, d].all isHex then
      let cs := match n, cs with
        | _ + 1, '-' :: cs => cs
        | _, cs => cs
      (looseGroups n cs).map fun (ds, cs) => (a :: b :: c :: d :: ds, cs)
    else none
  | _ + 1, _ => none

/-- The other texts Postgres casts to `uuid`: hyphens left out or elsewhere, in braces or not. -/
def ofLooseText? (s : String) : Option Uuid :=
  let digits := match s.toList with
    | '\x7b' :: cs => match looseGroups 8 cs with
      | some (ds, ['\x7d']) => some ds
      | _ => none
    | cs => match looseGroups 8 cs with
      | some (ds, []) => some ds
      | _ => none
  digits.bind fun ds => ofText? (String.ofList (ds.take 8 ++ ['-'] ++ (ds.drop 8).take 4 ++ ['-'] ++
    (ds.drop 12).take 4 ++ ['-'] ++ (ds.drop 16).take 4 ++ ['-'] ++ ds.drop 20))

/-- The cast of an arbitrary text to `uuid`. -/
def cast? (s : String) : Option Uuid := (ofText? s).or (ofLooseText? s)

/-- Postgres casts the text of a uuid to that uuid. -/
@[simp] theorem cast?_text (u : Uuid) : cast? u.text = some u := by
  rw [cast?, ofText?_text, Option.some_or]

end Uuid

end Js
