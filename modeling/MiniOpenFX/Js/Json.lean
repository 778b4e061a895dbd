import MiniOpenFX.Js.Text

/-!
# JSON values

A JSON value as `JSON.parse` returns it; numbers keep their text. `Json.parse?` reads a text in two
passes, each one step for each character or token: `Lexer` splits the text into tokens, `Parser`
puts the tokens together on a stack of open arrays and objects. `quoteJson` is what
`JSON.stringify` makes of a string; the lexer reads it back (`lex_quoteJson`).
-/

namespace Js

/-- A JSON value; a number keeps the text it was written with. -/
inductive Json where
  | null
  | bool (b : Bool)
  | num (text : String)
  | str (s : String)
  | arr (items : List Json)
  | obj (fields : List (String × Json))

namespace Json

/-- A property of an object; the last of several with one name counts. -/
def field? (name : String) : Json → Option Json
  | .obj fields => (fields.reverse.find? fun f => f.1 = name).map Prod.snd
  | _ => none

/-- The text, if the value is one. -/
def str? : Json → Option String
  | .str s => some s
  | _ => none

/-- The property, if it is a text. -/
def text? (name : String) (v : Json) : Option String := (v.field? name).bind str?

/-- The items, if the value is an array. -/
def items? : Json → Option (List Json)
  | .arr items => some items
  | _ => none

/-! ## Tokens -/

/-- What the text of a JSON value is made of. -/
inductive Token where
  | openBracket
  | closeBracket
  | openBrace
  | closeBrace
  | comma
  | colon
  | str (s : String)
  | num (text : String)
  | word (text : String)
  deriving DecidableEq

/-- A code unit that is half of a pair. -/
def isSurrogate (u : Nat) : Bool := 0xd800 ≤ u ∧ u ≤ 0xdfff

/-- The character of a code unit; half of a pair alone is none and becomes U+FFFD. -/
def ofUnit (u : Nat) : Char := if isSurrogate u then '\ufffd' else Char.ofNat u

/-- The text of a list of code units, or of characters beyond them. -/
def ofUnits : List Nat → List Char
  | u :: v :: us =>
    if 0xd800 ≤ u ∧ u ≤ 0xdbff ∧ 0xdc00 ≤ v ∧ v ≤ 0xdfff then
      Char.ofNat (0x10000 + (u - 0xd800) * 0x400 + (v - 0xdc00)) :: ofUnits us
    else ofUnit u :: ofUnits (v :: us)
  | [u] => [ofUnit u]
  | [] => []

/-- The code unit an escape of one character stands for. -/
def escaped? : Char → Option Nat
  | '"' => some 0x22
  | '\\' => some 0x5c
  | '/' => some 0x2f
  | 'b' => some 0x08
  | 'f' => some 0x0c
  | 'n' => some 0x0a
  | 'r' => some 0x0d
  | 't' => some 0x09
  | _ => none

/-- The value of a hexadecimal digit. -/
def hexValue? (c : Char) : Option Nat :=
  if '0' ≤ c ∧ c ≤ '9' then some (c.toNat - '0'.toNat)
  else if 'a' ≤ c ∧ c ≤ 'f' then some (c.toNat - 'a'.toNat + 10)
  else if 'A' ≤ c ∧ c ≤ 'F' then some (c.toNat - 'A'.toNat + 10)
  else none

/-- The exponent of a number. -/
def isExponent : List Char → Bool
  | [] => true
  | c :: '+' :: cs | c :: '-' :: cs => (c == 'e' || c == 'E') && (digits? cs).isSome
  | c :: cs => (c == 'e' || c == 'E') && (digits? cs).isSome

/-- The fraction of a number, and its exponent. -/
def isFraction : List Char → Bool
  | '.' :: cs =>
    !(cs.takeWhile Char.isDigit).isEmpty && isExponent (cs.dropWhile Char.isDigit)
  | cs => isExponent cs

/-- A number of the grammar without its sign. -/
def isUnsigned (cs : List Char) : Bool :=
  let whole := cs.takeWhile Char.isDigit
  (whole == ['0'] || whole.head?.any (· ≠ '0')) && isFraction (cs.dropWhile Char.isDigit)

/-- A number of the grammar. -/
def isNumber : List Char → Bool
  | '-' :: cs => isUnsigned cs
  | cs => isUnsigned cs

/-- Where the lexer stands; what it has read of a token is in reverse. -/
inductive Lexer where
  | between
  | string (units : List Nat)
  | escape (units : List Nat)
  | unicode (units : List Nat) (missing value : Nat)
  | number (cs : List Char)
  | word (cs : List Char)

namespace Lexer

/-- The tokens that are one character. -/
def punctuation? : Char → Option Token
  | '[' => some .openBracket
  | ']' => some .closeBracket
  | '\x7b' => some .openBrace
  | '\x7d' => some .closeBrace
  | ',' => some .comma
  | ':' => some .colon
  | _ => none

/-- A character that a number may be written with. -/
def isNumberChar (c : Char) : Bool := c.isDigit || c ∈ ['+', '-', '.', 'e', 'E']

/-- A character between tokens. -/
def start (c : Char) : Option (List Token × Lexer) :=
  if c ∈ [' ', '\t', '\n', '\r'] then some ([], .between)
  else if c = '"' then some ([], .string [])
  else match punctuation? c with
    | some t => some ([t], .between)
    | none =>
      if c.isDigit || c = '-' then some ([], .number [c])
      else if c.isAlpha then some ([], .word [c])
      else none

/-- The number or word that ends here. -/
def finish : Lexer → Option (List Token)
  | .between => some []
  | .number cs => if isNumber cs.reverse then some [.num (String.ofList cs.reverse)] else none
  | .word cs => some [.word (String.ofList cs.reverse)]
  | .string _ | .escape _ | .unicode .. => none

/-- One character. -/
def step (c : Char) : Lexer → Option (List Token × Lexer)
  | .between => start c
  | .string us =>
    if c = '"' then some ([.str (String.ofList (ofUnits us.reverse))], .between)
    else if c = '\\' then some ([], .escape us)
    else if c.toNat < 0x20 then none
    else some ([], .string (c.toNat :: us))
  | .escape us =>
    match escaped? c with
    | some u => some ([], .string (u :: us))
    | none => if c = 'u' then some ([], .unicode us 4 0) else none
  | .unicode us missing value =>
    match hexValue? c with
    | none => none
    | some h =>
      if missing = 1 then some ([], .string ((value * 16 + h) :: us))
      else some ([], .unicode us (missing - 1) (value * 16 + h))
  | .number cs =>
    if isNumberChar c then some ([], .number (c :: cs))
    else do
      let ts ← (Lexer.number cs).finish
      let (ts', l) ← start c
      return (ts ++ ts', l)
  | .word cs =>
    if c.isAlpha then some ([], .word (c :: cs))
    else do
      let ts ← (Lexer.word cs).finish
      let (ts', l) ← start c
      return (ts ++ ts', l)

end Lexer

/-- The tokens of a text. -/
def lex : Lexer → List Char → Option (List Token)
  | l, [] => l.finish
  | l, c :: cs => (l.step c).bind fun (ts, l) => (lex l cs).map (ts ++ ·)

/-! ## Values -/

/-- An open array or object, with what it has so far, in reverse. -/
inductive Frame where
  | arr (items : List Json)
  | obj (fields : List (String × Json)) (key : String)

/-- What the parser expects; where a first item or property is expected, the end may come
instead. -/
inductive Expect where
  | value (orClose : Bool)
  | key (orClose : Bool) (fields : List (String × Json))
  | colon (fields : List (String × Json)) (key : String)
  | next (v : Json)

/-- A parser under way: what it expects, and the arrays and objects that are open. -/
structure Parser where
  expect : Expect
  stack : List Frame

/-- The value a token is by itself. -/
def scalar? : Token → Option Json
  | .str s => some (.str s)
  | .num text => some (.num text)
  | .word "null" => some .null
  | .word "true" => some (.bool true)
  | .word "false" => some (.bool false)
  | _ => none

/-- One token. -/
def Parser.step : Parser → Token → Option Parser
  | ⟨.value true, .arr _ :: stack⟩, .closeBracket => some ⟨.next (.arr []), stack⟩
  | ⟨.value _, stack⟩, .openBracket => some ⟨.value true, .arr [] :: stack⟩
  | ⟨.value _, stack⟩, .openBrace => some ⟨.key true [], stack⟩
  | ⟨.value _, stack⟩, t => (scalar? t).map fun v => ⟨.next v, stack⟩
  | ⟨.key true _, stack⟩, .closeBrace => some ⟨.next (.obj []), stack⟩
  | ⟨.key _ fields, stack⟩, .str key => some ⟨.colon fields key, stack⟩
  | ⟨.colon fields key, stack⟩, .colon => some ⟨.value false, .obj fields key :: stack⟩
  | ⟨.next v, .arr items :: stack⟩, .comma => some ⟨.value false, .arr (v :: items) :: stack⟩
  | ⟨.next v, .arr items :: stack⟩, .closeBracket =>
    some ⟨.next (.arr (v :: items).reverse), stack⟩
  | ⟨.next v, .obj fields key :: stack⟩, .comma => some ⟨.key false ((key, v) :: fields), stack⟩
  | ⟨.next v, .obj fields key :: stack⟩, .closeBrace =>
    some ⟨.next (.obj ((key, v) :: fields).reverse), stack⟩
  | _, _ => none

/-- The value, if it is complete and nothing is open. -/
def Parser.finish : Parser → Option Json
  | ⟨.next v, []⟩ => some v
  | _ => none

/-- `JSON.parse`; `none` where it throws. -/
def parse? (s : String) : Option Json := do
  let ts ← lex .between s.toList
  let p ← ts.foldlM Parser.step ⟨.value false, []⟩
  p.finish

end Json

/-! ## Strings in JSON -/

/-- The characters a string's character becomes. -/
def escapeJson (c : Char) : List Char :=
  if c = '"' then ['\\', '"']
  else if c = '\\' then ['\\', '\\']
  else if c = '\x08' then ['\\', 'b']
  else if c = '\x0c' then ['\\', 'f']
  else if c = '\n' then ['\\', 'n']
  else if c = '\r' then ['\\', 'r']
  else if c = '\t' then ['\\', 't']
  else if c.toNat < 0x20 then
    ['\\', 'u', '0', '0', Nat.digitChar (c.toNat / 16), Nat.digitChar (c.toNat % 16)]
  else [c]

/-- `JSON.stringify` of a string. -/
def quoteJson (s : String) : List Char := '"' :: (s.toList.flatMap escapeJson ++ ['"'])

namespace Json

/-- Code points of characters, none of which is a surrogate, are read as these characters. -/
theorem ofUnits_toNat (cs : List Char) : ofUnits (cs.map Char.toNat) = cs := by
  have hunit : ∀ c : Char, ofUnit c.toNat = c := by
    intro c
    have hc : c.toNat < 0xd800 ∨ 0xdfff < c.toNat ∧ c.toNat < 0x110000 := c.valid
    have : isSurrogate c.toNat = false := by
      simp only [isSurrogate, decide_eq_false_iff_not]
      omega
    rw [ofUnit, this, if_neg (by decide), Char.ofNat_toNat]
  induction cs with
  | nil => rfl
  | cons c cs ih =>
    cases cs with
    | nil => exact congrArg (· :: []) (hunit c)
    | cons d cs =>
      have hc : c.toNat < 0xd800 ∨ 0xdfff < c.toNat ∧ c.toNat < 0x110000 := c.valid
      rw [List.map_cons, List.map_cons, ofUnits, if_neg (by omega), hunit c]
      exact congrArg (c :: ·) ih

/-- A hexadecimal digit is read as the number it was printed from. -/
theorem hexValue?_digitChar {n : Nat} (h : n < 16) : hexValue? (Nat.digitChar n) = some n := by
  have : ∀ n < 16, hexValue? (Nat.digitChar n) = some n := by decide
  exact this n h

/-- A character that the lexer takes in without finding a token only changes its state. -/
theorem lex_cons {l m : Lexer} {c : Char} (h : l.step c = some ([], m)) (cs : List Char) :
    lex l (c :: cs) = lex m cs := by
  rw [lex, h, Option.bind_some]
  exact Option.map_id'

/-- A token of one character between others. -/
theorem lex_punctuation {c : Char} {t : Token} (h : Lexer.start c = some ([t], .between))
    (cs : List Char) : lex .between (c :: cs) = (lex .between cs).map (t :: ·) := by
  rw [lex, Lexer.step, h, Option.bind_some]
  rfl

/-- An escape of one character, read back. -/
theorem lex_escaped {c : Char} {u : Nat} (h : escaped? c = some u) (us : List Nat)
    (cs : List Char) : lex (.string us) ('\\' :: c :: cs) = lex (.string (u :: us)) cs := by
  rw [lex_cons (m := .escape us) rfl, lex_cons (m := .string (u :: us)) (by rw [Lexer.step, h])]

/-- A character of a string, read back. -/
theorem lex_escapeJson (us : List Nat) (c : Char) (cs : List Char) :
    lex (.string us) (escapeJson c ++ cs) = lex (.string (c.toNat :: us)) cs := by
  unfold escapeJson
  split
  · next h => subst h; exact lex_escaped rfl us cs
  split
  · next h => subst h; exact lex_escaped rfl us cs
  split
  · next h => subst h; exact lex_escaped rfl us cs
  split
  · next h => subst h; exact lex_escaped rfl us cs
  split
  · next h => subst h; exact lex_escaped rfl us cs
  split
  · next h => subst h; exact lex_escaped rfl us cs
  split
  · next h => subst h; exact lex_escaped rfl us cs
  split
  · next h =>
    have h₁ := hexValue?_digitChar (n := c.toNat / 16) (by omega)
    have h₂ := hexValue?_digitChar (n := c.toNat % 16) (by omega)
    have hc : (c.toNat / 16) * 16 + c.toNat % 16 = c.toNat := by omega
    simp only [List.cons_append, List.nil_append]
    rw [lex_cons (m := .escape us) rfl, lex_cons (m := .unicode us 4 0) rfl,
      lex_cons (m := .unicode us 3 0) rfl, lex_cons (m := .unicode us 2 0) rfl,
      lex_cons (m := .unicode us 1 (c.toNat / 16)) (by simp [Lexer.step, h₁]),
      lex_cons (m := .string (c.toNat :: us)) (by simp [Lexer.step, h₂, hc])]
  · next h₁ h₂ _ _ _ _ _ h₃ =>
    exact lex_cons (by rw [Lexer.step, if_neg h₁, if_neg h₂, if_neg h₃]) cs

/-- A string, read back. -/
theorem lex_quoteJson (s : String) (cs : List Char) :
    lex .between (quoteJson s ++ cs) = (lex .between cs).map (.str s :: ·) := by
  have h : ∀ (text : List Char) (us : List Nat),
      lex (.string us) (text.flatMap escapeJson ++ '"' :: cs) =
        (lex .between cs).map
          (.str (String.ofList (ofUnits (us.reverse ++ text.map Char.toNat))) :: ·) := by
    intro text
    induction text with
    | nil =>
      intro us
      rw [List.flatMap_nil, List.nil_append, lex, Lexer.step, if_pos rfl, List.map_nil,
        List.append_nil, Option.bind_some]
      rfl
    | cons c text ih =>
      intro us
      rw [List.flatMap_cons, List.append_assoc, lex_escapeJson, ih]
      simp
  rw [quoteJson, List.cons_append, lex_cons (m := .string []) rfl, List.append_assoc,
    List.singleton_append, h, List.reverse_nil, List.nil_append, ofUnits_toNat,
      String.ofList_toList]

end Json

end Js
