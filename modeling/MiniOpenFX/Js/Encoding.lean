import Mathlib.Data.List.Basic
import Mathlib.Data.List.TakeWhile

/-!
# Bytes of the runtime

The two encodings of Node's `Buffer` that cursors go through: base64url, whose decoder skips every
character outside the alphabet and stops at `=`, and UTF-8, whose decoder puts U+FFFD in the place
of what is no character. Both give back what they encoded (`ofBase64url_toBase64url`,
`ofUtf8_toUtf8`).
-/

namespace Js

/-! ## base64url -/

/-- The digits of base64url. -/
def base64Digit (n : Nat) : Char :=
  if n < 26 then Char.ofNat ('A'.toNat + n)
  else if n < 52 then Char.ofNat ('a'.toNat + (n - 26))
  else if n < 62 then Char.ofNat ('0'.toNat + (n - 52))
  else if n = 62 then '-' else '_'

/-- The value of a digit of base64url or of base64. -/
def base64Value? (c : Char) : Option Nat :=
  if 'A' ≤ c ∧ c ≤ 'Z' then some (c.toNat - 'A'.toNat)
  else if 'a' ≤ c ∧ c ≤ 'z' then some (c.toNat - 'a'.toNat + 26)
  else if '0' ≤ c ∧ c ≤ '9' then some (c.toNat - '0'.toNat + 52)
  else if c = '-' ∨ c = '+' then some 62
  else if c = '_' ∨ c = '/' then some 63
  else none

/-- Three bytes as four digits, the last group shorter. -/
def sextets : List UInt8 → List Nat
  | a :: b :: c :: bytes =>
    let n := a.toNat * 65536 + b.toNat * 256 + c.toNat
    n / 262144 :: n / 4096 % 64 :: n / 64 % 64 :: n % 64 :: sextets bytes
  | [a, b] =>
    let n := a.toNat * 1024 + b.toNat * 4
    [n / 4096, n / 64 % 64, n % 64]
  | [a] => [a.toNat * 16 / 64, a.toNat * 16 % 64]
  | [] => []

/-- Four digits as three bytes; bits that fill no byte are dropped. -/
def ofSextets : List Nat → List UInt8
  | a :: b :: c :: d :: digits =>
    let n := a * 262144 + b * 4096 + c * 64 + d
    .ofNat (n / 65536) :: .ofNat (n / 256 % 256) :: .ofNat (n % 256) :: ofSextets digits
  | [a, b, c] =>
    let n := a * 4096 + b * 64 + c
    [.ofNat (n / 1024), .ofNat (n / 4 % 256)]
  | [a, b] => [.ofNat ((a * 64 + b) / 16)]
  | _ => []

/-- `buffer.toString('base64url')`. -/
def toBase64url (bytes : List UInt8) : String := String.ofList ((sextets bytes).map base64Digit)

/-- `Buffer.from(text, 'base64url')`. -/
def ofBase64url (s : String) : List UInt8 :=
  ofSextets ((s.toList.takeWhile (· ≠ '=')).filterMap base64Value?)

/-- Each of the sixty-four digits is read as the number it stands for. -/
theorem base64Value?_base64Digit {n : Nat} (h : n < 64) :
    base64Value? (base64Digit n) = some n := by
  have : ∀ n < 64, base64Value? (base64Digit n) = some n := by decide
  exact this n h

/-- No digit is the padding character, which `Buffer.from` stops at. -/
theorem base64Digit_ne {n : Nat} (h : n < 64) : base64Digit n ≠ '=' := by
  have : ∀ n < 64, base64Digit n ≠ '=' := by decide
  exact this n h

/-- The groups of six bits are numbers below sixty-four. -/
theorem sextets_lt (bytes : List UInt8) : ∀ n ∈ sextets bytes, n < 64 := by
  induction bytes using sextets.induct with
  | case1 a b c bytes ih =>
    have := a.toNat_lt
    have := b.toNat_lt
    have := c.toNat_lt
    intro n hn
    simp only [sextets, List.mem_cons] at hn
    rcases hn with rfl | rfl | rfl | rfl | hn
    · omega
    · omega
    · omega
    · omega
    · exact ih n hn
  | case2 a b =>
    have := a.toNat_lt
    have := b.toNat_lt
    intro n hn
    simp only [sextets, List.mem_cons, List.not_mem_nil, or_false] at hn
    omega
  | case3 a =>
    have := a.toNat_lt
    intro n hn
    simp only [sextets, List.mem_cons, List.not_mem_nil, or_false] at hn
    omega
  | case4 => intro n hn; cases hn

/-- A byte, put together from its bits. -/
theorem byte_eq {a : UInt8} {n : Nat} (h : n = a.toNat) : UInt8.ofNat n = a := by
  rw [h, UInt8.ofNat_toNat]

/-- Bytes are put together again from their groups of six bits; the bits that fill up the last
group are dropped. -/
theorem ofSextets_sextets (bytes : List UInt8) : ofSextets (sextets bytes) = bytes := by
  induction bytes using sextets.induct with
  | case1 a b c bytes ih =>
    have := a.toNat_lt
    have := b.toNat_lt
    have := c.toNat_lt
    rw [sextets, ofSextets, ih]
    congr 1
    · exact byte_eq (by omega)
    · congr 1
      · exact byte_eq (by omega)
      · exact congrArg (· :: bytes) (byte_eq (by omega))
  | case2 a b =>
    have := a.toNat_lt
    have := b.toNat_lt
    rw [sextets, ofSextets, byte_eq (a := a) (by omega), byte_eq (a := b) (by omega)]
  | case3 a =>
    have := a.toNat_lt
    rw [sextets, ofSextets, byte_eq (a := a) (by omega)]
  | case4 => rfl

/-- Bytes come back from base64url. -/
@[simp] theorem ofBase64url_toBase64url (bytes : List UInt8) :
    ofBase64url (toBase64url bytes) = bytes := by
  have hall : ((sextets bytes).map base64Digit).takeWhile (· ≠ '=') =
      (sextets bytes).map base64Digit := by
    refine List.takeWhile_eq_self_iff.mpr fun c hc => ?_
    obtain ⟨n, hn, rfl⟩ := List.mem_map.mp hc
    exact decide_eq_true (base64Digit_ne (sextets_lt bytes n hn))
  have hvalues : ((sextets bytes).map base64Digit).filterMap base64Value? = sextets bytes := by
    rw [List.filterMap_map]
    calc (sextets bytes).filterMap (base64Value? ∘ base64Digit)
        = (sextets bytes).filterMap some :=
          by
          refine List.filterMap_congr fun n hn => ?_
          exact base64Value?_base64Digit (sextets_lt bytes n hn)
      _ = sextets bytes := List.filterMap_some
  rw [ofBase64url, toBase64url, String.toList_ofList, hall, hvalues, ofSextets_sextets]

/-! ## UTF-8 -/

/-- `Buffer.from(text)`. -/
def toUtf8 (s : String) : List UInt8 := s.toList.flatMap String.utf8EncodeChar

/-- A character whose first bytes were read: how many are missing, its bits so far, and the range
the next byte has to lie in. -/
structure Begun where
  missing : Nat
  bits : Nat
  lower : Nat
  upper : Nat

/-- U+FFFD, in the place of bytes that are no character. -/
def replacement : Char := '\ufffd'

/-- The first byte of a character. -/
def firstByte (b : Nat) : List Char × Option Begun :=
  if b < 0x80 then ([Char.ofNat b], none)
  else if b < 0xc2 then ([replacement], none)
  else if b < 0xe0 then ([], some ⟨1, b - 0xc0, 0x80, 0xbf⟩)
  else if b < 0xf0 then
    ([], some ⟨2, b - 0xe0, if b = 0xe0 then 0xa0 else 0x80, if b = 0xed then 0x9f else 0xbf⟩)
  else if b < 0xf5 then
    ([], some ⟨3, b - 0xf0, if b = 0xf0 then 0x90 else 0x80, if b = 0xf4 then 0x8f else 0xbf⟩)
  else ([replacement], none)

/-- A byte after the first of a character; one that does not fit starts over. -/
def nextByte (p : Begun) (b : Nat) : List Char × Option Begun :=
  if p.lower ≤ b ∧ b ≤ p.upper then
    let bits := p.bits * 64 + (b - 0x80)
    if p.missing = 1 then ([Char.ofNat bits], none)
    else ([], some ⟨p.missing - 1, bits, 0x80, 0xbf⟩)
  else (replacement :: (firstByte b).1, (firstByte b).2)

/-- The characters of bytes, from within a character or not. What is no UTF-8 becomes U+FFFD. -/
def decodeUtf8 : Option Begun → List UInt8 → List Char
  | none, [] => []
  | some _, [] => [replacement]
  | none, b :: bytes =>
    let (cs, p) := firstByte b.toNat
    cs ++ decodeUtf8 p bytes
  | some p, b :: bytes =>
    let (cs, p) := nextByte p b.toNat
    cs ++ decodeUtf8 p bytes

/-- `buffer.toString('utf8')`. -/
def ofUtf8 (bytes : List UInt8) : String := String.ofList (decodeUtf8 none bytes)

/-- The decoder takes the first byte of a character by its range: it is a character of its own, or
says how many bytes follow. -/
theorem decodeUtf8_first {n : Nat} (h : n < 256) (bytes : List UInt8) :
    decodeUtf8 none (.ofNat n :: bytes) = (firstByte n).1 ++ decodeUtf8 (firstByte n).2 bytes := by
  have hn : (UInt8.ofNat n).toNat = n := UInt8.toNat_ofNat_of_lt h
  simp only [decodeUtf8, hn]

section
variable {bits lower upper n : Nat}

/-- The last byte of a character. -/
theorem decodeUtf8_last (h₁ : lower ≤ n) (h₂ : n ≤ upper) (h : n < 256) (bytes : List UInt8) :
    decodeUtf8 (some ⟨1, bits, lower, upper⟩) (.ofNat n :: bytes) =
      Char.ofNat (bits * 64 + (n - 0x80)) :: decodeUtf8 none bytes := by
  have hn : (UInt8.ofNat n).toNat = n := UInt8.toNat_ofNat_of_lt h
  simp only [decodeUtf8, hn, nextByte, h₁, h₂, and_self, if_true, List.cons_append,
    List.nil_append]

/-- A byte in the middle of a character. -/
theorem decodeUtf8_more (m : Nat) (h₁ : lower ≤ n) (h₂ : n ≤ upper) (h : n < 256)
    (bytes : List UInt8) : decodeUtf8 (some ⟨m + 2, bits, lower, upper⟩) (.ofNat n :: bytes) =
      decodeUtf8 (some ⟨m + 1, bits * 64 + (n - 0x80), 0x80, 0xbf⟩) bytes := by
  have hn : (UInt8.ofNat n).toNat = n := UInt8.toNat_ofNat_of_lt h
  have hm : m + 2 ≠ 1 := by omega
  simp only [decodeUtf8, hn, nextByte, h₁, h₂, and_self, if_true, if_neg hm, List.nil_append]
  rfl

end

/-- A character comes back from its bytes. -/
theorem decodeUtf8_encodeChar (c : Char) (bytes : List UInt8) :
    decodeUtf8 none (String.utf8EncodeChar c ++ bytes) = c :: decodeUtf8 none bytes := by
  have hc : c.toNat < 0xd800 ∨ 0xdfff < c.toNat ∧ c.toNat < 0x110000 := c.valid
  have hof : ∀ n, n = c.toNat → Char.ofNat n = c := fun n h => h ▸ Char.ofNat_toNat c
  have hv : c.val.toNat = c.toNat := rfl
  unfold String.utf8EncodeChar
  simp only [hv]
  generalize c.toNat = v at *
  split
  · have h₁ : firstByte v = ([Char.ofNat v], none) := by rw [firstByte, if_pos (by omega)]
    rw [List.cons_append, decodeUtf8_first (by omega), h₁, hof v rfl]
    rfl
  · split
    · have h₁ : firstByte (v / 64 % 32 + 0xc0) = ([], some ⟨1, v / 64, 0x80, 0xbf⟩) := by
        rw [firstByte, if_neg (by omega), if_neg (by omega), if_pos (by omega),
          show v / 64 % 32 + 0xc0 - 0xc0 = v / 64 by omega]
      simp only [List.cons_append, List.nil_append]
      rw [decodeUtf8_first (by omega), h₁, List.nil_append,
        decodeUtf8_last (by omega) (by omega) (by omega), hof _ (by omega)]
    · split
      · have h₁ : firstByte (v / 4096 % 16 + 0xe0) = ([], some ⟨0 + 2, v / 4096,
            if v / 4096 % 16 + 0xe0 = 0xe0 then 0xa0 else 0x80,
            if v / 4096 % 16 + 0xe0 = 0xed then 0x9f else 0xbf⟩) := by
          rw [firstByte, if_neg (by omega), if_neg (by omega), if_neg (by omega),
            if_pos (by omega), show v / 4096 % 16 + 0xe0 - 0xe0 = v / 4096 by omega]
        simp only [List.cons_append, List.nil_append]
        rw [decodeUtf8_first (by omega), h₁, List.nil_append,
          decodeUtf8_more 0 (by split <;> omega) (by split <;> omega) (by omega),
          decodeUtf8_last (by omega) (by omega) (by omega), hof _ (by omega)]
      · have h₁ : firstByte (v / 262144 % 8 + 0xf0) = ([], some ⟨1 + 2, v / 262144,
            if v / 262144 % 8 + 0xf0 = 0xf0 then 0x90 else 0x80,
            if v / 262144 % 8 + 0xf0 = 0xf4 then 0x8f else 0xbf⟩) := by
          rw [firstByte, if_neg (by omega), if_neg (by omega), if_neg (by omega),
            if_neg (by omega), if_pos (by omega),
            show v / 262144 % 8 + 0xf0 - 0xf0 = v / 262144 by omega]
        simp only [List.cons_append, List.nil_append]
        rw [decodeUtf8_first (by omega), h₁, List.nil_append,
          decodeUtf8_more 1 (by split <;> omega) (by split <;> omega) (by omega),
          decodeUtf8_more 0 (by omega) (by omega) (by omega),
          decodeUtf8_last (by omega) (by omega) (by omega), hof _ (by omega)]

/-- A text comes back from UTF-8. -/
@[simp] theorem ofUtf8_toUtf8 (s : String) : ofUtf8 (toUtf8 s) = s := by
  have h : ∀ cs : List Char, decodeUtf8 none (cs.flatMap String.utf8EncodeChar) = cs := by
    intro cs
    induction cs with
    | nil => rfl
    | cons c cs ih => rw [List.flatMap_cons, decodeUtf8_encodeChar, ih]
  rw [ofUtf8, toUtf8, h, String.ofList_toList]

end Js
