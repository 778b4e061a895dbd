import MiniOpenFX.Js.Stringify
import Mathlib.Data.List.TakeWhile

/-!
# Types as JSON

A `JsonCodec` says how the values of a type are written as JSON and read again, and carries the
proof that the one undoes the other. What is written as a text comes back from the text
(`JsonCodec.ofText?_text`).
-/

namespace Js

/-- How a type is written as JSON, and read. -/
class JsonCodec (α : Type) where
  toJson : α → Json
  ofJson? : Json → Option α
  valid : ∀ a, (toJson a).Valid
  ofJson?_toJson : ∀ a, ofJson? (toJson a) = some a

open JsonCodec

variable {α : Type}

/-- A property of an object, read. -/
def Json.read? (α : Type) [JsonCodec α] (name : String) (v : Json) : Option α :=
  (v.field? name).bind ofJson?

namespace JsonCodec

attribute [simp] ofJson?_toJson valid

variable [JsonCodec α]

/-- A value as a JSON text. -/
def text (a : α) : String := (toJson a).stringify

/-- The value in a JSON text. -/
def ofText? (s : String) : Option α := (Json.parse? s).bind ofJson?

/-- A value comes back from its text. -/
@[simp] theorem ofText?_text (a : α) : ofText? (text a) = some a := by
  rw [ofText?, text, Json.parse?_stringify _ (valid a), Option.bind_some, ofJson?_toJson]

end JsonCodec

/-! ## Texts -/

/-- A type whose values are written as texts. -/
@[reducible] def JsonCodec.ofTexts (text : α → String) (read : String → Option α)
    (h : ∀ a, read (text a) = some a) : JsonCodec α where
  toJson a := .str (text a)
  ofJson? v := v.str?.bind read
  valid _ := trivial
  ofJson?_toJson := h

instance : JsonCodec String := .ofTexts id some fun _ => rfl

instance : JsonCodec Uuid := .ofTexts Uuid.text Uuid.ofText? Uuid.ofText?_text

instance : JsonCodec Bool where
  toJson := .bool
  ofJson?
    | .bool b => some b
    | _ => none
  valid _ := trivial
  ofJson?_toJson _ := rfl

/-- A text or `null`. -/
instance : JsonCodec (Option String) where
  toJson
    | none => .null
    | some s => .str s
  ofJson?
    | .null => some none
    | v => v.str?.map some
  valid s := by cases s <;> trivial
  ofJson?_toJson s := by cases s <;> rfl

/-! ## Numbers -/

/-- The digits of a number other than zero do not begin with zero. -/
theorem toDigits_head? {n : Nat} (h : n ≠ 0) : ∀ c ∈ (Nat.toDigits 10 n).head?, c ≠ '0' := by
  induction n using Nat.strongRecOn with
  | _ n ih =>
    rcases Nat.lt_or_ge n 10 with hlt | hge
    · rw [Nat.toDigits_of_lt_base hlt]
      intro c hc
      rw [← Option.some.inj hc]
      exact (by decide : ∀ m < 10, m ≠ 0 → Nat.digitChar m ≠ '0') n hlt h
    · obtain ⟨d, ds, hds, -⟩ := toDigits_cons (n / 10)
      have hhead := ih (n / 10) (by omega) (by omega)
      rw [Nat.toDigits_of_base_le (by decide) hge]
      rw [hds] at hhead ⊢
      exact hhead

/-- The digits of a natural number are an unsigned number of the JSON grammar, which allows no
leading zeros. -/
theorem isUnsigned_toDigits (n : Nat) : Json.isUnsigned (Nat.toDigits 10 n) = true := by
  have hall : ∀ c ∈ Nat.toDigits 10 n, c.isDigit = true := fun c hc =>
    Nat.isDigit_of_mem_toDigits (by decide) (by decide) hc
  have htake : (Nat.toDigits 10 n).takeWhile Char.isDigit = Nat.toDigits 10 n :=
    List.takeWhile_eq_self_iff.mpr hall
  have hdrop : (Nat.toDigits 10 n).dropWhile Char.isDigit = [] :=
    List.dropWhile_eq_nil_iff.mpr hall
  rw [Json.isUnsigned, htake, hdrop]
  by_cases h : n = 0
  · subst h
    rfl
  · obtain ⟨c, cs, hcs, -⟩ := toDigits_cons n
    have hc := toDigits_head? h c (by rw [hcs]; rfl)
    rw [hcs]
    simp [hc, Json.isFraction, Json.isExponent]

/-- A whole number is one of the grammar. -/
theorem isNumber_bigintText (n : Int) : Json.isNumber (bigintText n).toList = true := by
  cases n with
  | ofNat n =>
    rw [bigintText, String.toList_ofList]
    obtain ⟨c, cs, hcs, hc⟩ := toDigits_cons n
    have hunsigned := isUnsigned_toDigits n
    rw [hcs] at hunsigned ⊢
    unfold Json.isNumber
    split
    · next h => rw [(List.cons.inj h).1] at hc; cases hc
    · exact hunsigned
  | negSucc n =>
    rw [bigintText, String.toList_ofList]
    exact isUnsigned_toDigits (n + 1)

instance : JsonCodec Int where
  toJson n := .num (bigintText n)
  ofJson?
    | .num text => bigintOfText? text
    | _ => none
  valid := isNumber_bigintText
  ofJson?_toJson := bigintOfText?_bigintText

/-! ## Lists -/

/-- The elements of an array are valid just if each of them is. -/
theorem validItems_iff {vs : List Json} : Json.ValidItems vs ↔ ∀ v ∈ vs, v.Valid := by
  induction vs with
  | nil => simp [Json.ValidItems]
  | cons v vs ih => simp [Json.ValidItems, ih]

/-- The fields of an object are valid just if the value of each of them is. -/
theorem validFields_iff {fs : List (String × Json)} :
    Json.ValidFields fs ↔ ∀ f ∈ fs, f.2.Valid := by
  induction fs with
  | nil => simp [Json.ValidFields]
  | cons f fs ih => simp [Json.ValidFields, ih]

instance [JsonCodec α] : JsonCodec (List α) where
  toJson as := .arr (as.map toJson)
  ofJson?
    | .arr vs => vs.mapM ofJson?
    | _ => none
  valid as := validItems_iff.mpr fun v hv => by
    obtain ⟨a, -, rfl⟩ := List.mem_map.mp hv
    exact valid a
  ofJson?_toJson as := by
    dsimp only
    induction as with
    | nil => rfl
    | cons a as ih => simp [ih]

end Js
