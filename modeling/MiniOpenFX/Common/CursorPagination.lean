import MiniOpenFX.Common.Errors
import MiniOpenFX.Js.Coercion
import MiniOpenFX.Js.Encoding

/-!
# Cursors

The place of a page's last row, on its way to the client and back: JSON in base64url. Every cursor
that was encoded is decoded as it was (`decodeCursor_encodeCursor`); what else is accepted, given
the JSON value in the text (`cursorPayload?`), says `decodeCursor_eq_ok_iff`.

Source: `apps/api/src/common/cursor-pagination.ts`.
-/

namespace MiniOpenFX

open Js

/-- Where the next page of a history starts: the last row of the page before, by its time, which is
a JavaScript date and so without microseconds, and its id. -/
structure Cursor where
  createdAt : Date
  id : String
  deriving DecidableEq

/-- `JSON.stringify({ createdAt: cursor.createdAt.toISOString(), id: cursor.id })`. -/
def Cursor.stringify (cursor : Cursor) : String :=
  String.ofList ('\x7b' :: quoteJson "createdAt" ++ ':' :: quoteJson cursor.createdAt.toISOString ++
    ',' :: quoteJson "id" ++ ':' :: quoteJson cursor.id ++ ['\x7d'])

/-- The cursor as the client gets it: `base64url` of its JSON. -/
def encodeCursor (cursor : Cursor) : String := toBase64url (toUtf8 cursor.stringify)

/-- The JSON value in a cursor's text. -/
def cursorPayload? (raw : String) : Option Json := Json.parse? (ofUtf8 (ofBase64url raw))

/-- The JSON value of an encoded cursor. -/
theorem cursorPayload?_encodeCursor (cursor : Cursor) :
    cursorPayload? (encodeCursor cursor) = some (.obj [("createdAt",
      .str cursor.createdAt.toISOString), ("id", .str cursor.id)]) := by
  have hlex : Json.lex .between cursor.stringify.toList = some [.openBrace, .str "createdAt",
      .colon, .str cursor.createdAt.toISOString, .comma, .str "id", .colon, .str cursor.id,
      .closeBrace] := by
    simp only [Cursor.stringify, String.toList_ofList, List.cons_append, List.append_assoc]
    rw [Json.lex_punctuation (t := .openBrace) rfl, Json.lex_quoteJson,
      Json.lex_punctuation (t := .colon) rfl, Json.lex_quoteJson,
      Json.lex_punctuation (t := .comma) rfl, Json.lex_quoteJson,
      Json.lex_punctuation (t := .colon) rfl, Json.lex_quoteJson,
      Json.lex_punctuation (t := .closeBrace) rfl]
    rfl
  rw [cursorPayload?, encodeCursor, ofBase64url_toBase64url, ofUtf8_toUtf8, Json.parse?, hlex]
  rfl

/-- The empty text is no cursor: it decodes to the empty text, which is no JSON. -/
theorem cursorPayload?_empty : cursorPayload? "" = none := by rfl

section
variable [JsEngine]

/-- Reading a property of `null` throws; of any other value that is no object it is missing, and so
is the id then. -/
def decodeCursor (raw : String) : Except JsError Cursor :=
  let decoded := do
    let parsed ← cursorPayload? raw
    let createdAt := Date.ofJson? (parsed.field? "createdAt")
    match parsed.field? "id", createdAt with
    | some (.str id), some createdAt => some ⟨createdAt, id⟩
    | _, _ => none
  match decoded with
  | some cursor => .ok cursor
  | none => .error (.badRequestException "cursor is invalid or malformed")

/-- What a cursor's text has to hold to be accepted. -/
theorem decodeCursor_eq_ok_iff {raw : String} {cursor : Cursor} :
    decodeCursor raw = .ok cursor ↔ ∃ v, cursorPayload? raw = some v ∧
      v.field? "id" = some (.str cursor.id) ∧
        Date.ofJson? (v.field? "createdAt") = some cursor.createdAt := by
  unfold decodeCursor
  cases cursorPayload? raw with
  | none => simp
  | some v =>
    simp only [Option.bind_eq_bind, Option.bind_some, Option.some_inj, exists_eq_left']
    cases hid : v.field? "id" with
    | none => simp
    | some id =>
      cases hat : Date.ofJson? (v.field? "createdAt") with
      | none => cases id <;> simp
      | some createdAt =>
        cases id with
        | str id =>
          cases cursor
          simp [and_comm]
        | null | bool | num | arr | obj => simp

/-- What is not accepted is refused in one way. -/
theorem decodeCursor_eq_error {raw : String} {e : JsError} (h : decodeCursor raw = .error e) :
    e = .badRequestException "cursor is invalid or malformed" := by
  unfold decodeCursor at h
  dsimp only at h
  split at h
  · cases h
  · cases h; rfl

/-- A cursor comes back as it was. -/
@[simp] theorem decodeCursor_encodeCursor (cursor : Cursor) :
    decodeCursor (encodeCursor cursor) = .ok cursor :=
  decodeCursor_eq_ok_iff.mpr ⟨_, cursorPayload?_encodeCursor cursor, rfl,
    Date.ofText?_toISOString cursor.createdAt⟩

end

end MiniOpenFX
