import MiniOpenFX.Js.Json

/-!
# JSON texts

`Json.stringify` is what `JSON.stringify` makes of a value, without spaces. What it writes is read
back as it was (`parse?_stringify`): the lexer finds the tokens of the value (`lex_chars`), and the
parser puts them together again (`parse_tokens`).
-/

namespace Js.Json

mutual

/-- `JSON.stringify`. -/
def chars : Json → List Char
  | .null => ['n', 'u', 'l', 'l']
  | .bool true => ['t', 'r', 'u', 'e']
  | .bool false => ['f', 'a', 'l', 's', 'e']
  | .num text => text.toList
  | .str s => quoteJson s
  | .arr items => '[' :: (itemChars true items ++ [']'])
  | .obj fields => '\x7b' :: (fieldChars true fields ++ ['\x7d'])

/-- The items of an array, the first ones or those after others. -/
def itemChars : Bool → List Json → List Char
  | _, [] => []
  | true, v :: vs => v.chars ++ itemChars false vs
  | false, v :: vs => ',' :: (v.chars ++ itemChars false vs)

/-- The properties of an object, the first ones or those after others. -/
def fieldChars : Bool → List (String × Json) → List Char
  | _, [] => []
  | true, (name, v) :: fs => quoteJson name ++ ':' :: (v.chars ++ fieldChars false fs)
  | false, (name, v) :: fs =>
    ',' :: (quoteJson name ++ ':' :: (v.chars ++ fieldChars false fs))

end

/-- `JSON.stringify`, without spaces and with the properties in their order. -/
def stringify (v : Json) : String := String.ofList v.chars

mutual

/-- The tokens of a value. -/
def tokens : Json → List Token
  | .null => [.word "null"]
  | .bool true => [.word "true"]
  | .bool false => [.word "false"]
  | .num text => [.num text]
  | .str s => [.str s]
  | .arr items => .openBracket :: (itemTokens true items ++ [.closeBracket])
  | .obj fields => .openBrace :: (fieldTokens true fields ++ [.closeBrace])

/-- The tokens of the items, the first ones or those after others. -/
def itemTokens : Bool → List Json → List Token
  | _, [] => []
  | true, v :: vs => v.tokens ++ itemTokens false vs
  | false, v :: vs => .comma :: (v.tokens ++ itemTokens false vs)

/-- The tokens of the properties, the first ones or those after others. -/
def fieldTokens : Bool → List (String × Json) → List Token
  | _, [] => []
  | true, (name, v) :: fs => .str name :: .colon :: (v.tokens ++ fieldTokens false fs)
  | false, (name, v) :: fs =>
    .comma :: .str name :: .colon :: (v.tokens ++ fieldTokens false fs)

end

mutual

/-- Every number in the value is one of the grammar. -/
def Valid : Json → Prop
  | .num text => isNumber text.toList = true
  | .arr items => ValidItems items
  | .obj fields => ValidFields fields
  | _ => True

/-- Every item can be written. -/
def ValidItems : List Json → Prop
  | [] => True
  | v :: vs => v.Valid ∧ ValidItems vs

/-- Every property can be written. -/
def ValidFields : List (String × Json) → Prop
  | [] => True
  | f :: fs => f.2.Valid ∧ ValidFields fs

end

/-! ## Reading tokens -/

/-- The text ends, or goes on with a token of one character. -/
def Delimited (cs : List Char) : Prop := ∀ c ∈ cs.head?, (Lexer.punctuation? c).isSome

/-- A punctuation character is a token of its own, and no part of a word or of a number. -/
theorem start_punctuation {c : Char} (h : (Lexer.punctuation? c).isSome) :
    ∃ t, Lexer.start c = some ([t], .between) ∧ c.isAlpha = false ∧
      Lexer.isNumberChar c = false := by
  unfold Lexer.punctuation? at h
  split at h
  all_goals first | exact ⟨_, rfl, rfl, rfl⟩ | cases h

/-- A token that goes on until a delimiter. -/
theorem lex_delimited {l : Lexer} {t : Token} (hfinish : l.finish = some [t])
    (hstep : ∀ c t', Lexer.start c = some ([t'], .between) → c.isAlpha = false →
      Lexer.isNumberChar c = false → l.step c = some ([t, t'], .between))
    {cs : List Char} (h : Delimited cs) : lex l cs = (lex .between cs).map (t :: ·) := by
  cases cs with
  | nil => exact hfinish
  | cons c cs =>
    obtain ⟨t', hstart, halpha, hnumber⟩ := start_punctuation (h c rfl)
    rw [lex, hstep c t' hstart halpha hnumber, lex_punctuation hstart, Option.bind_some,
      Option.map_map]
    rfl

theorem lex_letters {ds : List Char} (h : ∀ d ∈ ds, d.isAlpha) (read cs : List Char) :
    lex (.word read) (ds ++ cs) = lex (.word (ds.reverse ++ read)) cs := by
  induction ds generalizing read with
  | nil => rfl
  | cons d ds ih =>
    have hstep : Lexer.step d (.word read) = some ([], .word (d :: read)) := if_pos (h d (.head _))
    rw [List.cons_append, lex_cons hstep, ih fun c hc => h c (.tail _ hc), List.reverse_cons,
      List.append_assoc]
    rfl

/-- A word, read back. -/
theorem lex_word {c : Char} {ds : List Char} (hc : Lexer.step c .between = some ([], .word [c]))
    (hds : ds.all Char.isAlpha) {cs : List Char} (h : Delimited cs) :
    lex .between (c :: ds ++ cs) = (lex .between cs).map
      (.word (String.ofList (c :: ds)) :: ·) := by
  have hfinish : Lexer.finish (.word (ds.reverse ++ [c])) =
      some [.word (String.ofList (c :: ds))] := by
    rw [Lexer.finish, List.reverse_append, List.reverse_reverse]
    rfl
  rw [List.cons_append, lex_cons hc, lex_letters (List.all_eq_true.mp hds)]
  refine lex_delimited hfinish (fun d t' hstart halpha _ => ?_) h
  rw [Lexer.step, halpha, hfinish, hstart]
  rfl

/-! ## Numbers -/

theorem isNumberChar_of_isDigit {c : Char} (h : c.isDigit) : Lexer.isNumberChar c = true :=
  Bool.or_eq_true_iff.mpr (.inl h)

/-- A run of digits and what follows it are characters of numbers if what follows is. -/
theorem isNumberChar_of_dropWhile {cs : List Char}
    (h : ∀ c ∈ cs.dropWhile Char.isDigit, Lexer.isNumberChar c = true) :
    ∀ c ∈ cs, Lexer.isNumberChar c = true := by
  intro c hc
  rw [← List.takeWhile_append_dropWhile (p := Char.isDigit) (l := cs)] at hc
  rcases List.mem_append.mp hc with hc | hc
  · exact isNumberChar_of_isDigit (List.all_eq_true.mp List.all_takeWhile c hc)
  · exact h c hc

theorem isDigit_of_digits? {cs : List Char} (h : (digits? cs).isSome) : ∀ c ∈ cs, c.isDigit := by
  unfold digits? at h
  split at h
  · next hdigits => exact List.all_eq_true.mp hdigits.2
  · cases h

theorem isNumberChar_of_isExponent {cs : List Char} (h : isExponent cs = true) :
    ∀ c ∈ cs, Lexer.isNumberChar c = true := by
  have hletter : ∀ c, (c == 'e' || c == 'E') = true → Lexer.isNumberChar c = true := by
    intro c hc
    rcases Bool.or_eq_true_iff.mp hc with hc | hc <;> rw [eq_of_beq hc] <;> rfl
  have hrest : ∀ c cs, (c == 'e' || c == 'E') && (digits? cs).isSome →
      ∀ d ∈ cs, Lexer.isNumberChar d = true := fun c cs hc d hd =>
    isNumberChar_of_isDigit (isDigit_of_digits? (Bool.and_eq_true_iff.mp hc).2 d hd)
  intro d hd
  unfold isExponent at h
  split at h
  · cases hd
  · next c cs =>
    rcases List.mem_cons.mp hd with rfl | hd
    · exact hletter _ (Bool.and_eq_true_iff.mp h).1
    · rcases List.mem_cons.mp hd with rfl | hd
      · rfl
      · exact hrest c cs h d hd
  · next c cs =>
    rcases List.mem_cons.mp hd with rfl | hd
    · exact hletter _ (Bool.and_eq_true_iff.mp h).1
    · rcases List.mem_cons.mp hd with rfl | hd
      · rfl
      · exact hrest c cs h d hd
  · next c cs _ _ =>
    rcases List.mem_cons.mp hd with rfl | hd
    · exact hletter _ (Bool.and_eq_true_iff.mp h).1
    · exact hrest c cs h d hd

/-- A fraction, with or without an exponent, consists of characters of numbers. -/
theorem isNumberChar_of_isFraction {cs : List Char} (h : isFraction cs = true) :
    ∀ c ∈ cs, Lexer.isNumberChar c = true := by
  unfold isFraction at h
  split at h
  · next cs =>
    intro c hc
    rcases List.mem_cons.mp hc with rfl | hc
    · rfl
    · exact isNumberChar_of_dropWhile
        (isNumberChar_of_isExponent (Bool.and_eq_true_iff.mp h).2) c hc
  · exact isNumberChar_of_isExponent h

/-- The characters of a number, the first of which starts one. -/
theorem isNumber_chars {cs : List Char} (h : isNumber cs = true) :
    (∀ c ∈ cs, Lexer.isNumberChar c = true) ∧
      ∃ c cs', cs = c :: cs' ∧ (c.isDigit || c = '-') = true := by
  have hunsigned : ∀ {cs : List Char}, isUnsigned cs = true →
      (∀ c ∈ cs, Lexer.isNumberChar c = true) ∧ ∃ c cs', cs = c :: cs' ∧ c.isDigit = true := by
    intro cs h
    obtain ⟨hwhole, hfraction⟩ := Bool.and_eq_true_iff.mp h
    refine ⟨isNumberChar_of_dropWhile (isNumberChar_of_isFraction hfraction), ?_⟩
    cases cs with
    | nil => simp at hwhole
    | cons c cs =>
      refine ⟨c, cs, rfl, ?_⟩
      cases hc : c.isDigit with
      | true => rfl
      | false => simp [hc] at hwhole
  unfold isNumber at h
  split at h
  · next cs =>
    refine ⟨fun c hc => ?_, '-', cs, rfl, rfl⟩
    rcases List.mem_cons.mp hc with rfl | hc
    · rfl
    · exact (hunsigned h).1 c hc
  · obtain ⟨hchars, c, cs', rfl, hc⟩ := hunsigned h
    exact ⟨hchars, c, cs', rfl, by rw [hc]; rfl⟩

/-- Inside a number the lexer collects characters of numbers. -/
theorem lex_number_chars {ds : List Char} (h : ∀ c ∈ ds, Lexer.isNumberChar c = true)
    (read cs : List Char) :
      lex (.number read) (ds ++ cs) = lex (.number (ds.reverse ++ read)) cs := by
  induction ds generalizing read with
  | nil => rfl
  | cons d ds ih =>
    have hstep : Lexer.step d (.number read) = some ([], .number (d :: read)) :=
      if_pos (h d (.head _))
    rw [List.cons_append, lex_cons hstep, ih fun c hc => h c (.tail _ hc), List.reverse_cons,
      List.append_assoc]
    rfl

/-- A number, read back. -/
theorem lex_number {text : String} (h : isNumber text.toList = true) {cs : List Char}
    (hcs : Delimited cs) :
    lex .between (text.toList ++ cs) = (lex .between cs).map (.num text :: ·) := by
  obtain ⟨hchars, c, ds, htext, hc⟩ := isNumber_chars h
  have hfinish : Lexer.finish (.number (ds.reverse ++ [c])) = some [.num text] := by
    have hread : (ds.reverse ++ [c]).reverse = text.toList := by simp [htext]
    rw [Lexer.finish, hread, if_pos h, String.ofList_toList]
  have hstart : Lexer.step c .between = some ([], .number [c]) := by
    have hother : c ∉ [' ', '\t', '\n', '\r'] ∧ c ≠ '"' ∧ Lexer.punctuation? c = none := by
      refine ⟨?_, ?_, ?_⟩
      · rintro hmem
        simp only [List.mem_cons, List.not_mem_nil, or_false] at hmem
        rcases hmem with rfl | rfl | rfl | rfl <;> cases hc
      · rintro rfl
        cases hc
      · unfold Lexer.punctuation?
        split <;> first | rfl | cases hc
    rw [Lexer.step, Lexer.start, if_neg hother.1, if_neg hother.2.1, hother.2.2]
    exact if_pos hc
  rw [htext] at hchars ⊢
  rw [List.cons_append, lex_cons (m := .number [c]) hstart,
    lex_number_chars fun c hc => hchars c (.tail _ hc)]
  refine lex_delimited hfinish (fun d t' hstart _ hnumber => ?_) hcs
  rw [Lexer.step, hnumber, hfinish, hstart]
  rfl

/-! ## Values, read back -/

/-- A text that begins with punctuation cannot be taken for the continuation of the word or number
before it. -/
theorem delimited_cons {c : Char} {cs : List Char} (h : (Lexer.punctuation? c).isSome := by rfl) :
    Delimited (c :: cs) := by
  intro d hd
  rw [← Option.some.inj hd]
  exact h

/-- After an element of an array comes a comma or the closing bracket. -/
theorem delimited_items (vs : List Json) (cs : List Char) :
    Delimited (itemChars false vs ++ ']' :: cs) := by
  cases vs with
  | nil => exact delimited_cons
  | cons v vs => exact delimited_cons

/-- After a field of an object comes a comma or the closing brace. -/
theorem delimited_fields (fs : List (String × Json)) (cs : List Char) :
    Delimited (fieldChars false fs ++ '\x7d' :: cs) := by
  cases fs with
  | nil => exact delimited_cons
  | cons f fs => exact delimited_cons

mutual

/-- **The lexer** finds the tokens of a value. -/
theorem lex_chars : ∀ (v : Json), v.Valid → ∀ {cs : List Char}, Delimited cs →
    lex .between (v.chars ++ cs) = (lex .between cs).map (v.tokens ++ ·)
  | .null, _, _, h => lex_word rfl rfl h
  | .bool true, _, _, h => lex_word rfl rfl h
  | .bool false, _, _, h => lex_word rfl rfl h
  | .num _, hv, _, h => lex_number hv h
  | .str s, _, cs, _ => lex_quoteJson s cs
  | .arr items, hv, cs, _ => by
    rw [chars, List.cons_append, lex_punctuation (t := .openBracket) rfl, List.append_assoc,
      List.singleton_append, lex_itemChars true items hv, lex_punctuation (t := .closeBracket) rfl]
    simp [tokens, Function.comp_def]
  | .obj fields, hv, cs, _ => by
    rw [chars, List.cons_append, lex_punctuation (t := .openBrace) rfl, List.append_assoc,
      List.singleton_append, lex_fieldChars true fields hv, lex_punctuation (t := .closeBrace) rfl]
    simp [tokens, Function.comp_def]

/-- The text of the elements of an array is cut into their tokens, up to the closing bracket. -/
theorem lex_itemChars : ∀ (first : Bool) (vs : List Json), ValidItems vs → ∀ {cs : List Char},
    lex .between (itemChars first vs ++ ']' :: cs) =
      (lex .between (']' :: cs)).map (itemTokens first vs ++ ·)
  | _, [], _, _ => by
    simp [itemChars, itemTokens]
  | true, v :: vs, hv, cs => by
    rw [itemChars, List.append_assoc, lex_chars v hv.1 (delimited_items vs cs),
      lex_itemChars false vs hv.2]
    simp [itemTokens, Function.comp_def]
  | false, v :: vs, hv, cs => by
    rw [itemChars, List.cons_append, lex_punctuation (t := .comma) rfl, List.append_assoc,
      lex_chars v hv.1 (delimited_items vs cs), lex_itemChars false vs hv.2]
    simp [itemTokens, Function.comp_def]

/-- The text of the fields of an object is cut into their tokens, up to the closing brace. -/
theorem lex_fieldChars : ∀ (first : Bool) (fs : List (String × Json)), ValidFields fs →
    ∀ {cs : List Char}, lex .between (fieldChars first fs ++ '\x7d' :: cs) =
      (lex .between ('\x7d' :: cs)).map (fieldTokens first fs ++ ·)
  | _, [], _, _ => by
    simp [fieldChars, fieldTokens]
  | true, (name, v) :: fs, hv, cs => by
    rw [fieldChars, List.append_assoc, lex_quoteJson, List.cons_append,
      lex_punctuation (t := .colon) rfl, List.append_assoc,
      lex_chars v hv.1 (delimited_fields fs cs), lex_fieldChars false fs hv.2]
    simp [fieldTokens, Function.comp_def]
  | false, (name, v) :: fs, hv, cs => by
    rw [fieldChars, List.cons_append, lex_punctuation (t := .comma) rfl, List.append_assoc,
      lex_quoteJson, List.cons_append, lex_punctuation (t := .colon) rfl, List.append_assoc,
      lex_chars v hv.1 (delimited_fields fs cs), lex_fieldChars false fs hv.2]
    simp [fieldTokens, Function.comp_def]

end

/-- Where a value is expected, any token but the end of an array starts one. -/
theorem step_value {t : Token} (ht : t ≠ .closeBracket) (first : Bool) (stack : List Frame) :
    Parser.step ⟨.value first, stack⟩ t = Parser.step ⟨.value false, stack⟩ t := by
  cases first with
  | false => rfl
  | true =>
    cases stack with
    | nil => cases t <;> rfl
    | cons frame stack =>
      cases frame with
      | obj => cases t <;> rfl
      | arr =>
        cases t with
        | closeBracket => exact absurd rfl ht
        | _ => rfl

theorem run_cons {p q : Parser} {t : Token} (h : p.step t = some q) (ts : List Token) :
    (t :: ts).foldlM Parser.step p = ts.foldlM Parser.step q := by
  rw [List.foldlM_cons, h]
  rfl

/-- The parser takes a list of tokens and then another as it takes both in one go. -/
theorem run_append {p q : Parser} {ts : List Token} (h : ts.foldlM Parser.step p = some q)
    (ts' : List Token) : (ts ++ ts').foldlM Parser.step p = ts'.foldlM Parser.step q := by
  rw [List.foldlM_append, h]
  rfl

mutual

/-- **The parser** puts the tokens of a value together. -/
theorem parse_tokens : ∀ (v : Json) (first : Bool) (stack : List Frame),
    v.tokens.foldlM Parser.step ⟨.value first, stack⟩ = some ⟨.next v, stack⟩
  | .null, first, stack | .bool true, first, stack | .bool false, first, stack
  | .num _, first, stack | .str _, first, stack => by
    rw [tokens, List.foldlM_cons, step_value (by simp)]
    rfl
  | .arr [], first, stack | .obj [], first, stack => by
    rw [tokens, List.foldlM_cons, step_value (by simp)]
    rfl
  | .arr (v :: vs), first, stack => by
    rw [tokens, run_cons (step_value (by simp) first stack), itemTokens, List.append_assoc,
      run_append (parse_tokens v true _)]
    exact parse_itemTokens vs v [] stack
  | .obj ((name, v) :: fs), first, stack => by
    rw [tokens, run_cons (step_value (by simp) first stack), fieldTokens, List.cons_append,
      List.cons_append, run_cons rfl, run_cons rfl, List.append_assoc,
      run_append (parse_tokens v false _)]
    exact parse_fieldTokens fs v [] name stack

/-- Further items, and the end of the array. -/
theorem parse_itemTokens : ∀ (vs : List Json) (v : Json) (read : List Json) (stack : List Frame),
    (itemTokens false vs ++ [Token.closeBracket]).foldlM Parser.step
      ⟨.next v, .arr read :: stack⟩ = some ⟨.next (.arr ((v :: read).reverse ++ vs)), stack⟩
  | [], v, read, stack => by
    rw [List.append_nil]
    rfl
  | w :: vs, v, read, stack => by
    rw [itemTokens, List.cons_append, run_cons rfl, List.append_assoc,
      run_append (parse_tokens w false _), parse_itemTokens vs w (v :: read) stack,
      List.reverse_cons, List.append_assoc]
    rfl

/-- Further properties, and the end of the object. -/
theorem parse_fieldTokens : ∀ (fs : List (String × Json)) (v : Json)
    (read : List (String × Json)) (name : String) (stack : List Frame),
    (fieldTokens false fs ++ [Token.closeBrace]).foldlM Parser.step
      ⟨.next v, .obj read name :: stack⟩ =
        some ⟨.next (.obj (((name, v) :: read).reverse ++ fs)), stack⟩
  | [], v, read, name, stack => by
    rw [List.append_nil]
    rfl
  | (name', w) :: fs, v, read, name, stack => by
    rw [fieldTokens, List.cons_append, List.cons_append, List.cons_append, run_cons rfl,
      run_cons rfl, run_cons rfl, List.append_assoc, run_append (parse_tokens w false _),
      parse_fieldTokens fs w ((name, v) :: read) name' stack, List.reverse_cons, List.append_assoc]
    rfl

end

/-- **What `JSON.stringify` writes is read back** as it was. -/
theorem parse?_stringify (v : Json) (h : v.Valid) : parse? v.stringify = some v := by
  have hlex : lex .between v.chars = some v.tokens := by
    have : lex .between (v.chars ++ []) = (lex .between []).map (v.tokens ++ ·) :=
      lex_chars v h fun c hc => by cases hc
    rwa [List.append_nil, lex, Lexer.finish, Option.map_some, List.append_nil] at this
  rw [parse?, stringify, String.toList_ofList, hlex]
  simp only [Option.bind_eq_bind, Option.bind_some, parse_tokens]
  rfl

end Js.Json
