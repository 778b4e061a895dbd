import MiniOpenFX.Js.Text

/-!
# Dates of the runtime

`Js.Date` is a valid JavaScript `Date`: milliseconds since 1970 within the range of time values.
`Date.toISOString` prints it through the proleptic Gregorian calendar, whose years are counted from
March here (`marchFirst`), so that the leap day comes last. `Date.ofIso?` accepts only texts that
`toISOString` prints, and reads each of them as the date it was printed from
(`Date.ofIso?_toISOString`).
-/

namespace Js

/-- A valid `Date`. -/
structure Date where
  ms : Int
  lower : -8640000000000000 ≤ ms
  upper : ms ≤ 8640000000000000
  deriving DecidableEq

/-! ## Calendar -/

/-- Days from 1 March of year 0 to 1 March of year `y`. -/
def marchFirst (y : Int) : Int := 365 * y + y / 4 - y / 100 + y / 400

/-- The year, counted from March, that day `z` after 1 March of year 0 lies in: an estimate from
the mean length of a year, off by one at most. -/
def marchYear (z : Int) : Int :=
  let y := 400 * z / 146097
  if marchFirst (y + 1) ≤ z then y + 1 else if marchFirst y ≤ z then y else y - 1

/-- `marchYear` is the year a day belongs to: the last one whose first of March is not after the
day. It is `z / 365.2425`, corrected by one where the division is off. -/
theorem marchYear_spec (z : Int) :
    marchFirst (marchYear z) ≤ z ∧ z < marchFirst (marchYear z + 1) := by
  have hlow : marchFirst (400 * z / 146097 - 1) ≤ z := by unfold marchFirst; omega
  have hhigh : z < marchFirst (400 * z / 146097 + 1 + 1) := by unfold marchFirst; omega
  simp only [marchYear]
  split
  · next h => exact ⟨h, hhigh⟩
  · next h =>
    split
    · next h' => exact ⟨h', by omega⟩
    · next h' => exact ⟨hlow, by simpa using h'⟩

/-- A day of the calendar. -/
structure Civil where
  year : Int
  month : Int
  day : Int

/-- Day `d` after 1 March of year `y`. -/
def Civil.ofMarch (y d : Int) : Civil :=
  let m := (5 * d + 2) / 153
  let month := if m < 10 then m + 3 else m - 9
  ⟨if month ≤ 2 then y + 1 else y, month, d - (153 * m + 2) / 5 + 1⟩

/-- The calendar day `n` days after 1 January 1970. -/
def Civil.ofDays (n : Int) : Civil :=
  let z := n + 719468
  .ofMarch (marchYear z) (z - marchFirst (marchYear z))

/-- Days from 1 January 1970. -/
def Civil.toDays (c : Civil) : Int :=
  let y := if c.month ≤ 2 then c.year - 1 else c.year
  let m := if c.month ≤ 2 then c.month + 9 else c.month - 3
  marchFirst y + (153 * m + 2) / 5 + c.day - 1 - 719468

/-- The day that is `d` days after the first of March of year `y` has that number, for every `d`
that a year can have. -/
theorem Civil.toDays_ofMarch {y d : Int} (h₁ : 0 ≤ d) (h₂ : d ≤ 365) :
    (Civil.ofMarch y d).toDays = marchFirst y + d - 719468 := by
  have hm : 0 ≤ (5 * d + 2) / 153 ∧ (5 * d + 2) / 153 ≤ 11 := by omega
  by_cases hlt : (5 * d + 2) / 153 < 10
  · have hmonth : ¬ (5 * d + 2) / 153 + 3 ≤ 2 := by omega
    simp only [Civil.ofMarch, Civil.toDays, if_pos hlt, if_neg hmonth]
    rw [show (5 * d + 2) / 153 + 3 - 3 = (5 * d + 2) / 153 by omega]
    omega
  · have hmonth : (5 * d + 2) / 153 - 9 ≤ 2 := by omega
    simp only [Civil.ofMarch, Civil.toDays, if_neg hlt, if_pos hmonth]
    rw [show (5 * d + 2) / 153 - 9 + 9 = (5 * d + 2) / 153 by omega,
      show y + 1 - 1 = y by omega]
    omega

/-- A day is at most 365 days after the first of March of its year. -/
theorem dayOfYear_bounds (z : Int) :
    0 ≤ z - marchFirst (marchYear z) ∧ z - marchFirst (marchYear z) ≤ 365 := by
  obtain ⟨h₁, h₂⟩ := marchYear_spec z
  have hlen : marchFirst (marchYear z + 1) ≤ marchFirst (marchYear z) + 366 := by
    unfold marchFirst; omega
  omega

/-- A day survives the calendar. -/
theorem Civil.toDays_ofDays (n : Int) : (Civil.ofDays n).toDays = n := by
  obtain ⟨h₁, h₂⟩ := dayOfYear_bounds (n + 719468)
  rw [Civil.ofDays, Civil.toDays_ofMarch h₁ h₂]
  omega

/-- Months and days of the calendar have two digits. -/
theorem Civil.ofDays_bounds (n : Int) :
    (1 ≤ (Civil.ofDays n).month ∧ (Civil.ofDays n).month ≤ 12) ∧
      1 ≤ (Civil.ofDays n).day ∧ (Civil.ofDays n).day ≤ 31 := by
  obtain ⟨h₁, h₂⟩ := dayOfYear_bounds (n + 719468)
  simp only [Civil.ofDays, Civil.ofMarch]
  generalize n + 719468 - marchFirst (marchYear (n + 719468)) = d at *
  refine ⟨?_, by omega, by omega⟩
  split <;> omega

/-- The years of valid dates have at most six digits. -/
theorem Civil.ofDays_year {n : Int} (h₁ : -100000000 ≤ n) (h₂ : n ≤ 100000000) :
    -999999 ≤ (Civil.ofDays n).year ∧ (Civil.ofDays n).year ≤ 999999 := by
  obtain ⟨h₃, h₄⟩ := marchYear_spec (n + 719468)
  have hy : -999990 ≤ marchYear (n + 719468) ∧ marchYear (n + 719468) ≤ 999990 := by
    generalize marchYear (n + 719468) = y at *
    unfold marchFirst at *
    omega
  have hyear : (Civil.ofDays n).year = marchYear (n + 719468) ∨
      (Civil.ofDays n).year = marchYear (n + 719468) + 1 := by
    simp only [Civil.ofDays, Civil.ofMarch]
    generalize (5 * (n + 719468 - marchFirst (marchYear (n + 719468))) + 2) / 153 = m
    by_cases h : (if m < 10 then m + 3 else m - 9) ≤ 2
    · exact .inr (if_pos h)
    · exact .inl (if_neg h)
  omega

/-! ## ISO texts -/

/-- The year of an ISO text: four digits, or a sign and six digits. -/
def isoYear (y : Int) : List Char :=
  if 0 ≤ y ∧ y ≤ 9999 then padded 4 y.toNat
  else if 0 ≤ y then '+' :: padded 6 y.toNat
  else '-' :: padded 6 (-y).toNat

/-- Month, day and time of day, in milliseconds, of an ISO text. -/
def isoTail (c : Civil) (t : Nat) : List Char :=
  ['-'] ++ padded 2 c.month.toNat ++ ['-'] ++ padded 2 c.day.toNat ++ ['T'] ++
    padded 2 (t / 3600000) ++ [':'] ++ padded 2 (t / 60000 % 60) ++ [':'] ++
    padded 2 (t / 1000 % 60) ++ ['.'] ++ padded 3 (t % 1000) ++ ['Z']

/-- `Date.prototype.toISOString`. -/
def Date.toISOString (d : Date) : String :=
  let c := Civil.ofDays (d.ms / 86400000)
  String.ofList (isoYear c.year ++ isoTail c (d.ms % 86400000).toNat)

/-- The time value `ms`, if valid. -/
def Date.ofMillis? (ms : Int) : Option Date :=
  if h : -8640000000000000 ≤ ms ∧ ms ≤ 8640000000000000 then some ⟨ms, h.1, h.2⟩ else none

/-- The year an ISO text starts with, and what follows it. -/
def isoYear? : List Char → Option (Int × List Char)
  | '+' :: cs => (digits? (cs.take 6)).map fun n : Nat => ((n : Int), cs.drop 6)
  | '-' :: cs => (digits? (cs.take 6)).map fun n : Nat => (-(n : Int), cs.drop 6)
  | cs => (digits? (cs.take 4)).map fun n : Nat => ((n : Int), cs.drop 4)

/-- The number in some of the characters, zero where they are no digits. -/
def number (cs : List Char) : Int := ((digits? cs).getD 0 : Nat)

/-- The time value an ISO text in full form stands for; nothing is checked but its shape. -/
def isoMillis? (s : String) : Option Int :=
  match isoYear? s.toList with
  | some (y, ['-', m₁, m₂, '-', d₁, d₂, 'T', h₁, h₂, ':', n₁, n₂, ':', s₁, s₂, '.', u₁, u₂, u₃,
    'Z']) =>
    some (Civil.toDays ⟨y, number [m₁, m₂], number [d₁, d₂]⟩ * 86400000 +
      (number [h₁, h₂] * 3600000 + number [n₁, n₂] * 60000 + number [s₁, s₂] * 1000 +
        number [u₁, u₂, u₃]))
  | _ => none

/-- The date whose ISO text is `s`. -/
def Date.ofIso? (s : String) : Option Date :=
  ((isoMillis? s).bind Date.ofMillis?).filter fun d => d.toISOString = s

/-- A number that fits the width is read back from its padded digits. -/
theorem number_padded {w n : Nat} (hw : 0 < w) (h : n < 10 ^ w) : number (padded w n) = n := by
  rw [number, digits?_padded hw h]; rfl

/-- Two digits are read as the number they were printed from; this is how months, days, hours,
minutes and seconds are. -/
theorem number_two {n : Nat} (h : n < 100) :
    number [Nat.digitChar (n / 10 % 10), Nat.digitChar (n % 10)] = n :=
  number_padded (w := 2) (by decide) h

/-- Three digits are read as the number they were printed from, as milliseconds are. -/
theorem number_three {n : Nat} (h : n < 1000) : number [Nat.digitChar (n / 10 / 10 % 10),
    Nat.digitChar (n / 10 % 10), Nat.digitChar (n % 10)] = n :=
  number_padded (w := 3) (by decide) h

theorem take_drop_padded (w n : Nat) (cs : List Char) :
    (padded w n ++ cs).take w = padded w n ∧ (padded w n ++ cs).drop w = cs :=
  ⟨List.take_left' (padded_length w n), List.drop_left' (padded_length w n)⟩

/-- The year is read back from its four digits or from its sign and six digits, and the rest of the
text is left. -/
theorem isoYear?_isoYear {y : Int} (h₁ : -999999 ≤ y) (h₂ : y ≤ 999999) (cs : List Char) :
    isoYear? (isoYear y ++ cs) = some (y, cs) := by
  unfold isoYear
  split
  · next h =>
    obtain ⟨ht, hd⟩ := take_drop_padded 4 y.toNat cs
    have hdig : digits? (padded 4 y.toNat) = some y.toNat :=
      digits?_padded (by decide) (by omega)
    -- a digit is no sign
    have hsign : ∀ c, c.isDigit = false → ∀ cs', padded 4 y.toNat ++ cs = c :: cs' → False := by
      intro c hc cs' he
      have hmem : c ∈ padded 4 y.toNat := by
        cases hp : padded 4 y.toNat with
        | nil => have := padded_length 4 y.toNat; rw [hp] at this; cases this
        | cons a as =>
          rw [hp] at he
          rw [(List.cons.inj he).1]
          exact List.mem_cons_self
      rw [padded_isDigit 4 _ c hmem] at hc
      cases hc
    rw [isoYear?.eq_3 _ (hsign '+' (by decide)) (hsign '-' (by decide)), ht, hd, hdig,
      Option.map_some, Int.toNat_of_nonneg h.1]
  · next h =>
    split
    · next h' =>
      obtain ⟨ht, hd⟩ := take_drop_padded 6 y.toNat cs
      rw [List.cons_append, isoYear?.eq_1, ht, hd, digits?_padded (by decide) (by omega),
        Option.map_some, Int.toNat_of_nonneg h']
    · next h' =>
      obtain ⟨ht, hd⟩ := take_drop_padded 6 (-y).toNat cs
      rw [List.cons_append, isoYear?.eq_2, ht, hd, digits?_padded (by decide) (by omega),
        Option.map_some, Int.toNat_of_nonneg (by omega), Int.neg_neg]

/-- The time value of a date's ISO text. -/
theorem isoMillis?_toISOString (d : Date) : isoMillis? d.toISOString = some d.ms := by
  obtain ⟨⟨hm₁, hm₂⟩, hd₁, hd₂⟩ := Civil.ofDays_bounds (d.ms / 86400000)
  have hy := Civil.ofDays_year (n := d.ms / 86400000) (by have := d.lower; omega)
    (by have := d.upper; omega)
  have hdays := Civil.toDays_ofDays (d.ms / 86400000)
  have ht : (d.ms % 86400000).toNat < 86400000 := by omega
  have hms : d.ms = d.ms / 86400000 * 86400000 + ((d.ms % 86400000).toNat : Int) := by omega
  rw [isoMillis?, Date.toISOString, String.toList_ofList, isoYear?_isoYear hy.1 hy.2]
  generalize (d.ms % 86400000).toNat = t at *
  generalize Civil.ofDays (d.ms / 86400000) = c at *
  change some (Civil.toDays ⟨c.year, number _, number _⟩ * 86400000 +
    (number _ * 3600000 + number _ * 60000 + number _ * 1000 + number _)) = _
  rw [number_two (n := c.month.toNat) (by omega), number_two (n := c.day.toNat) (by omega),
    number_two (n := t / 3600000) (by omega), number_two (n := t / 60000 % 60) (by omega),
    number_two (n := t / 1000 % 60) (by omega), number_three (n := t % 1000) (by omega),
    Int.toNat_of_nonneg (by omega), Int.toNat_of_nonneg (by omega), hdays]
  exact congrArg some (by omega)

/-- A date is read back from its ISO text. -/
@[simp] theorem Date.ofIso?_toISOString (d : Date) : Date.ofIso? d.toISOString = some d := by
  have : Date.ofMillis? d.ms = some d := dif_pos ⟨d.lower, d.upper⟩
  simp [Date.ofIso?, isoMillis?_toISOString, this]

end Js
