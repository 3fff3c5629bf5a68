import SpannerEtcd.Lib.Decimal

/-!
# RFC 3339 timestamps

Instants are nanoseconds since the Unix epoch.  `parse` reads exactly the
timestamps of RFC 3339 with an upper-case `T` and `Z`; digits of the fraction
after the ninth are dropped.
-/

namespace RFC3339

open Decimal (Text isDigit fixed ofText)

def isLeap (year : Nat) : Bool := year % 4 = 0 && (year % 100 ≠ 0 || year % 400 = 0)

def daysIn (month year : Nat) : Nat :=
  if month = 2 then
    if isLeap year then 29 else 28
  else if month = 4 ∨ month = 6 ∨ month = 9 ∨ month = 11 then 30
  else 31

/-- The days from the epoch to a date of the Gregorian calendar; 719162 days
lie between the first of January of the year 1 and the epoch. -/
def epochDay (year month day : Nat) : Int :=
  let years : Int := year - 1
  365 * years + years / 4 - years / 100 + years / 400 - 719162 +
    ((List.range' 1 (month - 1)).map (daysIn · year)).sum + (day - 1)

def date (year month day hour minute second nanosecond : Nat) : Int :=
  (((epochDay year month day * 24 + hour) * 60 + minute) * 60 + second) * 10 ^ 9 + nanosecond

example : date 2000 3 1 0 0 0 5 = 951868800000000005 := by decide

def slice (text : Text) (start stop : Nat) : Text := (text.take stop).drop start

def parseUint (text : Text) (min max : Nat) : Option Nat :=
  if text.all isDigit ∧ min ≤ ofText 10 text ∧ ofText 10 text ≤ max then some (ofText 10 text)
  else none

def parseNanoseconds (digits : Text) : Nat :=
  let kept := digits.take 9
  ofText 10 kept * 10 ^ (9 - kept.length)

/-- The digits after a decimal point, none if the text starts otherwise. -/
def fractionOf : Text → Text
  | [] => []
  | point :: digits => if point = 46 then digits.takeWhile isDigit else []

def parseZone (time : Int) (zone : Text) : Option Int :=
  if zone = [90] then some time
  else if zone.length = 6 then do
    let hours ← parseUint (slice zone 1 3) 0 23
    let minutes ← parseUint (slice zone 4 6) 0 59
    let offset : Int := (hours * 60 + minutes) * 60 * 10 ^ 9
    if zone[3]? = some 58 then
      if zone[0]? = some 45 then some (time + offset)
      else if zone[0]? = some 43 then some (time - offset)
      else none
    else none
  else none

def punctuated (text : Text) : Bool :=
  text[4]? = some 45 && text[7]? = some 45 && text[10]? = some 84 && text[13]? = some 58 &&
    text[16]? = some 58

def parse (text : Text) : Option Int :=
  if text.length < 19 then none
  else do
    let year ← parseUint (slice text 0 4) 0 9999
    let month ← parseUint (slice text 5 7) 1 12
    let day ← parseUint (slice text 8 10) 1 (daysIn month year)
    let hour ← parseUint (slice text 11 13) 0 23
    let minute ← parseUint (slice text 14 16) 0 59
    let second ← parseUint (slice text 17 19) 0 59
    if punctuated text then
      let rest := text.drop 19
      let fraction := fractionOf rest
      let zone := if fraction = [] then rest else rest.drop (fraction.length + 1)
      parseZone (date year month day hour minute second (parseNanoseconds fraction)) zone
    else none

/-- A valid date and time of day in UTC, with the digits of the fraction of
the second. -/
structure Fields where
  year : Nat
  month : Nat
  day : Nat
  hour : Nat
  minute : Nat
  second : Nat
  fraction : Text
  yearRange : year ≤ 9999
  monthRange : 1 ≤ month ∧ month ≤ 12
  dayRange : 1 ≤ day ∧ day ≤ daysIn month year
  hourRange : hour ≤ 23
  minuteRange : minute ≤ 59
  secondRange : second ≤ 59
  fractionDigits : fraction.all isDigit = true
  fractionLength : fraction.length ≤ 9

def Fields.instant (fields : Fields) : Int :=
  date fields.year fields.month fields.day fields.hour fields.minute fields.second
    (ofText 10 fields.fraction * 10 ^ (9 - fields.fraction.length))

def Fields.renderFraction (fields : Fields) : Text :=
  if fields.fraction = [] then [90] else 46 :: (fields.fraction ++ [90])

def Fields.render (fields : Fields) : Text :=
  fixed 4 fields.year ++ 45 :: fixed 2 fields.month ++ 45 :: fixed 2 fields.day ++
    84 :: fixed 2 fields.hour ++ 58 :: fixed 2 fields.minute ++ 58 :: fixed 2 fields.second ++
    fields.renderFraction

def Denotes (text : Text) (instant : Int) : Prop :=
  ∃ fields : Fields, fields.render = text ∧ fields.instant = instant

theorem parseUint_fixed {width n min max : Nat} (fits : n < 10 ^ width) (lower : min ≤ n)
    (upper : n ≤ max) : parseUint (fixed width n) min max = some n := by
  simp only [parseUint, Decimal.fixed_isDigit, Decimal.ofText_fixed fits, lower, upper, and_self,
    if_true]

theorem daysIn_le (month year : Nat) : daysIn month year ≤ 31 := by
  unfold daysIn
  split_ifs <;> omega

theorem Fields.fractionOf_render (fields : Fields) :
    fractionOf fields.renderFraction = fields.fraction := by
  by_cases whole : fields.fraction = []
  · simp [renderFraction, whole, fractionOf]
  · have digits : ∀ character ∈ fields.fraction, isDigit character = true := by
      simpa using fields.fractionDigits
    have stops : isDigit 90 = false := rfl
    simp only [renderFraction, whole, if_false, fractionOf, if_true]
    rw [List.takeWhile_append_of_pos digits, List.takeWhile_cons, stops]
    simp

theorem Fields.zone_render (fields : Fields) :
    (if fields.fraction = [] then fields.renderFraction
      else fields.renderFraction.drop (fields.fraction.length + 1)) = [90] := by
  by_cases whole : fields.fraction = []
  · simp [renderFraction, whole]
  · simp [renderFraction, whole]

theorem Fields.slice_year (fields : Fields) : slice fields.render 0 4 = fixed 4 fields.year := rfl

theorem Fields.slice_month (fields : Fields) : slice fields.render 5 7 = fixed 2 fields.month := rfl

theorem Fields.slice_day (fields : Fields) : slice fields.render 8 10 = fixed 2 fields.day := rfl

theorem Fields.slice_hour (fields : Fields) : slice fields.render 11 13 = fixed 2 fields.hour := rfl

theorem Fields.slice_minute (fields : Fields) :
    slice fields.render 14 16 = fixed 2 fields.minute := rfl

theorem Fields.slice_second (fields : Fields) :
    slice fields.render 17 19 = fixed 2 fields.second := rfl

theorem Fields.punctuated_render (fields : Fields) : punctuated fields.render = true := rfl

theorem Fields.drop_render (fields : Fields) :
    fields.render.drop 19 = fields.renderFraction := rfl

theorem parse_render (fields : Fields) : parse fields.render = some fields.instant := by
  have long : ¬ fields.render.length < 19 := by
    simp only [Fields.render, List.length_append, List.length_cons, Decimal.fixed_length]
    omega
  have year : parseUint (fixed 4 fields.year) 0 9999 = some fields.year :=
    parseUint_fixed (by have := fields.yearRange; omega) (Nat.zero_le _) fields.yearRange
  have month : parseUint (fixed 2 fields.month) 1 12 = some fields.month :=
    parseUint_fixed (by have := fields.monthRange; omega) fields.monthRange.1 fields.monthRange.2
  have day : parseUint (fixed 2 fields.day) 1 (daysIn fields.month fields.year) =
      some fields.day := by
    have := daysIn_le fields.month fields.year
    exact parseUint_fixed (by have := fields.dayRange; omega) fields.dayRange.1 fields.dayRange.2
  have hour : parseUint (fixed 2 fields.hour) 0 23 = some fields.hour :=
    parseUint_fixed (by have := fields.hourRange; omega) (Nat.zero_le _) fields.hourRange
  have minute : parseUint (fixed 2 fields.minute) 0 59 = some fields.minute :=
    parseUint_fixed (by have := fields.minuteRange; omega) (Nat.zero_le _) fields.minuteRange
  have second : parseUint (fixed 2 fields.second) 0 59 = some fields.second :=
    parseUint_fixed (by have := fields.secondRange; omega) (Nat.zero_le _) fields.secondRange
  have kept : fields.fraction.take 9 = fields.fraction :=
    List.take_of_length_le fields.fractionLength
  simp only [parse, long, if_false, fields.slice_year, fields.slice_month, fields.slice_day,
    fields.slice_hour, fields.slice_minute, fields.slice_second, fields.punctuated_render,
    fields.drop_render, year, month, day, hour, minute, second, Option.bind_eq_bind,
    Option.bind_some, if_true, fields.fractionOf_render, fields.zone_render, parseZone,
    parseNanoseconds, kept, Fields.instant]

theorem parse_of_denotes {text : Text} {instant : Int} (denotes : Denotes text instant) :
    parse text = some instant := by
  obtain ⟨fields, rendered, instantOf⟩ := denotes
  rw [← rendered, ← instantOf, parse_render]

theorem ne_nil_of_denotes {text : Text} {instant : Int} (denotes : Denotes text instant) :
    text ≠ [] := by
  intro empty
  have parsed := parse_of_denotes denotes
  rw [empty] at parsed
  cases parsed

end RFC3339
