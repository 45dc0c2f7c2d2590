import ViewBundle.Text

/-!
# Dates and times

Days of the calendar and times of day, as they are written in settings: the parts from the largest
to the smallest, each with all of its digits.  Seconds may be left out, and can have a fraction; a
day with a time can say how far the clock is from universal time.

A value has one plain form, whichever way it was written (`DateTime.text`).
-/

namespace ViewBundle

/-- A day of the calendar. -/
structure Day where
  year : Nat
  month : Nat
  day : Nat
  deriving DecidableEq, Repr

/-- A time of day. -/
structure ClockTime where
  hour : Nat
  minute : Nat
  second : Nat
  nanosecond : Nat
  deriving DecidableEq, Repr

/-- How far a clock is from universal time. -/
inductive ClockOffset where
  /-- The clock shows universal time. -/
  | universal
  /-- The clock is ahead by this many minutes. -/
  | ahead (minutes : Nat)
  /-- The clock is behind by this many minutes. -/
  | behind (minutes : Nat)
  deriving DecidableEq, Repr

/-- A day, a time, or both. -/
inductive DateTime where
  /-- A day without a time. -/
  | date (day : Day)
  /-- A time without a day. -/
  | time (time : ClockTime)
  /-- A time on a day, perhaps on a clock whose distance from universal time is known. -/
  | moment (day : Day) (time : ClockTime) (offset : Option ClockOffset)
  deriving DecidableEq, Repr

/-- What follows the first character of a text, if it is the given one. -/
def DateTime.behind? (c : Char) : List Char → Option (List Char)
  | [] => none
  | d :: rest => if d = c then some rest else none

namespace Day

/-- Whether a year has a day more than others. -/
def isLeap (year : Nat) : Bool :=
  year % 4 = 0 && (year % 100 ≠ 0 || year % 400 = 0)

/-- The number of days in a month of a year. -/
def daysIn (year month : Nat) : Nat :=
  if month = 2 then if isLeap year then 29 else 28
  else if month ∈ [4, 6, 9, 11] then 30
  else 31

/-- Whether there is such a day. -/
def Exists (d : Day) : Prop :=
  1 ≤ d.month ∧ d.month ≤ 12 ∧ 1 ≤ d.day ∧ d.day ≤ daysIn d.year d.month

instance (d : Day) : Decidable d.Exists :=
  inferInstanceAs (Decidable (_ ∧ _))

/-- A day at the start of a text, and what follows it. -/
def read? (s : List Char) : Option (Day × List Char) := do
  let (year, s) ← Text.number? 4 s
  let s ← DateTime.behind? '-' s
  let (month, s) ← Text.number? 2 s
  let s ← DateTime.behind? '-' s
  let (day, s) ← Text.number? 2 s
  if Day.Exists ⟨year, month, day⟩ then some (⟨year, month, day⟩, s) else none

/-- The plain form of a day. -/
def text (d : Day) : List Char :=
  Text.decimalOfWidth 4 d.year ++ '-' :: Text.decimalOfWidth 2 d.month ++
    '-' :: Text.decimalOfWidth 2 d.day

end Day

namespace ClockTime

/-- Whether there is such a time; a minute can have a leap second. -/
def Exists (t : ClockTime) : Prop :=
  t.hour ≤ 23 ∧ t.minute ≤ 59 ∧ t.second ≤ 60

instance (t : ClockTime) : Decidable t.Exists :=
  inferInstanceAs (Decidable (_ ∧ _))

/-- The nanoseconds in the digits of a fraction; digits behind the ninth do not count. -/
def nanoseconds (digits : List Char) : Nat :=
  Text.number ((digits ++ List.replicate 9 '0').take 9)

/-- The nanoseconds of a fraction at the start of a text, none if there is no point, and what
follows them. -/
def fraction? : List Char → Option (Nat × List Char)
  | '.' :: s =>
    match s.takeWhile Char.isDigit with
    | [] => none
    | digits => some (nanoseconds digits, s.dropWhile Char.isDigit)
  | s => some (0, s)

/-- Seconds and nanoseconds at the start of a text, none if there is no colon, and what follows
them. -/
def seconds? : List Char → Option (Nat × Nat × List Char)
  | ':' :: s => do
    let (second, s) ← Text.number? 2 s
    let (nanosecond, s) ← fraction? s
    some (second, nanosecond, s)
  | s => some (0, 0, s)

/-- A time at the start of a text, and what follows it. -/
def read? (s : List Char) : Option (ClockTime × List Char) := do
  let (hour, s) ← Text.number? 2 s
  let s ← DateTime.behind? ':' s
  let (minute, s) ← Text.number? 2 s
  let (second, nanosecond, s) ← seconds? s
  if ClockTime.Exists ⟨hour, minute, second, nanosecond⟩ then
    some (⟨hour, minute, second, nanosecond⟩, s)
  else none

/-- The digits of a fraction without the zeros at its end. -/
def fractionDigits (nanosecond : Nat) : List Char :=
  ((Text.decimalOfWidth 9 nanosecond).reverse.dropWhile (· == '0')).reverse

/-- The plain form of a time: seconds are always given, a fraction only if there is one. -/
def text (t : ClockTime) : List Char :=
  Text.decimalOfWidth 2 t.hour ++ ':' :: Text.decimalOfWidth 2 t.minute ++
    ':' :: Text.decimalOfWidth 2 t.second ++
    if t.nanosecond = 0 then [] else '.' :: fractionDigits t.nanosecond

end ClockTime

namespace ClockOffset

/-- Hours and minutes at the start of a text, in minutes, and what follows them. -/
def minutes? (s : List Char) : Option (Nat × List Char) := do
  let (hours, s) ← Text.number? 2 s
  let s ← DateTime.behind? ':' s
  let (minutes, s) ← Text.number? 2 s
  if hours ≤ 23 ∧ minutes ≤ 59 then some (60 * hours + minutes, s) else none

/-- The distance from universal time at the start of a text, if one is given there, and what
follows it. -/
def read? : List Char → Option (Option ClockOffset × List Char)
  | 'Z' :: s => some (some universal, s)
  | 'z' :: s => some (some universal, s)
  | '+' :: s => (minutes? s).map fun (minutes, s) => (some (ahead minutes), s)
  | '-' :: s => (minutes? s).map fun (minutes, s) => (some (behind minutes), s)
  | s => some (none, s)

/-- The plain form of hours and minutes. -/
def minutesText (minutes : Nat) : List Char :=
  Text.decimalOfWidth 2 (minutes / 60) ++ ':' :: Text.decimalOfWidth 2 (minutes % 60)

/-- The plain form of a distance from universal time; no minutes are never behind. -/
def text : ClockOffset → List Char
  | universal => ['Z']
  | ahead minutes => '+' :: minutesText minutes
  | behind 0 => '+' :: minutesText 0
  | behind minutes => '-' :: minutesText minutes

end ClockOffset

namespace DateTime

/-- A time on a day that has been read, and what follows it. -/
def readTime? (day : Day) (s : List Char) : Option (DateTime × List Char) := do
  let (clock, s) ← ClockTime.read? s
  let (offset, s) ← ClockOffset.read? s
  some (moment day clock offset, s)

/-- A day, a time or both at the start of a text, and what follows.  A time follows its day behind
a `T`, or behind a blank in front of a digit. -/
def read? (s : List Char) : Option (DateTime × List Char) :=
  match Day.read? s with
  | some (day, 'T' :: s) => readTime? day s
  | some (day, 't' :: s) => readTime? day s
  | some (day, ' ' :: digit :: s) =>
    if digit.isDigit then readTime? day (digit :: s) else some (.date day, ' ' :: digit :: s)
  | some (day, s) => some (.date day, s)
  | none => (ClockTime.read? s).map fun (t, s) => (.time t, s)

/-- The plain form of a day, a time or both. -/
def text : DateTime → String
  | date d => String.ofList d.text
  | time t => String.ofList t.text
  | moment d t offset =>
    String.ofList (d.text ++ 'T' :: t.text ++ (offset.map ClockOffset.text).getD [])

end DateTime

end ViewBundle
