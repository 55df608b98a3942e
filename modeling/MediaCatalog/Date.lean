import MediaCatalog.Text
import MediaCatalog.Text.Number

namespace MediaCatalog

namespace Calendar

def isLeap (year : Int) : Bool :=
  year % 4 == 0 && (year % 100 != 0 || year % 400 == 0)

-- The number of days of a month, 0 for a month that does not exist.
def daysIn (year : Int) : (month : Nat) → Nat
  | 1 | 3 | 5 | 7 | 8 | 10 | 12 => 31
  | 4 | 6 | 9 | 11              => 30
  | 2                           => if isLeap year then 29 else 28
  | _                           => 0

-- The years a date may have.
def minYear : Int := -262143
def maxYear : Int := 262142

def HasDay (year : Int) (month day : Nat) : Prop :=
  minYear ≤ year ∧ year ≤ maxYear ∧ 1 ≤ day ∧ day ≤ daysIn year month

instance {y : Int} {m d : Nat} : Decidable (HasDay y m d) :=
  inferInstanceAs (Decidable (_ ∧ _ ∧ _ ∧ _))

end Calendar

-- A day of the proleptic Gregorian calendar.
structure Date where
  year  : Int
  month : Nat
  day   : Nat
  isDay : Calendar.HasDay year month day
  deriving DecidableEq

namespace Date

def of? (year : Int) (month day : Nat) : Option Date :=
  if h : Calendar.HasDay year month day then some ⟨year, month, day, h⟩ else none

-- Dates in order of time.
instance : Ord Date where
  compare a b := (compare a.year b.year).then ((compare a.month b.month).then (compare a.day b.day))

-- Four digits for the years 0 to 9999; other years have a sign and at least four digits.
def yearChars (year : Int) : List Char :=
  if 0 ≤ year ∧ year ≤ 9999 then Text.padded 4 year.toNat
  else if year < 0 then '-' :: Text.padded 4 (-year).toNat
  else '+' :: Text.padded 4 year.toNat

def chars (d : Date) : List Char :=
  yearChars d.year ++ '-' :: Text.padded 2 d.month ++ '-' :: Text.padded 2 d.day

-- The date as year-month-day.
def text (d : Date) : String :=
  .ofList d.chars

-- The text that PostgreSQL casts a date to, unless it is set to another style. Years have no sign; those before the
-- year 1 are counted backwards from 1.
def castText (d : Date) : String :=
  let day := '-' :: Text.padded 2 d.month ++ '-' :: Text.padded 2 d.day
  if 0 < d.year then .ofList (Text.padded 4 d.year.toNat ++ day)
  else .ofList (Text.padded 4 (1 - d.year).toNat ++ day) ++ " BC"

-- Reads one to `limit` digits, as many as there are.
def number? (limit : Nat) (cs : List Char) : Option (Nat × List Char) :=
  let ds := (cs.take limit).takeWhile Char.isDigit
  if ds.isEmpty then none else some (Nat.ofDigitChars 10 ds 0, cs.drop ds.length)

-- Without a sign a year has at most four digits, with a sign any number of them.
def year? : List Char → Option (Int × List Char)
  | '+' :: cs => (number? cs.length cs).map fun (n, rest) => (n, rest)
  | '-' :: cs => (number? cs.length cs).map fun (n, rest) => (-n, rest)
  | cs        => (number? 4 cs).map fun (n, rest) => (n, rest)

def hyphen? : List Char → Option (List Char)
  | '-' :: cs => some cs
  | _         => none

-- Reads year, month and day with hyphens between; blanks may stand before each number, and nothing
-- may follow the day.
def ofChars? (cs : List Char) : Option Date := do
  let (year, cs)  ← year? (cs.dropWhile Text.isBlank)
  let (month, cs) ← number? 2 ((← hyphen? cs).dropWhile Text.isBlank)
  let (day, cs)   ← number? 2 ((← hyphen? cs).dropWhile Text.isBlank)
  if cs.isEmpty then of? year month day else none

def read? (s : String) : Option Date :=
  ofChars? s.toList

end Date

end MediaCatalog
