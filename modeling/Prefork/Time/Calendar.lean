namespace Prefork.Time

abbrev Millis := Int

structure Date where
  year : Int
  month : Nat
  day : Nat
  deriving DecidableEq, Repr

/-- The date `days` after 1 January 1970. Years are counted from March within eras of 400 years,
so that leap days come last. -/
def Date.ofDays (days : Int) : Date :=
  let shifted := days + 719468
  let era := shifted / 146097
  let dayOfEra := (shifted % 146097).toNat
  let yearOfEra := (dayOfEra - dayOfEra / 1460 + dayOfEra / 36524 - dayOfEra / 146096) / 365
  let dayOfYear := dayOfEra - (365 * yearOfEra + yearOfEra / 4 - yearOfEra / 100)
  let shiftedMonth := (5 * dayOfYear + 2) / 153
  let month := if shiftedMonth < 10 then shiftedMonth + 3 else shiftedMonth - 9
  { year := yearOfEra + era * 400 + (if month ≤ 2 then 1 else 0)
    month
    day := dayOfYear - (153 * shiftedMonth + 2) / 5 + 1 }

def monthNames : List String :=
  ["January", "February", "March", "April", "May", "June", "July", "August", "September",
    "October", "November", "December"]

def dayNames : List String :=
  ["Thursday", "Friday", "Saturday", "Sunday", "Monday", "Tuesday", "Wednesday"]

def padLeft (width : Nat) (s : String) : String :=
  String.ofList (List.replicate (width - s.length) '0') ++ s

/-- At least four digits. Years outside 0 to 9999 carry a sign. -/
def yearText (year : Int) : String :=
  if year < 0 then "-" ++ padLeft 4 (toString year.natAbs)
  else if year ≤ 9999 then padLeft 4 (toString year.natAbs)
  else "+" ++ toString year.natAbs

def daytimeText (now : Millis) : String :=
  let seconds := now / 1000
  let days := seconds / 86400
  let date := Date.ofDays days
  let second := (seconds % 86400).toNat
  let weekday := dayNames.getD (days % 7).toNat ""
  let month := monthNames.getD (date.month - 1) ""
  let clock := s!"{second / 3600}:{padLeft 2 (toString (second / 60 % 60))}:" ++
    padLeft 2 (toString (second % 60))
  s!"{weekday}, {month} {date.day}, {yearText date.year} {clock}-UTC"

end Prefork.Time
