import LedgerSchema.Instant.Basic
import LedgerSchema.Instant.Calendar
import LedgerSchema.Number.Text

/-!
Instants as text: a date, a time of day and an offset from universal time. Reading takes years of
four digits, fractions of any length cut to nanoseconds, and offsets of less than a day. Writing is
in universal time with milliseconds, and years outside of 0 to 9999 carry a sign.
-/

set_option autoImplicit false

namespace LedgerSchema

/-- The number in exactly the first `count` characters, which have to be digits. -/
def fixedDigits? (count : Nat) (s : List Char) : Option (Nat × List Char) :=
  let ds := s.take count
  if ds.length = count ∧ ds.all Char.isDigit then some (natOfDigits ds, s.drop count) else none

def dropChar? (p : Char → Bool) : List Char → Option (List Char)
  | c :: rest => if p c then some rest else none
  | [] => none

namespace Instant

def epochDay : Int := 719528

def date? (s : List Char) : Option (CivilDate × List Char) := do
  let (year, s) ← fixedDigits? 4 s
  let s ← dropChar? (· == '-') s
  let (month, s) ← fixedDigits? 2 s
  let s ← dropChar? (· == '-') s
  let (day, s) ← fixedDigits? 2 s
  let date : CivilDate := ⟨year, month, day⟩
  if date.Valid then some (date, s) else none

/-- Seconds of the day and nanoseconds; the second 60 is a leap second after the second 59. -/
def timeOfDay? (s : List Char) : Option ((Nat × Nat) × List Char) := do
  let (hour, s) ← fixedDigits? 2 s
  let s ← dropChar? (· == ':') s
  let (minute, s) ← fixedDigits? 2 s
  let s ← dropChar? (· == ':') s
  let (second, s) ← fixedDigits? 2 s
  let (nanos, s) ← match s with
    | '.' :: r =>
      let ds := r.takeWhile Char.isDigit
      if ds = [] then none
      else
        let kept := ds.take 9
        some (natOfDigits (kept ++ List.replicate (9 - kept.length) '0'), r.drop ds.length)
    | r => some (0, r)
  if hour < 24 ∧ minute < 60 ∧ second ≤ 60 then
    let leap := second == 60
    some ((hour * 3600 + minute * 60 + (if leap then 59 else second),
      if leap then nanos + 1000000000 else nanos), s)
  else none

/-- The offset from universal time in seconds; the minus sign may be the mathematical one. -/
def offset? (s : List Char) : Option (Int × List Char) :=
  match s with
  | 'Z' :: r | 'z' :: r => some (0, r)
  | sign :: r => do
    if sign != '+' && sign != '-' && sign != '\u2212' then none
    let (hours, r) ← fixedDigits? 2 r
    let r ← dropChar? (· == ':') r
    let (minutes, r) ← fixedDigits? 2 r
    if hours < 24 ∧ minutes < 60 then
      some (applySign (sign != '+') (hours * 3600 + minutes * 60), r)
    else none
  | [] => none

def ofText? (s : List Char) : Option Instant := do
  let (date, s) ← date? s
  let s ← dropChar? (fun c => c == 'T' || c == 't' || c == ' ') s
  let ((second, nanos), s) ← timeOfDay? s
  let (offset, s) ← offset? s
  if s = [] then some ⟨(date.dayNumber - epochDay) * 86400 + second - offset, nanos⟩ else none

/-- The decimal digits of a number, with zeros in front up to a least width. -/
def padded (width n : Nat) : List Char :=
  let ds := Nat.toDigits 10 n
  List.replicate (width - ds.length) '0' ++ ds

def yearText (year : Int) : List Char :=
  if 0 ≤ year ∧ year ≤ 9999 then padded 4 year.natAbs
  else (if year < 0 then '-' else '+') :: padded 4 year.natAbs

/-- The text in universal time, cut to milliseconds. -/
def text (t : Instant) : List Char :=
  let date := CivilDate.ofDayNumber (t.seconds / 86400 + epochDay)
  let second := (t.seconds % 86400).toNat
  let leap := t.nanos / 1000000000
  yearText date.year ++ '-' :: padded 2 date.month ++ '-' :: padded 2 date.day ++
    'T' :: padded 2 (second / 3600) ++ ':' :: padded 2 (second / 60 % 60) ++
    ':' :: padded 2 (second % 60 + leap) ++
    '.' :: padded 3 (t.nanos % 1000000000 / 1000000) ++ ['Z']

end Instant

end LedgerSchema
