import Mathlib
import LedgerSchema.Instant.Text
import LedgerSchema.Proofs.Instant.Calendar
import LedgerSchema.Proofs.Number.Digits

/-!
Instants as text. The text of an instant in a year of four digits is read as what it says: the
instant cut to whole milliseconds, leap seconds included. Other texts of instants are not read, so
what is read from the text of an instant is written as that text.
-/

set_option autoImplicit false

namespace LedgerSchema

namespace Instant

theorem length_padded {width n : Nat} (hwidth : 0 < width) (h : n < 10 ^ width) :
    (padded width n).length = width := by
  have hle : (Nat.toDigits 10 n).length ≤ width :=
    (Nat.length_toDigits_le_iff (by decide) hwidth).2 h
  rw [padded, List.length_append, List.length_replicate]
  omega

theorem all_isDigit_padded (width n : Nat) : (padded width n).all Char.isDigit = true := by
  simp [padded, all_isDigit_toDigits]

theorem natOfDigits_padded (width n : Nat) : natOfDigits (padded width n) = n := by
  rw [padded, natOfDigits_append, natOfDigits_replicate_zero, natOfDigits_toDigits, zero_mul,
    zero_add]

theorem fixedDigits?_padded {width n : Nat} (hwidth : 0 < width) (h : n < 10 ^ width)
    (rest : List Char) : fixedDigits? width (padded width n ++ rest) = some (n, rest) := by
  have hlength := length_padded hwidth h
  rw [fixedDigits?, List.take_left' hlength, List.drop_left' hlength]
  rw [if_pos ⟨hlength, all_isDigit_padded width n⟩, natOfDigits_padded]

theorem drop_of_fixedDigits? {count n : Nat} {s after : List Char}
    (h : fixedDigits? count s = some (n, after)) : s.drop count = after := by
  unfold fixedDigits? at h
  dsimp only at h
  split at h
  · exact (Prod.mk.inj (Option.some.inj h)).2
  · cases h

theorem date?_text {d : CivilDate} (hvalid : d.Valid) (hyear : 0 ≤ d.year ∧ d.year ≤ 9999)
    (hmonth : d.month < 10 ^ 2) (hday : d.day < 10 ^ 2) (rest : List Char) :
    date? (yearText d.year ++ '-' :: (padded 2 d.month ++ '-' :: (padded 2 d.day ++ rest))) =
      some (d, rest) := by
  have hcast : (d.year.natAbs : Int) = d.year := Int.natAbs_of_nonneg hyear.1
  have hdate : (⟨d.year.natAbs, d.month, d.day⟩ : CivilDate) = d := by rw [hcast]
  rw [date?, yearText, if_pos hyear, fixedDigits?_padded (by decide) (by omega)]
  simp only [Option.bind_eq_bind, Option.bind_some, dropChar?, beq_self_eq_true, if_true,
    fixedDigits?_padded (Nat.succ_pos 1) hmonth, fixedDigits?_padded (Nat.succ_pos 1) hday, hdate,
    hvalid]

/-- A sign in front of the year is not read. -/
theorem date?_eq_none_of_year {year : Int} (h : ¬ (0 ≤ year ∧ year ≤ 9999)) (rest : List Char) :
    date? (yearText year ++ rest) = none := by
  have hsign (c : Char) (hc : c.isDigit = false) (s : List Char) :
      fixedDigits? 4 (c :: s) = none := by
    simp [fixedDigits?, hc]
  rw [yearText, if_neg h, List.cons_append, date?, hsign _ (by split <;> decide)]
  rfl

theorem takeWhile_padded (width n : Nat) {c : Char} (hc : c.isDigit = false) (rest : List Char) :
    (padded width n ++ c :: rest).takeWhile Char.isDigit = padded width n := by
  rw [List.takeWhile_append_of_pos (List.all_eq_true.1 (all_isDigit_padded width n)),
    List.takeWhile_cons_of_neg (by simp [hc]), List.append_nil]

theorem natOfDigits_millis {millis : Nat} (h : millis < 10 ^ 3) :
    natOfDigits ((padded 3 millis).take 9 ++
      List.replicate (9 - ((padded 3 millis).take 9).length) '0') = millis * 1000000 := by
  have hlength : (padded 3 millis).length = 3 := length_padded (by decide) h
  rw [List.take_of_length_le (by omega), hlength, natOfDigits_append, natOfDigits_padded,
    natOfDigits_replicate_zero, List.length_replicate, add_zero]
  norm_num

theorem timeOfDay?_text {hour minute second millis : Nat} (hhour : hour < 24)
    (hminute : minute < 60) (hsecond : second ≤ 60) (hmillis : millis < 10 ^ 3) (rest : List Char) :
    timeOfDay? (padded 2 hour ++ ':' :: (padded 2 minute ++ ':' :: (padded 2 second ++
        '.' :: (padded 3 millis ++ 'Z' :: rest)))) =
      some ((hour * 3600 + minute * 60 + (if second = 60 then 59 else second),
        if second = 60 then millis * 1000000 + 1000000000 else millis * 1000000),
        'Z' :: rest) := by
  have hne : padded 3 millis ≠ [] := by
    intro hnil
    have hlength := length_padded (Nat.succ_pos 2) hmillis
    rw [hnil] at hlength
    exact absurd hlength (by decide)
  simp only [timeOfDay?, Option.bind_eq_bind, Option.bind_some, dropChar?, if_true,
    fixedDigits?_padded (Nat.succ_pos 1) (show hour < 10 ^ 2 by omega),
    fixedDigits?_padded (Nat.succ_pos 1) (show minute < 10 ^ 2 by omega),
    fixedDigits?_padded (Nat.succ_pos 1) (show second < 10 ^ 2 by omega),
    takeWhile_padded 3 millis (show Char.isDigit 'Z' = false by decide), hne, if_false,
    natOfDigits_millis hmillis, List.drop_left, hhour, hminute, hsecond, and_self, beq_iff_eq]

/-- A number that is too long for the width has a digit past it. -/
theorem exists_drop_padded {width n : Nat} (h : 10 ^ width ≤ n) :
    ∃ c tail, (padded width n).drop width = c :: tail ∧ c.isDigit = true := by
  have hlength : width < (Nat.toDigits 10 n).length := by
    rcases Nat.eq_zero_or_pos width with rfl | hwidth
    · exact List.length_pos_iff.2 Nat.toDigits_ne_nil
    · exact not_le.1 ((Nat.length_toDigits_le_iff (by decide) hwidth).not.2 (not_lt.2 h))
  have hpadded : padded width n = Nat.toDigits 10 n := by
    rw [padded, Nat.sub_eq_zero_of_le hlength.le, List.replicate_zero, List.nil_append]
  obtain ⟨c, tail, htail⟩ := List.exists_cons_of_ne_nil
    (fun hnil => absurd (List.drop_eq_nil_iff.1 hnil) (not_le.2 hlength) :
      (Nat.toDigits 10 n).drop width ≠ [])
  refine ⟨c, tail, by rw [hpadded, htail], isDigit_of_mem_toDigits (n := n) ?_⟩
  exact List.mem_of_mem_drop (htail ▸ List.mem_cons_self)

theorem offset?_of_isDigit {c : Char} (hc : c.isDigit = true) (rest : List Char) :
    offset? (c :: rest) = none := by
  have hplus : c ≠ '+' := ne_of_isDigit hc (by decide)
  have hminus : c ≠ '-' := ne_of_isDigit hc (by decide)
  have hsign : c ≠ '\u2212' := ne_of_isDigit hc (by decide)
  unfold offset?
  split
  · rename_i heq
    cases heq
    exact absurd hc (by decide)
  · rename_i heq
    cases heq
    exact absurd hc (by decide)
  · rename_i heq
    cases heq
    simp [hplus, hminus, hsign]
  · rfl

/-- A second past 60 is refused, or it has more than two digits and no offset follows. -/
theorem offset?_eq_none_of_timeOfDay? {hour minute second : Nat} (hhour : hour < 24)
    (hminute : minute < 60) (hsecond : 60 < second) {rest after : List Char} {time : Nat × Nat}
    (h : timeOfDay? (padded 2 hour ++ ':' :: (padded 2 minute ++ ':' :: (padded 2 second ++
      '.' :: rest))) = some (time, after)) : offset? after = none := by
  simp only [timeOfDay?, Option.bind_eq_bind, Option.bind_some, dropChar?, if_true,
    beq_self_eq_true, fixedDigits?_padded (Nat.succ_pos 1) (show hour < 10 ^ 2 by omega),
    fixedDigits?_padded (Nat.succ_pos 1) (show minute < 10 ^ 2 by omega)] at h
  by_cases hshort : second < 10 ^ 2
  · have hlate : ¬ (hour < 24 ∧ minute < 60 ∧ second ≤ 60) := by omega
    simp only [fixedDigits?_padded (Nat.succ_pos 1) hshort, Option.bind_some, if_neg hlate,
      Option.bind_fun_none, ite_self] at h
    cases h
  · obtain ⟨c, tail, hdrop, hc⟩ := exists_drop_padded (Nat.not_lt.1 hshort)
    have hlength : 2 ≤ (padded 2 second).length := by
      by_contra hlt
      rw [List.drop_of_length_le (by omega)] at hdrop
      cases hdrop
    obtain ⟨⟨shown, s⟩, hs, h⟩ := Option.bind_eq_some_iff.1 h
    obtain rfl : c :: (tail ++ '.' :: rest) = s := by
      rw [← List.cons_append, ← hdrop, ← List.drop_append_of_le_length hlength]
      exact drop_of_fixedDigits? hs
    -- What is left begins with a digit, so there is no fraction, and no offset either.
    have hpoint : c ≠ '.' := ne_of_isDigit hc (by decide)
    dsimp only at h
    split at h
    · rename_i heq
      exact absurd (List.cons.inj heq).1 hpoint
    · simp only [Option.ite_none_right_eq_some, Option.some.injEq, Prod.mk.injEq] at h
      rw [← h.2.2]
      exact offset?_of_isDigit hc _

/-- The second that the text shows: past the second 59 in a leap second. -/
def shownSecond (t : Instant) : Nat := (t.seconds % 86400).toNat % 60 + t.nanos / 1000000000

def date (t : Instant) : CivilDate := .ofDayNumber (t.seconds / 86400 + epochDay)

def timeText (t : Instant) : List Char :=
  padded 2 ((t.seconds % 86400).toNat / 3600) ++
    ':' :: (padded 2 ((t.seconds % 86400).toNat / 60 % 60) ++ ':' :: (padded 2 t.shownSecond ++
      '.' :: (padded 3 (t.nanos % 1000000000 / 1000000) ++ ['Z'])))

theorem text_eq (t : Instant) : t.text = yearText t.date.year ++
    '-' :: (padded 2 t.date.month ++ '-' :: (padded 2 t.date.day ++ 'T' :: t.timeText)) := by
  simp [text, timeText, date, shownSecond]

/-- In years of four digits the date is read, and then the time. -/
theorem ofText?_text_eq {t : Instant} (hyear : 0 ≤ t.date.year ∧ t.date.year ≤ 9999) :
    ofText? t.text = (timeOfDay? t.timeText).bind fun time => (offset? time.2).bind fun offset =>
      if offset.2 = [] then
        some ⟨t.seconds - t.seconds % 86400 + time.1.1 - offset.1, time.1.2⟩ else none := by
  have hvalid : t.date.Valid := CivilDate.valid_ofDayNumber _
  have hmonth : t.date.month ≤ 12 := CivilDate.month_ofDayNumber_le _
  have hday : t.date.day ≤ 31 := CivilDate.day_ofDayNumber_le _
  have hnumber : t.date.dayNumber = t.seconds / 86400 + epochDay :=
    CivilDate.dayNumber_ofDayNumber _
  have hstart : (t.date.dayNumber - epochDay) * 86400 = t.seconds - t.seconds % 86400 := by
    rw [hnumber]
    omega
  rw [text_eq, ofText?, date?_text hvalid hyear (by omega) (by omega)]
  simp only [Option.bind_eq_bind, Option.bind_some, dropChar?, beq_self_eq_true, Bool.true_or,
    if_true, hstart]

/-- What the text says of an instant: a leap second lies at the end of a minute, and the rest is cut
to milliseconds. -/
def cut (t : Instant) : Instant where
  seconds := t.seconds - t.seconds % 60 + if t.shownSecond = 60 then 59 else t.shownSecond
  nanos := (if t.shownSecond = 60 then 1000000000 else 0) + t.nanos % 1000000000 / 1000000 * 1000000

/-- The instants with a text that is read: in a year of four digits, and at no second past the one
that a leap second adds to a minute. -/
structure Legible (t : Instant) : Prop where
  year : 0 ≤ t.date.year ∧ t.date.year ≤ 9999
  second : t.shownSecond ≤ 60

theorem ofText?_text_of_legible {t : Instant} (h : t.Legible) : ofText? t.text = some t.cut := by
  have hsecond := h.second
  rw [ofText?_text_eq h.year, timeText, timeOfDay?_text (by omega) (by omega) hsecond (by omega)]
  simp only [Option.bind_some, offset?, if_true, cut, Option.some.injEq, Instant.mk.injEq]
  constructor
  · split <;> omega
  · split <;> omega

theorem legible_of_ofText?_text {t t' : Instant} (h : ofText? t.text = some t') : t.Legible := by
  have hyear : 0 ≤ t.date.year ∧ t.date.year ≤ 9999 := by
    by_contra hyear
    rw [text_eq, ofText?, date?_eq_none_of_year hyear] at h
    cases h
  refine ⟨hyear, ?_⟩
  by_contra hsecond
  rw [ofText?_text_eq hyear] at h
  obtain ⟨⟨time, after⟩, htime, h⟩ := Option.bind_eq_some_iff.1 h
  rw [offset?_eq_none_of_timeOfDay? (by omega) (by omega) (not_le.1 hsecond) htime] at h
  cases h

/-- What is read from the text of an instant is what the text says of it. -/
theorem ofText?_text_eq_some_iff {t t' : Instant} :
    ofText? t.text = some t' ↔ t.Legible ∧ t' = t.cut := by
  constructor
  · intro h
    have hlegible := legible_of_ofText?_text h
    rw [ofText?_text_of_legible hlegible] at h
    exact ⟨hlegible, (Option.some.inj h).symm⟩
  · rintro ⟨h, rfl⟩
    exact ofText?_text_of_legible h

/-- The text of whole milliseconds says all of them, but of a leap second only that it ends its
minute. -/
theorem cut_eq_self_iff {t : Instant} (hnanos : t.nanos < 2000000000)
    (hmillis : t.nanos % 1000000 = 0) :
    t.cut = t ↔ (1000000000 ≤ t.nanos → t.seconds % 60 = 59) := by
  have hshown : t.shownSecond = (t.seconds % 60).toNat + t.nanos / 1000000000 := by
    have hsecond : (t.seconds % 86400).toNat % 60 = (t.seconds % 60).toNat := by omega
    rw [shownSecond, hsecond]
  obtain ⟨seconds, nanos⟩ := t
  rw [cut, hshown, Instant.mk.injEq]
  dsimp only at hnanos hmillis ⊢
  constructor
  · rintro ⟨hseconds, -⟩ hleap
    split at hseconds <;> omega
  · intro hleap
    constructor
    · split <;> omega
    · split <;> omega

/-- The instants whose text says everything about them: whole milliseconds of a year of four digits,
leap seconds only at the end of a minute. -/
structure Writable (t : Instant) : Prop where
  year : 0 ≤ (CivilDate.ofDayNumber (t.seconds / 86400 + epochDay)).year ∧
    (CivilDate.ofDayNumber (t.seconds / 86400 + epochDay)).year ≤ 9999
  nanos_lt : t.nanos < 2000000000
  millis : t.nanos % 1000000 = 0
  leap : 1000000000 ≤ t.nanos → t.seconds % 60 = 59

instance (t : Instant) : Decidable t.Writable :=
  decidable_of_iff (_ ∧ _ ∧ _ ∧ _)
    ⟨fun ⟨a, b, c, d⟩ => ⟨a, b, c, d⟩, fun ⟨a, b, c, d⟩ => ⟨a, b, c, d⟩⟩

theorem Writable.legible {t : Instant} (h : t.Writable) : t.Legible := by
  obtain ⟨hyear, hnanos, -, hleap⟩ := h
  refine ⟨hyear, ?_⟩
  unfold shownSecond
  omega

theorem ofText?_text {t : Instant} (h : t.Writable) : ofText? t.text = some t := by
  rw [ofText?_text_of_legible h.legible, (cut_eq_self_iff h.nanos_lt h.millis).2 h.leap]

/-- The text depends on what it says only. -/
theorem text_cut {t : Instant} (hsecond : t.shownSecond ≤ 60) : t.cut.text = t.text := by
  obtain ⟨second, leap, hshown, hlt, hseconds, hnanos⟩ : ∃ second leap : Nat,
      second + leap = t.shownSecond ∧ second < 60 ∧
      t.cut.seconds = t.seconds - t.seconds % 60 + second ∧
      t.cut.nanos = leap * 1000000000 + t.nanos % 1000000000 / 1000000 * 1000000 := by
    by_cases hleap : t.shownSecond = 60
    · exact ⟨59, 1, hleap.symm, by decide, by simp [cut, hleap], by simp [cut, hleap]⟩
    · exact ⟨t.shownSecond, 0, rfl, by omega, by simp [cut, hleap], by simp [cut, hleap]⟩
  unfold shownSecond at hshown
  have hday : t.cut.seconds / 86400 = t.seconds / 86400 := by omega
  have hhour : (t.cut.seconds % 86400).toNat / 3600 = (t.seconds % 86400).toNat / 3600 := by omega
  have hminute : (t.cut.seconds % 86400).toNat / 60 % 60 =
      (t.seconds % 86400).toNat / 60 % 60 := by omega
  have hsame : (t.cut.seconds % 86400).toNat % 60 + t.cut.nanos / 1000000000 =
      (t.seconds % 86400).toNat % 60 + t.nanos / 1000000000 := by omega
  have hmillis : t.cut.nanos % 1000000000 / 1000000 = t.nanos % 1000000000 / 1000000 := by omega
  rw [text, text, hday, hhour, hminute, hsame, hmillis]

/-! What has to be in a text so that a part of an instant is read from it. -/

theorem exists_of_date? {s after : List Char} {d : CivilDate} (h : date? s = some (d, after)) :
    ∃ year s₁ s₂ s₃ s₄, fixedDigits? 4 s = some (year, s₁) ∧ dropChar? (· == '-') s₁ = some s₂ ∧
      fixedDigits? 2 s₂ = some (d.month, s₃) ∧ dropChar? (· == '-') s₃ = some s₄ ∧
      fixedDigits? 2 s₄ = some (d.day, after) ∧ d.year = (year : Nat) ∧ d.Valid := by
  obtain ⟨⟨year, s₁⟩, hyear, h⟩ := Option.bind_eq_some_iff.1 h
  obtain ⟨s₂, hdash, h⟩ := Option.bind_eq_some_iff.1 h
  obtain ⟨⟨month, s₃⟩, hmonth, h⟩ := Option.bind_eq_some_iff.1 h
  obtain ⟨s₄, hdash', h⟩ := Option.bind_eq_some_iff.1 h
  obtain ⟨⟨day, s₅⟩, hday, h⟩ := Option.bind_eq_some_iff.1 h
  dsimp only at h
  split at h
  · rename_i hvalid
    obtain ⟨rfl, rfl⟩ := Prod.mk.inj (Option.some.inj h)
    exact ⟨year, s₁, s₂, s₃, s₄, hyear, hdash, hmonth, hdash', hday, rfl, hvalid⟩
  · cases h

/-- What can follow the seconds: nothing, or a point and digits, cut or filled with zeros to
nanoseconds. -/
inductive Fraction : List Char → Nat → List Char → Prop
  | absent (s : List Char) : Fraction s 0 s
  | digits (r : List Char) :
    Fraction ('.' :: r)
      (natOfDigits ((r.takeWhile Char.isDigit).take 9 ++
        List.replicate (9 - ((r.takeWhile Char.isDigit).take 9).length) '0'))
      (r.drop (r.takeWhile Char.isDigit).length)

/-- Three numbers with a colon between two, and maybe a fraction. The second 60 is the second 59
with another thousand million nanoseconds. -/
theorem exists_of_timeOfDay? {s after : List Char} {second nanos : Nat}
    (h : timeOfDay? s = some ((second, nanos), after)) :
    ∃ hour minute shown fraction s₁ s₂ s₃ s₄ s₅, fixedDigits? 2 s = some (hour, s₁) ∧
      dropChar? (· == ':') s₁ = some s₂ ∧ fixedDigits? 2 s₂ = some (minute, s₃) ∧
      dropChar? (· == ':') s₃ = some s₄ ∧ fixedDigits? 2 s₄ = some (shown, s₅) ∧
      Fraction s₅ fraction after ∧ (hour < 24 ∧ minute < 60 ∧ shown ≤ 60) ∧
      second = hour * 3600 + minute * 60 + (if shown = 60 then 59 else shown) ∧
      nanos = if shown = 60 then fraction + 1000000000 else fraction := by
  obtain ⟨⟨hour, s₁⟩, hhour, h⟩ := Option.bind_eq_some_iff.1 h
  obtain ⟨s₂, hcolon, h⟩ := Option.bind_eq_some_iff.1 h
  obtain ⟨⟨minute, s₃⟩, hminute, h⟩ := Option.bind_eq_some_iff.1 h
  obtain ⟨s₄, hcolon', h⟩ := Option.bind_eq_some_iff.1 h
  obtain ⟨⟨shown, s₅⟩, hshown, h⟩ := Option.bind_eq_some_iff.1 h
  obtain ⟨fraction, hfraction, h⟩ : ∃ fraction, Fraction s₅ fraction after ∧
      (hour < 24 ∧ minute < 60 ∧ shown ≤ 60) ∧
      second = hour * 3600 + minute * 60 + (if shown = 60 then 59 else shown) ∧
      nanos = if shown = 60 then fraction + 1000000000 else fraction := by
    dsimp only at h
    split at h
    · rename_i r
      split at h
      · cases h
      · simp only [Option.bind_eq_bind, Option.bind_some, Option.ite_none_right_eq_some,
          Option.some.injEq, Prod.mk.injEq, beq_iff_eq] at h
        obtain ⟨hrange, ⟨hsecond, hnanos⟩, rfl⟩ := h
        exact ⟨_, .digits r, hrange, hsecond.symm, hnanos.symm⟩
    · simp only [Option.bind_eq_bind, Option.bind_some, Option.ite_none_right_eq_some,
        Option.some.injEq, Prod.mk.injEq, beq_iff_eq] at h
      obtain ⟨hrange, ⟨hsecond, hnanos⟩, rfl⟩ := h
      exact ⟨0, .absent _, hrange, hsecond.symm, hnanos.symm⟩
  exact ⟨hour, minute, shown, fraction, s₁, s₂, s₃, s₄, s₅, hhour, hcolon, hminute, hcolon', hshown,
    hfraction, h⟩

/-- A letter for universal time, or two numbers with a sign in front and a colon between them. -/
theorem exists_of_offset? {s after : List Char} {offset : Int}
    (h : offset? s = some (offset, after)) :
    (∃ mark ∈ ['Z', 'z'], s = mark :: after ∧ offset = 0) ∨
      ∃ sign ∈ ['+', '-', '\u2212'], ∃ hours minutes r s₁ s₂, s = sign :: r ∧
        fixedDigits? 2 r = some (hours, s₁) ∧ dropChar? (· == ':') s₁ = some s₂ ∧
        fixedDigits? 2 s₂ = some (minutes, after) ∧ hours < 24 ∧ minutes < 60 ∧
        offset = applySign (sign != '+') (hours * 3600 + minutes * 60) := by
  unfold offset? at h
  split at h
  · obtain ⟨rfl, rfl⟩ := Prod.mk.inj (Option.some.inj h)
    exact .inl ⟨'Z', by simp, rfl, rfl⟩
  · obtain ⟨rfl, rfl⟩ := Prod.mk.inj (Option.some.inj h)
    exact .inl ⟨'z', by simp, rfl, rfl⟩
  · rename_i sign r _ _
    dsimp only at h
    split at h
    · cases h
    · rename_i hsign
      obtain ⟨⟨hours, s₁⟩, hhours, h⟩ := Option.bind_eq_some_iff.1 h
      obtain ⟨s₂, hcolon, h⟩ := Option.bind_eq_some_iff.1 h
      obtain ⟨⟨minutes, s₃⟩, hminutes, h⟩ := Option.bind_eq_some_iff.1 h
      dsimp only at h
      split at h
      · rename_i hrange
        obtain ⟨rfl, rfl⟩ := Prod.mk.inj (Option.some.inj h)
        refine .inr ⟨sign, ?_, hours, minutes, r, s₁, s₂, rfl, hhours, hcolon, hminutes, hrange.1,
          hrange.2, rfl⟩
        by_contra hnot
        simp_all
      · cases h
  · cases h

theorem exists_of_ofText? {s : List Char} {t : Instant} (h : ofText? s = some t) :
    ∃ d second offset s₁ s₂ s₃, date? s = some (d, s₁) ∧
      dropChar? (fun c => c == 'T' || c == 't' || c == ' ') s₁ = some s₂ ∧
      timeOfDay? s₂ = some ((second, t.nanos), s₃) ∧ offset? s₃ = some (offset, []) ∧
      t.seconds = (d.dayNumber - epochDay) * 86400 + second - offset := by
  obtain ⟨⟨d, s₁⟩, hdate, h⟩ := Option.bind_eq_some_iff.1 h
  obtain ⟨s₂, hbetween, h⟩ := Option.bind_eq_some_iff.1 h
  obtain ⟨⟨⟨second, nanos⟩, s₃⟩, htime, h⟩ := Option.bind_eq_some_iff.1 h
  obtain ⟨⟨offset, s₄⟩, hoffset, h⟩ := Option.bind_eq_some_iff.1 h
  dsimp only at h
  split at h
  · rename_i hend
    obtain rfl := Option.some.inj h
    exact ⟨d, second, offset, s₁, s₂, s₃, hdate, hbetween, htime, hend ▸ hoffset, rfl⟩
  · cases h

/-! What is read takes digits and separators, so a mark of references is left over. -/

theorem mark_mem_drop {n : Nat} {s : List Char} (hmark : '#' ∈ s)
    (hdigits : (s.take n).all Char.isDigit = true) : '#' ∈ s.drop n := by
  rw [← List.take_append_drop n s, List.mem_append] at hmark
  refine hmark.resolve_left fun hmem => ?_
  exact absurd (List.all_eq_true.1 hdigits '#' hmem) (by decide)

theorem mark_mem_of_fixedDigits? {count n : Nat} {s after : List Char} (hmark : '#' ∈ s)
    (h : fixedDigits? count s = some (n, after)) : '#' ∈ after := by
  unfold fixedDigits? at h
  dsimp only at h
  split at h
  · rename_i hdigits
    rw [← (Prod.mk.inj (Option.some.inj h)).2]
    exact mark_mem_drop hmark hdigits.2
  · cases h

theorem mark_mem_of_dropChar? {p : Char → Bool} (hp : p '#' = false) {s after : List Char}
    (hmark : '#' ∈ s) (h : dropChar? p s = some after) : '#' ∈ after := by
  cases s with
  | nil => cases hmark
  | cons c rest =>
    rw [dropChar?] at h
    split at h
    · rename_i hc
      obtain rfl := Option.some.inj h
      refine List.mem_of_ne_of_mem ?_ hmark
      rintro rfl
      rw [hp] at hc
      cases hc
    · cases h

theorem mark_mem_of_date? {s after : List Char} {d : CivilDate} (hmark : '#' ∈ s)
    (h : date? s = some (d, after)) : '#' ∈ after := by
  obtain ⟨year, s₁, s₂, s₃, s₄, hyear, hdash, hmonth, hdash', hday, -⟩ := exists_of_date? h
  have hmark₁ := mark_mem_of_fixedDigits? hmark hyear
  have hmark₂ := mark_mem_of_dropChar? (by decide) hmark₁ hdash
  have hmark₃ := mark_mem_of_fixedDigits? hmark₂ hmonth
  have hmark₄ := mark_mem_of_dropChar? (by decide) hmark₃ hdash'
  exact mark_mem_of_fixedDigits? hmark₄ hday

theorem mark_mem_of_timeOfDay? {s after : List Char} {time : Nat × Nat} (hmark : '#' ∈ s)
    (h : timeOfDay? s = some (time, after)) : '#' ∈ after := by
  obtain ⟨hour, minute, shown, fraction, s₁, s₂, s₃, s₄, s₅, hhour, hcolon, hminute, hcolon',
    hshown, hfraction, -⟩ := exists_of_timeOfDay? h
  have hmark₁ := mark_mem_of_fixedDigits? hmark hhour
  have hmark₂ := mark_mem_of_dropChar? (by decide) hmark₁ hcolon
  have hmark₃ := mark_mem_of_fixedDigits? hmark₂ hminute
  have hmark₄ := mark_mem_of_dropChar? (by decide) hmark₃ hcolon'
  have hmark₅ := mark_mem_of_fixedDigits? hmark₄ hshown
  cases hfraction with
  | absent => exact hmark₅
  | digits r =>
    apply mark_mem_drop (List.mem_of_ne_of_mem (by decide) hmark₅)
    rw [← List.prefix_iff_eq_take.1 (List.takeWhile_prefix _)]
    exact List.all_takeWhile

theorem mark_mem_of_offset? {s after : List Char} {offset : Int} (hmark : '#' ∈ s)
    (h : offset? s = some (offset, after)) : '#' ∈ after := by
  have hne {marks : List Char} (hmarks : '#' ∉ marks) {c : Char} (hc : c ∈ marks)
      {rest : List Char} (hmem : '#' ∈ c :: rest) : '#' ∈ rest :=
    List.mem_of_ne_of_mem (fun heq => hmarks (heq ▸ hc)) hmem
  rcases exists_of_offset? h with ⟨c, hc, rfl, -⟩ |
    ⟨sign, hsign, hours, minutes, r, s₁, s₂, rfl, hhours, hcolon, hminutes, -⟩
  · exact hne (by decide) hc hmark
  · have hmark₁ := mark_mem_of_fixedDigits? (hne (by decide) hsign hmark) hhours
    have hmark₂ := mark_mem_of_dropChar? (by decide) hmark₁ hcolon
    exact mark_mem_of_fixedDigits? hmark₂ hminutes

theorem ofText?_eq_none {s : List Char} (hmark : '#' ∈ s) : ofText? s = none := by
  rw [Option.eq_none_iff_forall_ne_some]
  intro t h
  obtain ⟨d, second, offset, s₁, s₂, s₃, hdate, hbetween, htime, hoffset, -⟩ := exists_of_ofText? h
  have hmark₁ := mark_mem_of_date? hmark hdate
  have hmark₂ := mark_mem_of_dropChar? (by decide) hmark₁ hbetween
  have hmark₃ := mark_mem_of_timeOfDay? hmark₂ htime
  cases mark_mem_of_offset? hmark₃ hoffset

theorem mem_text (t : Instant) : 'T' ∈ t.text := by
  rw [text]
  simp

theorem exists_digit_text (t : Instant) : ∃ c ∈ t.text, c.isDigit = true := by
  have hne : Nat.toDigits 10 (CivilDate.ofDayNumber (t.seconds / 86400 + epochDay)).day ≠ [] :=
    Nat.toDigits_ne_nil
  obtain ⟨c, hc⟩ := List.exists_mem_of_ne_nil _ hne
  refine ⟨c, ?_, isDigit_of_mem_toDigits hc⟩
  rw [text]
  simp [padded, hc]

end Instant

end LedgerSchema
