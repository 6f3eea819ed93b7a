import Mathlib
import LedgerSchema.Proofs.Instant.Range
import LedgerSchema.Proofs.Wire.Codec
import LedgerSchema.Proofs.Wire.Reference

/-!
Instants that are written again. Whatever is read as an instant, a text or a number of milliseconds,
has a text in universal time. That text is read as the instant cut to milliseconds if the year has
four digits in universal time, and is refused otherwise.
-/

set_option autoImplicit false

namespace LedgerSchema

namespace Wire

variable {r : Registry}

theorem readPrimitive_dateTime_eq_ok_iff {node : Json} {v : Value} :
    readPrimitive .dateTime node = .ok v ↔ ∃ t, instant? node = some t ∧ v = .dateTime t := by
  have hprimitive : primitive? .dateTime node = (instant? node).map .dateTime := by
    cases node <;> rfl
  rw [readPrimitive, hprimitive]
  cases instant? node with
  | none => simp
  | some t => simp [eq_comm]

theorem regular_of_instant? {node : Json} {t : Instant} (h : instant? node = some t) :
    t.Regular := by
  cases node with
  | string s => exact (Instant.regular_of_ofText? h).1
  | number n =>
    obtain ⟨ms, -, h⟩ := Option.bind_eq_some_iff.1 h
    exact (Instant.regular_of_ofMillis? h).1
  | _ => cases h

theorem inFourDigitYear_of_instant?_int {ms : Int} {t : Instant}
    (h : instant? (.int ms) = some t) :
    t.InFourDigitYear ↔ Instant.firstSecond * 1000 ≤ ms ∧ ms < Instant.endSecond * 1000 := by
  obtain ⟨n, hn, hmillis⟩ := Option.bind_eq_some_iff.1 h
  have hms : n.toInt = ms := toInt_of_int64OfInt? hn
  rw [Instant.inFourDigitYear_iff, (Instant.regular_of_ofMillis? hmillis).2, hms]
  omega

theorem ofJson_text_of_regular {t : Instant} (h : t.Regular) :
    ofJson r (.string (.ofList t.text)) (.primitive .dateTime) =
      if t.InFourDigitYear then .ok (.dateTime t.toMillis)
      else .error (.mismatch (.notPrimitive (.string (.ofList t.text)) .dateTime)) := by
  change readPrimitive .dateTime (.string (.ofList t.text)) = _
  by_cases hyear : t.InFourDigitYear
  · rw [if_pos hyear, readPrimitive_text_eq_ok_iff]
    exact ⟨h.legible_iff.2 hyear, congrArg Value.dateTime h.cut_eq.symm⟩
  · have hnone : Instant.ofText? t.text = none := by
      rw [Option.eq_none_iff_forall_ne_some]
      intro t' hread
      exact hyear (h.legible_iff.1 (Instant.legible_of_ofText?_text hread))
    rw [if_neg hyear]
    simp only [readPrimitive, primitive?, instant?, String.toList_ofList, hnone, Option.map_none]

/-- What is read as an instant is written as its text. The text is read again exactly if the year in
universal time has four digits, and then as the instant cut to milliseconds. A number of
milliseconds can lie outside of those years; a text only by its offset, so by less than a day. -/
theorem rereading_of_instant {node : Json} {v : Value} (hnode : node ≠ .null)
    (h : ofJson r node (.primitive .dateTime) = .ok v) :
    ∃ t : Instant, v = .dateTime t ∧ toJson r v = .ok (.string (.ofList t.text)) ∧
      (ofJson r (.string (.ofList t.text)) (.primitive .dateTime) =
        if t.InFourDigitYear then .ok (.dateTime t.toMillis)
        else .error (.mismatch (.notPrimitive (.string (.ofList t.text)) .dateTime))) ∧
      (∀ ms, node = .int ms →
        (t.InFourDigitYear ↔ -62167219200000 ≤ ms ∧ ms ≤ 253402300799999)) ∧
      (∀ s, node = .string s →
        Instant.firstSecond - 86400 < t.seconds ∧ t.seconds < Instant.endSecond + 86400) := by
  have hread : readPrimitive .dateTime node = .ok v := (decode_primitive hnode _ _).symm.trans h
  obtain ⟨t, ht, rfl⟩ := readPrimitive_dateTime_eq_ok_iff.1 hread
  refine ⟨t, rfl, rfl, ofJson_text_of_regular (regular_of_instant? ht), ?_, ?_⟩
  · rintro ms rfl
    rw [inFourDigitYear_of_instant?_int ht]
    unfold Instant.firstSecond Instant.endSecond
    omega
  · rintro s rfl
    exact (Instant.regular_of_ofText? ht).2

/-- Half of a millisecond in a leap second is lost, and the leap second comes back. -/
theorem rereading_of_leap_second :
    ofJson .standard (.string "2016-12-31T23:59:60.9995Z") (.primitive .dateTime) =
      .ok (.dateTime ⟨1483228799, 1999500000⟩) ∧
    ofJson .standard (.string "2016-12-31T23:59:60.999Z") (.primitive .dateTime) =
      .ok (.dateTime ⟨1483228799, 1999000000⟩) := by
  have hread : ofJson .standard (.string "2016-12-31T23:59:60.9995Z") (.primitive .dateTime) =
      .ok (.dateTime ⟨1483228799, 1999500000⟩) := by rfl
  obtain ⟨t, ht, -, hback, -⟩ := rereading_of_instant (by simp) hread
  obtain rfl := Value.dateTime.inj ht
  refine ⟨hread, ?_⟩
  rw [if_pos (by decide)] at hback
  exact hback

/-- An hour west of universal time, the year 9999 ends in the year 10000. -/
theorem instant_written_but_not_read :
    ofJson .standard (.string "9999-12-31T23:59:59-01:00") (.primitive .dateTime) =
      .ok (.dateTime ⟨253402304399, 0⟩) ∧
    toJson .standard (.dateTime ⟨253402304399, 0⟩) =
      .ok (.string "+10000-01-01T00:59:59.000Z") ∧
    ofJson .standard (.string "+10000-01-01T00:59:59.000Z") (.primitive .dateTime) =
      .error (.mismatch (.notPrimitive (.string "+10000-01-01T00:59:59.000Z") .dateTime)) := by
  refine ⟨?_, ?_, ?_⟩
  · rfl
  · rfl
  · rfl

end Wire

end LedgerSchema
