import Mathlib
import LedgerSchema.Json.Printer

/-!
Whole numbers as decimal digits: what is written is read back as the same number.
-/

set_option autoImplicit false

namespace LedgerSchema

theorem natOfDigits_append (ds es : List Char) :
    natOfDigits (ds ++ es) = natOfDigits ds * 10 ^ es.length + natOfDigits es := by
  rw [natOfDigits, Nat.ofDigitChars_append, Nat.ofDigitChars_eq_ofDigitChars_zero, mul_comm]
  rfl

@[simp] theorem natOfDigits_replicate_zero (n : Nat) :
    natOfDigits (List.replicate n '0') = 0 := by
  simp [natOfDigits, Nat.ofDigitChars_replicate_zero]

@[simp] theorem natOfDigits_toDigits (n : Nat) : natOfDigits (Nat.toDigits 10 n) = n :=
  Nat.ofDigitChars_ten_toDigits

theorem isDigit_of_mem_toDigits {n : Nat} {c : Char} (h : c ∈ Nat.toDigits 10 n) :
    c.isDigit = true := Nat.isDigit_of_mem_toDigits (by decide) (by decide) h

theorem all_isDigit_toDigits (n : Nat) : (Nat.toDigits 10 n).all Char.isDigit = true :=
  List.all_eq_true.2 fun _ => isDigit_of_mem_toDigits

theorem toNat_bounds_of_isDigit {c : Char} (h : c.isDigit = true) :
    48 ≤ c.toNat ∧ c.toNat ≤ 57 := by
  rw [Char.isDigit, Bool.and_eq_true, decide_eq_true_eq, decide_eq_true_eq] at h
  exact ⟨UInt32.le_iff_toNat_le.1 h.1, UInt32.le_iff_toNat_le.1 h.2⟩

theorem natOfDigits_lt {ds : List Char} (h : ds.all Char.isDigit = true) :
    natOfDigits ds < 10 ^ ds.length := by
  induction ds using List.reverseRecOn with
  | nil => decide
  | append_singleton ds c ih =>
    rw [List.all_append, Bool.and_eq_true, List.all_cons, List.all_nil, Bool.and_true] at h
    have hds : natOfDigits ds < 10 ^ ds.length := ih h.1
    have hc : natOfDigits [c] < 10 := by
      have hbounds := toNat_bounds_of_isDigit h.2
      have hzero : '0'.toNat = 48 := rfl
      rw [natOfDigits, Nat.ofDigitChars_cons, Nat.ofDigitChars_nil]
      omega
    rw [natOfDigits_append, List.length_append, List.length_singleton, pow_succ]
    omega

theorem ne_of_isDigit {c d : Char} (hc : c.isDigit = true) (hd : d.isDigit = false) : c ≠ d := by
  rintro rfl
  simp [hc] at hd

theorem splitSign_of_isDigit {c : Char} (hc : c.isDigit = true) (rest : List Char) :
    splitSign (c :: rest) = (false, c :: rest) := by
  have hminus : c ≠ '-' := ne_of_isDigit hc (by decide)
  have hplus : c ≠ '+' := ne_of_isDigit hc (by decide)
  unfold splitSign
  split <;> simp_all

theorem intOfText?_digits {ds : List Char} (hne : ds ≠ []) (hds : ds.all Char.isDigit = true) :
    intOfText? ds = some (natOfDigits ds) := by
  obtain ⟨c, rest, rfl⟩ := List.exists_cons_of_ne_nil hne
  have hc : c.isDigit = true := by simp_all
  rw [intOfText?, splitSign_of_isDigit hc]
  simp [hds, applySign]

theorem intOfText?_minus {ds : List Char} (hne : ds ≠ []) (hds : ds.all Char.isDigit = true) :
    intOfText? ('-' :: ds) = some (-(natOfDigits ds : Int)) := by
  simp [intOfText?, splitSign, hne, hds, applySign]

theorem intOfText?_plus {ds : List Char} (hne : ds ≠ []) (hds : ds.all Char.isDigit = true) :
    intOfText? ('+' :: ds) = some (natOfDigits ds : Int) := by
  simp [intOfText?, splitSign, hne, hds, applySign]

theorem intOfText?_intText (n : Int) : intOfText? (intText n) = some n := by
  have hne : Nat.toDigits 10 n.natAbs ≠ [] := Nat.toDigits_ne_nil
  have hds := all_isDigit_toDigits n.natAbs
  unfold intText
  split
  · rw [List.singleton_append, intOfText?_minus hne hds, natOfDigits_toDigits]
    exact congrArg some (by omega)
  · rw [List.nil_append, intOfText?_digits hne hds, natOfDigits_toDigits]
    exact congrArg some (by omega)

theorem mem_splitSign {s : List Char} {c : Char} (hc : c ∈ s) (hminus : c ≠ '-') (hplus : c ≠ '+') :
    c ∈ (splitSign s).2 := by
  unfold splitSign
  split <;> simp_all

theorem intOfText?_eq_none {s : List Char} {c : Char} (hc : c ∈ s) (hdigit : c.isDigit = false)
    (hminus : c ≠ '-') (hplus : c ≠ '+') : intOfText? s = none := by
  have hmem := mem_splitSign hc hminus hplus
  have hall : (splitSign s).2.all Char.isDigit = false :=
    List.all_eq_false.2 ⟨c, hmem, by simp [hdigit]⟩
  simp [intOfText?, hall]

theorem exists_digit_intText (n : Int) : ∃ c ∈ intText n, c.isDigit = true := by
  obtain ⟨c, hc⟩ := List.exists_mem_of_ne_nil _ (Nat.toDigits_ne_nil (n := n.natAbs) (b := 10))
  refine ⟨c, ?_, isDigit_of_mem_toDigits hc⟩
  rw [intText, List.mem_append]
  exact .inr hc

theorem int64OfInt?_toInt (n : Int64) : int64OfInt? n.toInt = some n := by
  rw [int64OfInt?, if_pos ⟨n.minValue_le_toInt, n.toInt_le⟩, Int64.ofInt_toInt]

theorem toInt_of_int64OfInt? {n : Int} {i : Int64} (h : int64OfInt? n = some i) : i.toInt = n := by
  unfold int64OfInt? at h
  split at h
  · rename_i hrange
    rw [← Option.some.inj h]
    exact Int64.toInt_ofInt_of_le hrange.1 (Int.lt_add_one_of_le hrange.2)
  · cases h

theorem int32OfInt?_toInt (n : Int32) : int32OfInt? n.toInt = some n := by
  rw [int32OfInt?, if_pos ⟨n.minValue_le_toInt, n.toInt_le⟩, Int32.ofInt_toInt]

theorem int64OfInt?_toInt_int32 (n : Int32) : int64OfInt? n.toInt = some n.toInt64 := by
  rw [← Int32.toInt_toInt64, int64OfInt?_toInt]

end LedgerSchema
