import Mathlib
import LedgerSchema.Proofs.Number.Shortest

/-!
Doubles as text: the written decimal of a finite double is read back as that double, sign of zero
included, in every layout.
-/

set_option autoImplicit false

namespace LedgerSchema

/-! Reading: digits, a point with digits behind it, and an exponent mark with what follows. -/

theorem takeWhile_digits_append {ds : List Char} (h : ds.all Char.isDigit = true) (s : List Char) :
    (ds ++ s).takeWhile Char.isDigit = ds ++ s.takeWhile Char.isDigit :=
  List.takeWhile_append_of_pos (List.all_eq_true.1 h)

theorem dropWhile_digits_append {ds : List Char} (h : ds.all Char.isDigit = true) (s : List Char) :
    (ds ++ s).dropWhile Char.isDigit = s.dropWhile Char.isDigit :=
  List.dropWhile_append_of_pos (List.all_eq_true.1 h)

/-- What may follow the digits of a decimal: nothing, or an exponent. -/
inductive ExponentText : List Char → Int → Prop
  | nil : ExponentText [] 0
  | mark {s : List Char} {e : Int} : intOfText? s = some e → ExponentText ('e' :: s) e

namespace ExponentText
variable {s : List Char} {e : Int}

theorem takeWhile_digits (h : ExponentText s e) : s.takeWhile Char.isDigit = [] := by
  cases h <;> rfl

theorem dropWhile_digits (h : ExponentText s e) : s.dropWhile Char.isDigit = s := by
  cases h <;> rfl

theorem exponentOfText? (h : ExponentText s e) : LedgerSchema.exponentOfText? s = some e := by
  cases h with
  | nil => rfl
  | mark h => simpa [LedgerSchema.exponentOfText?] using h

end ExponentText

/-- The text stands for `n * 10 ^ scale`: digits, a point with digits behind it unless there is
none, and an exponent. -/
inductive Spells : List Char → Nat → Int → Prop
  | whole {d s : List Char} {e : Int} (hne : d ≠ []) (hd : d.all Char.isDigit = true)
      (hs : ExponentText s e) : Spells (d ++ s) (natOfDigits d) e
  | point {d f s : List Char} {e : Int} (hne : d ≠ []) (hd : d.all Char.isDigit = true)
      (hf : f.all Char.isDigit = true) (hs : ExponentText s e) :
      Spells (d ++ '.' :: (f ++ s)) (natOfDigits (d ++ f)) (e - f.length)

theorem Spells.ofDecimalText? {text : List Char} {n : Nat} {scale : Int}
    (h : Spells text n scale) (negative : Bool) :
    Binary64.ofDecimalText? negative text = some (.ofDecimal negative n scale) := by
  cases h with
  | @whole ds s e hne hds hs =>
    have hhead : ∀ r, s ≠ '.' :: r := by
      rintro r rfl
      cases hs
    unfold Binary64.ofDecimalText?
    rw [takeWhile_digits_append hds, dropWhile_digits_append hds, hs.takeWhile_digits,
      hs.dropWhile_digits]
    dsimp only
    split
    · rename_i r
      exact absurd rfl (hhead r)
    · simp only [List.append_nil, hne, if_false, hs.exponentOfText?, Option.map_some,
        List.length_nil, Nat.cast_zero, sub_zero]
  | @point ds fs s e hne hds hfs hs =>
    have hpoint : Char.isDigit '.' = false := by decide
    simp only [Binary64.ofDecimalText?, takeWhile_digits_append hds, dropWhile_digits_append hds,
      List.takeWhile_cons, List.dropWhile_cons, hpoint, Bool.false_eq_true, if_false,
      takeWhile_digits_append hfs, dropWhile_digits_append hfs, hs.takeWhile_digits,
      hs.dropWhile_digits, List.append_nil, hs.exponentOfText?, Option.map_some,
      List.append_eq_nil_iff, hne, false_and]

theorem Spells.exists_cons {text : List Char} {n : Nat} {scale : Int} (h : Spells text n scale) :
    ∃ c rest, text = c :: rest ∧ c.isDigit = true := by
  cases h with
  | whole hne hd | point hne hd =>
    obtain ⟨c, rest, rfl⟩ := List.exists_cons_of_ne_nil hne
    exact ⟨c, _, rfl, List.all_eq_true.1 hd c List.mem_cons_self⟩

namespace DecimalText

theorem exponentText (e : Int) :
    ExponentText ('e' :: (if e < 0 then '-' else '+') :: Nat.toDigits 10 e.natAbs) e := by
  have hne : Nat.toDigits 10 e.natAbs ≠ [] := Nat.toDigits_ne_nil
  have hds := all_isDigit_toDigits e.natAbs
  refine .mark ?_
  split
  · rw [intOfText?_minus hne hds, natOfDigits_toDigits]
    exact congrArg some (by omega)
  · rw [intOfText?_plus hne hds, natOfDigits_toDigits]
    exact congrArg some (by omega)

variable {digits : List Char}

/-- A zero, the point, and zeros in front of the digits. -/
theorem spells_below (hall : digits.all Char.isDigit = true) (below : Nat) :
    Spells ('0' :: '.' :: (List.replicate below '0' ++ digits)) (natOfDigits digits)
      (Int.negSucc below + 1 - digits.length) := by
  have hzeros : (List.replicate below '0').all Char.isDigit = true := by simp
  have hspells := Spells.point (d := ['0']) (f := List.replicate below '0' ++ digits)
    (by simp) (by decide) (by rw [List.all_append, hzeros, hall]; rfl) .nil
  convert hspells using 1
  · simp
  · rw [natOfDigits_append, natOfDigits_append, natOfDigits_replicate_zero]
    simp [natOfDigits, Nat.ofDigitChars_cons]
  · rw [List.length_append, List.length_replicate]
    omega

/-- The digits and zeros up to the point, and a zero behind it. -/
theorem spells_whole (hne : digits ≠ []) (hall : digits.all Char.isDigit = true) (zeros : Nat) :
    Spells (digits ++ List.replicate zeros '0' ++ ['.', '0'])
      (natOfDigits digits * 10 ^ (zeros + 1)) (-1) := by
  have hzeros : (List.replicate zeros '0').all Char.isDigit = true := by simp
  have hspells := Spells.point (d := digits ++ List.replicate zeros '0') (f := ['0'])
    (by simp [hne]) (by rw [List.all_append, hall, hzeros]; rfl) (by decide) .nil
  convert hspells using 1
  · simp
  · rw [List.append_assoc, ← List.replicate_succ', natOfDigits_append, natOfDigits_replicate_zero,
      List.length_replicate, add_zero]
  · rfl

/-- The point stands between two of the digits, which an exponent may follow. -/
theorem spells_between (hall : digits.all Char.isDigit = true) {whole : Nat} (hpos : 0 < whole)
    (hlt : whole < digits.length) {s : List Char} {e : Int} (hs : ExponentText s e) :
    Spells (digits.take whole ++ '.' :: (digits.drop whole ++ s)) (natOfDigits digits)
      (e + whole - digits.length) := by
  have htake : (digits.take whole).all Char.isDigit = true :=
    List.all_eq_true.2 fun c hc => List.all_eq_true.1 hall c (List.mem_of_mem_take hc)
  have hdrop : (digits.drop whole).all Char.isDigit = true :=
    List.all_eq_true.2 fun c hc => List.all_eq_true.1 hall c (List.mem_of_mem_drop hc)
  have hne : digits.take whole ≠ [] := by
    rw [Ne, List.take_eq_nil_iff, not_or]
    exact ⟨hpos.ne', List.ne_nil_of_length_pos (by omega)⟩
  have hspells := Spells.point hne htake hdrop hs
  rw [List.take_append_drop, List.length_drop] at hspells
  convert hspells using 1
  omega

/-- Zeros that a layout adds at the end of the digits are taken from the scale. -/
theorem spells_layOut (layout : DecimalLayout) {t : DecimalText} (h : t.Numeral) :
    ∃ k : Nat, Spells (t.layOut layout) (natOfDigits t.digits * 10 ^ k)
      (t.exponent + 1 - t.digits.length - k) := by
  obtain ⟨digits, exponent⟩ := t
  obtain ⟨hne, hall⟩ := h
  dsimp only at hne hall ⊢
  have hlength : 0 < digits.length := List.length_pos_of_ne_nil hne
  unfold layOut
  dsimp only
  split
  · split
    · rename_i below _
      refine ⟨0, ?_⟩
      rw [pow_zero, mul_one, Nat.cast_zero, sub_zero]
      exact spells_below hall below
    · rename_i above _
      rw [Int.ofNat_eq_natCast]
      rcases le_or_gt digits.length (above + 1) with hle | hlt
      · refine ⟨above + 1 - digits.length + 1, ?_⟩
        rw [List.take_of_length_le hle, if_pos (List.drop_eq_nil_iff.2 hle)]
        convert spells_whole hne hall (above + 1 - digits.length) using 1
        omega
      · refine ⟨0, ?_⟩
        rw [List.length_take_of_le hlt.le, Nat.sub_self, List.replicate_zero, List.append_nil,
          if_neg (fun hdrop => hlt.not_ge (List.drop_eq_nil_iff.1 hdrop))]
        convert spells_between hall (Nat.succ_pos above) hlt .nil using 1
        · rw [List.append_nil]
        · rw [pow_zero, mul_one]
        · push_cast
          ring
  · refine ⟨0, ?_⟩
    rw [pow_zero, mul_one, Nat.cast_zero, sub_zero]
    split
    · rename_i hle
      have hone : digits.length = 1 := by omega
      rw [List.take_of_length_le hle, List.drop_eq_nil_iff.2 hle, List.append_nil, List.append_nil,
        hone]
      convert Spells.whole hne hall (exponentText exponent) using 1
      push_cast
      ring
    · rename_i hgt
      convert spells_between hall one_pos (not_le.1 hgt) (exponentText exponent) using 1
      · simp
      · push_cast
        ring

end DecimalText

theorem toLower_of_isDigit {c : Char} (h : c.isDigit = true) : c.toLower = c := by
  rw [Char.isDigit, Bool.and_eq_true, decide_eq_true_eq, decide_eq_true_eq] at h
  unfold Char.toLower
  rw [dif_neg]
  rintro ⟨hge, -⟩
  exact absurd (UInt32.le_trans hge h.2) (by decide)

namespace Binary64

theorem ofText?_of_spells {negative : Bool} {text : List Char} {n : Nat} {scale : Int}
    (h : Spells text n scale) :
    ofText? ((if negative then ['-'] else []) ++ text) = some (ofDecimal negative n scale) := by
  have hread := h.ofDecimalText? negative
  obtain ⟨c, rest, rfl, hc⟩ := h.exists_cons
  have hsplit : splitSign ((if negative then ['-'] else []) ++ c :: rest) =
      (negative, c :: rest) := by
    cases negative with
    | false => exact splitSign_of_isDigit hc rest
    | true => rfl
  have hi : c ≠ 'i' := ne_of_isDigit hc (by decide)
  have hn : c ≠ 'n' := ne_of_isDigit hc (by decide)
  rw [ofText?, hsplit]
  dsimp only
  rw [List.map_cons, toLower_of_isDigit hc, if_neg (by simp [hi]), if_neg (by simp [hn]), hread]

/-- What follows the sign in the text of a finite double stands for that double. -/
theorem spells_finiteText (layout : DecimalLayout) {x : Binary64} (h : x.isFinite = true) :
    ∃ text n scale, x.finiteText layout = (if x.negative then ['-'] else []) ++ text ∧
      Spells text n scale ∧ ofDecimal x.negative n scale = x := by
  obtain ⟨negative, m, hlt⟩ := x
  have hm : m < infinity := of_decide_eq_true h
  rw [finiteText]
  by_cases h0 : m = 0
  · subst h0
    have hspells := Spells.point (d := ['0']) (f := ['0']) (by simp) (by decide) (by decide) .nil
    exact ⟨_, _, _, rfl, hspells, rfl⟩
  · obtain ⟨k, hspells⟩ := DecimalText.spells_layOut layout (numeral_shortestText h0 hm)
    have hzero : ¬ Binary64.isZero ⟨negative, m, hlt⟩ = true := fun hz => h0 (beq_iff_eq.1 hz)
    rw [if_neg hzero]
    refine ⟨_, _, _, rfl, hspells, ?_⟩
    rw [ofDecimal_mul_pow]
    exact nearest_shortestText negative h0 hm hlt

theorem ofText?_finiteText (layout : DecimalLayout) {x : Binary64} (h : x.isFinite = true) :
    ofText? (x.finiteText layout) = some x := by
  obtain ⟨text, n, scale, htext, hspells, hx⟩ := spells_finiteText layout h
  rw [htext, ofText?_of_spells hspells, hx]

/-- A double that is not finite is read back as one that is written the same. -/
theorem exists_ofText?_specialText (x : Binary64) :
    ∃ y, y.isFinite = false ∧ ofText? x.specialText = some y ∧
      y.specialText = x.specialText := by
  have hword : x.specialText = nan.specialText ∨ x.specialText = (infinite true).specialText ∨
      x.specialText = (infinite false).specialText := by
    unfold specialText
    cases x.isNaN <;> cases x.negative <;> decide
  rcases hword with h | h | h <;> rw [h]
  · exact ⟨nan, by decide, by decide, rfl⟩
  · exact ⟨infinite true, by decide, by decide, rfl⟩
  · exact ⟨infinite false, by decide, by decide, rfl⟩

theorem mem_dropWhile_isDigit {s : List Char} {c : Char} (hc : c ∈ s) (hdigit : c.isDigit = false) :
    c ∈ s.dropWhile Char.isDigit := by
  rw [← List.takeWhile_append_dropWhile (p := Char.isDigit) (l := s), List.mem_append] at hc
  refine hc.resolve_left fun hmem => ?_
  rw [List.mem_takeWhile_imp hmem] at hdigit
  cases hdigit

theorem exponentOfText?_eq_none {s : List Char} (h : '#' ∈ s) : exponentOfText? s = none := by
  cases s with
  | nil => cases h
  | cons c rest =>
    rw [exponentOfText?]
    split
    · rename_i hc
      have hne : '#' ≠ c := by
        rintro rfl
        exact absurd hc (by decide)
      exact intOfText?_eq_none (List.mem_of_ne_of_mem hne h) (by decide) (by decide) (by decide)
    · rfl

theorem ofDecimalText?_eq_none {s : List Char} (h : '#' ∈ s) (negative : Bool) :
    ofDecimalText? negative s = none := by
  have hrest := mem_dropWhile_isDigit h (by decide)
  unfold ofDecimalText?
  dsimp only
  generalize s.dropWhile Char.isDigit = rest at hrest
  split
  · rename_i fraction
    have hafter : '#' ∈ fraction.dropWhile Char.isDigit :=
      mem_dropWhile_isDigit (List.mem_of_ne_of_mem (by decide) hrest) (by decide)
    dsimp only
    rw [exponentOfText?_eq_none hafter, Option.map_none, ite_self]
  · dsimp only
    rw [exponentOfText?_eq_none hrest, Option.map_none, ite_self]

theorem ofText?_eq_none {s : List Char} (h : '#' ∈ s) : ofText? s = none := by
  have hmem := mem_splitSign h (by decide) (by decide)
  have hword : '#' ∈ (splitSign s).2.map Char.toLower := List.mem_map.2 ⟨'#', hmem, by decide⟩
  have hne {word : List Char} (hword' : '#' ∉ word) : (splitSign s).2.map Char.toLower ≠ word :=
    fun heq => hword' (heq ▸ hword)
  rw [ofText?]
  dsimp only
  rw [if_neg (not_or.2 ⟨hne (by decide), hne (by decide)⟩), if_neg (hne (by decide)),
    ofDecimalText?_eq_none hmem]

theorem exists_digit_finiteText (layout : DecimalLayout) {x : Binary64} (h : x.isFinite = true) :
    ∃ c ∈ x.finiteText layout, c.isDigit = true := by
  obtain ⟨text, n, scale, htext, hspells, -⟩ := spells_finiteText layout h
  obtain ⟨c, rest, rfl, hc⟩ := hspells.exists_cons
  exact ⟨c, by simp [htext], hc⟩

end Binary64

end LedgerSchema
