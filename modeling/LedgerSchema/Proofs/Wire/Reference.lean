import Mathlib
import LedgerSchema.Proofs.Instant.Text
import LedgerSchema.Proofs.Number.DoubleText
import LedgerSchema.Proofs.Outcome
import LedgerSchema.Wire.Encode

/-!
Keys and references as text: the value of a key is read back from its text, and an instance with
nothing but its key from the reference to it.
-/

set_option autoImplicit false

namespace LedgerSchema

/-- The values of a primitive type that have a wire form. -/
inductive Primitive.Holds : Primitive → Value → Prop
  | string (s : String) : Holds .string (.string s)
  | long (n : Int64) : Holds .long (.long n)
  | integer (n : Int32) : Holds .integer (.integer n)
  | double {x : Binary64} (h : x.isFinite = true) : Holds .double (.double x)
  | dateTime {t : Instant} (h : t.Writable) : Holds .dateTime (.dateTime t)
  | boolean (b : Bool) : Holds .boolean (.boolean b)

/-! Texts that are not blank: those with a digit. -/

theorem not_isBlank_of_isDigit {c : Char} (h : c.isDigit = true) : isBlank c = false := by
  have hn := toNat_bounds_of_isDigit h
  simp only [isBlank, Bool.or_eq_false_iff, Bool.and_eq_false_iff, decide_eq_false_iff_not,
    beq_eq_false_iff_ne]
  omega

theorem isBlankText_of_isDigit {s : List Char} {c : Char} (hc : c ∈ s) (h : c.isDigit = true) :
    isBlankText (.ofList s) = false := by
  rw [isBlankText, String.toList_ofList, List.all_eq_false]
  exact ⟨c, hc, by simp [not_isBlank_of_isDigit h]⟩

namespace Wire

theorem toList_referenceText (type key : String) :
    (referenceText type key).toList = referencePrefix ++ (type.toList ++ '#' :: key.toList) := by
  have hmark : "#".toList = ['#'] := by simp
  unfold referenceText referencePrefix
  dsimp only [toString]
  simp only [String.toList_append, hmark, List.append_assoc, List.singleton_append]

/-- The type and the key of a reference are found again, if the type can stand in front of the mark
and neither is empty. -/
theorem splitReference?_referenceText {type key : String} (hmark : '#' ∉ type.toList)
    (htype : type ≠ "") (hkey : key ≠ "") :
    splitReference? (referenceText type key) = some (type, key) := by
  have hmem : ∀ c ∈ type.toList, decide (c ≠ '#') = true := by
    intro c hc
    rw [decide_eq_true_eq]
    rintro rfl
    exact hmark hc
  rw [splitReference?, toList_referenceText]
  generalize referencePrefix = p
  rw [if_pos (List.isPrefixOf_iff_prefix.2 (List.prefix_append _ _)), List.drop_left]
  dsimp only
  rw [List.takeWhile_append_of_pos hmem, List.dropWhile_append_of_pos hmem]
  simp [htype, hkey]

/-- The first mark of a reference ends its type. -/
theorem splitReference?_eq_some {text type key : String}
    (h : splitReference? text = some (type, key)) :
    '#' ∉ type.toList ∧ text = referenceText type key := by
  unfold splitReference? at h
  dsimp only at h
  split at h
  · rename_i hprefix
    obtain ⟨s, hs⟩ := List.isPrefixOf_iff_prefix.1 hprefix
    rw [← hs, List.drop_left] at h
    have hsplit := List.takeWhile_append_dropWhile (p := fun c => decide (c ≠ '#')) (l := s)
    have hmark : '#' ∉ s.takeWhile (fun c => decide (c ≠ '#')) := fun hmem => by
      simpa using List.mem_takeWhile_imp hmem
    split at h
    · rename_i c after hafter
      have hc : c = '#' := by
        have hhead := List.head?_dropWhile_not (fun c => decide (c ≠ '#')) s
        rw [hafter] at hhead
        simpa using hhead
      split at h
      · cases h
      · obtain ⟨rfl, rfl⟩ := Prod.mk.inj (Option.some.inj h)
        rw [hafter, hc] at hsplit
        refine ⟨by simpa using hmark, String.toList_inj.1 ?_⟩
        rw [toList_referenceText, String.toList_ofList, String.toList_ofList, hsplit, hs]
    · cases h
  · cases h

theorem append_mark_inj {α : Type} {mark : α} {x y s t : List α} (hx : mark ∉ x) (hy : mark ∉ y)
    (h : x ++ mark :: s = y ++ mark :: t) : x = y ∧ s = t := by
  induction x generalizing y with
  | nil =>
    cases y with
    | nil => exact ⟨rfl, (List.cons.inj h).2⟩
    | cons c y => exact absurd ((List.cons.inj h).1 ▸ List.mem_cons_self) hy
  | cons c x ih =>
    cases y with
    | nil => exact absurd ((List.cons.inj h).1 ▸ List.mem_cons_self) hx
    | cons d y =>
      obtain ⟨rfl, hrest⟩ := List.cons.inj h
      obtain ⟨rfl, rfl⟩ :=
        ih (mt (List.mem_cons_of_mem _) hx) (mt (List.mem_cons_of_mem _) hy) hrest
      exact ⟨rfl, rfl⟩

/-- A reference is split at its mark, or before that at one in the name of its type. -/
theorem splitReference?_referenceText_eq_some {type key type' key' : String}
    (h : splitReference? (referenceText type key) = some (type', key')) :
    type' = type ∧ key' = key ∨
      '#' ∈ key'.toList ∧ '#' ∉ type'.toList ∧ ∃ after, type = type' ++ "#" ++ after := by
  obtain ⟨hmark, htext⟩ := splitReference?_eq_some h
  have htext : type.toList ++ '#' :: key.toList = type'.toList ++ '#' :: key'.toList := by
    have hlist := congrArg String.toList htext
    rw [toList_referenceText, toList_referenceText] at hlist
    exact List.append_cancel_left hlist
  by_cases htype : '#' ∈ type.toList
  · obtain ⟨before, after, hsplit, hbefore⟩ := List.eq_append_cons_of_mem htype
    rw [hsplit, List.append_assoc, List.cons_append] at htext
    obtain ⟨rfl, hkey⟩ := append_mark_inj hbefore hmark htext
    refine .inr ⟨hkey ▸ List.mem_append_right _ List.mem_cons_self, hmark, .ofList after, ?_⟩
    rw [← String.toList_inj, hsplit]
    simp
  · obtain ⟨hsame, hkey⟩ := append_mark_inj htype hmark htext
    exact .inl ⟨(String.toList_inj.1 hsame).symm, (String.toList_inj.1 hkey).symm⟩

theorem intOfText?_text (t : Instant) : intOfText? t.text = none :=
  intOfText?_eq_none t.mem_text (by decide) (by decide) (by decide)

theorem keyOfText_of_keyText {p : Primitive} {v : Value} (h : p.Holds v) {type field key : String}
    (hkey : keyText type field v = .ok key) : keyOfText key p = .ok v := by
  cases h with
  | string s =>
    obtain rfl := Except.ok.inj hkey
    rfl
  | long n =>
    obtain rfl := Except.ok.inj hkey
    simp [keyOfText, primitiveOfText?, intOfText?_intText, int64OfInt?_toInt]
  | integer n =>
    obtain rfl := Except.ok.inj hkey
    simp [keyOfText, primitiveOfText?, intOfText?_intText, int32OfInt?_toInt]
  | double hx =>
    obtain rfl := Except.ok.inj hkey
    simp [keyOfText, primitiveOfText?, doubleText, hx, Binary64.ofText?_finiteText jsonDoubles hx]
  | @dateTime t ht =>
    obtain rfl := Except.ok.inj hkey
    simp [keyOfText, intOfText?_text, readPrimitive, primitive?, instant?, Instant.ofText?_text ht]
  | boolean b =>
    obtain rfl := Except.ok.inj hkey
    cases b <;> simp [keyOfText, primitiveOfText?, boolText]

theorem readPrimitive_text_eq_ok_iff {t : Instant} {w : Value} :
    readPrimitive .dateTime (.string (.ofList t.text)) = .ok w ↔
      t.Legible ∧ w = .dateTime t.cut := by
  simp only [readPrimitive, primitive?, instant?, String.toList_ofList]
  cases hread : Instant.ofText? t.text with
  | none =>
    have hnot : ¬ t.Legible := by
      intro hlegible
      rw [Instant.ofText?_text_of_legible hlegible] at hread
      cases hread
    simp [hnot]
  | some t' =>
    obtain ⟨hlegible, rfl⟩ := Instant.ofText?_text_eq_some_iff.1 hread
    simp [hlegible, eq_comm]

theorem keyOfText_text_eq_ok_iff {t : Instant} {w : Value} :
    keyOfText (.ofList t.text) .dateTime = .ok w ↔ t.Legible ∧ w = .dateTime t.cut := by
  rw [keyOfText, String.toList_ofList, intOfText?_text]
  exact readPrimitive_text_eq_ok_iff

/-- Only the text of a string can be blank. -/
theorem exists_keyText_of_holds {p : Primitive} {v : Value} (h : p.Holds v)
    (hblank : ∀ s, v = .string s → isBlankText s = false) (type field : String) :
    ∃ key, keyText type field v = .ok key ∧ isBlankText key = false := by
  cases h with
  | string s => exact ⟨s, rfl, hblank s rfl⟩
  | long n =>
    obtain ⟨c, hc, hdigit⟩ := exists_digit_intText n.toInt
    exact ⟨_, rfl, isBlankText_of_isDigit hc hdigit⟩
  | integer n =>
    obtain ⟨c, hc, hdigit⟩ := exists_digit_intText n.toInt
    exact ⟨_, rfl, isBlankText_of_isDigit hc hdigit⟩
  | @double x hx =>
    obtain ⟨c, hc, hdigit⟩ := Binary64.exists_digit_finiteText jsonDoubles hx
    exact ⟨.ofList (x.finiteText jsonDoubles), by simp [keyText, doubleText, hx],
      isBlankText_of_isDigit hc hdigit⟩
  | @dateTime t ht =>
    obtain ⟨c, hc, hdigit⟩ := t.exists_digit_text
    exact ⟨_, rfl, isBlankText_of_isDigit hc hdigit⟩
  | boolean b =>
    refine ⟨boolText b, rfl, ?_⟩
    cases b <;> decide

theorem primitive?_encode (r : Registry) {p : Primitive} {v : Value} (h : p.Holds v)
    (inPlace : Bool) :
    ∃ node, encode r v inPlace = .ok node ∧ node ≠ .null ∧ primitive? p node = some v := by
  cases h with
  | string s => exact ⟨_, rfl, nofun, rfl⟩
  | long n =>
    refine ⟨_, rfl, nofun, ?_⟩
    simp [primitive?, Json.int, Json.int64?, JsonNumber.int64?, int64OfInt?_toInt]
  | integer n =>
    refine ⟨_, rfl, nofun, ?_⟩
    simp [primitive?, Json.int, Json.int64?, JsonNumber.int64?, int64OfInt?_toInt_int32,
      int32OfInt?_toInt]
  | @double x hx =>
    exact ⟨.number (.double x), by simp [encode, encodeDouble, hx], nofun, rfl⟩
  | @dateTime t ht =>
    refine ⟨_, rfl, nofun, ?_⟩
    simp [primitive?, instant?, Instant.ofText?_text ht]
  | boolean b => exact ⟨_, rfl, nofun, rfl⟩

theorem reference_eq_ok_iff {r : Registry} {x : Resource} {text : String} :
    reference r x = .ok text ↔ ∃ f key, r.primaryField? x.type = some f ∧
      keyText x.type f.name (x.get f.name) = .ok key ∧ referenceText x.type key = text := by
  unfold reference
  cases r.primaryField? x.type with
  | none => simp
  | some f => simp [map_eq_ok_iff]

/-! What a reference stands for. -/

inductive KeyRead (key : String) : FieldType → Value → Prop
  | primitive {p : Primitive} {v : Value} (h : keyOfText key p = .ok v) :
    KeyRead key (.primitive p) v
  | text {type : FieldType} (htype : ∀ p, type ≠ .primitive p) : KeyRead key type (.string key)

theorem keyRead_primitive_iff {key : String} {p : Primitive} {v : Value} :
    KeyRead key (.primitive p) v ↔ keyOfText key p = .ok v := by
  constructor
  · rintro (h | htype)
    · exact h
    · exact absurd rfl (htype p)
  · exact .primitive

theorem keyRead_named_iff {key name : String} {v : Value} :
    KeyRead key (.named name) v ↔ v = .string key := by
  constructor
  · rintro ⟨⟩
    rfl
  · rintro rfl
    exact .text nofun

theorem ofKey_eq_ok_iff {r : Registry} {key type : String} {x : Resource} :
    ofKey r key type = .ok x ↔ isBlankText key = false ∧
      ∃ d f v, r.type? type = some d ∧ d.constructible = true ∧ r.primaryField? type = some f ∧
        KeyRead key f.type v ∧ x = (Resource.empty type).set f.name v := by
  constructor
  · intro h
    unfold ofKey at h
    split at h
    · cases h
    rename_i hblank
    split at h
    · cases h
    rename_i d hd
    split at h
    · cases h
    rename_i hconstructible
    split at h
    · cases h
    rename_i f hf
    refine ⟨by simpa using hblank, d, f, ?_⟩
    split at h
    · rename_i p hp
      obtain ⟨v, hv, rfl⟩ := map_eq_ok_iff.1 h
      exact ⟨v, hd, by simpa using hconstructible, hf, hp ▸ .primitive hv, rfl⟩
    · rename_i hp
      exact ⟨_, hd, by simpa using hconstructible, hf, .text hp, (Except.ok.inj h).symm⟩
  · rintro ⟨hblank, d, f, v, hd, hconstructible, hf, hread, rfl⟩
    generalize htype : f.type = ft at hread
    cases hread with
    | primitive h => simp [ofKey, hblank, hd, hconstructible, hf, htype, h, Except.map]
    | text hp =>
      cases ft with
      | primitive p => exact absurd rfl (hp p)
      | _ => simp [ofKey, hblank, hd, hconstructible, hf, htype]

theorem ofReference_eq_none_iff {r : Registry} {text : String} :
    ofReference r text = .ok none ↔ splitReference? text = none := by
  unfold ofReference
  split
  · simp_all
  · split
    · simp_all
    · rename_i hsplit _
      simp [hsplit, map_eq_ok_iff]

theorem ofReference_eq_some_iff {r : Registry} {text : String} {x : Resource} :
    ofReference r text = .ok (some x) ↔
      ∃ type key, splitReference? text = some (type, key) ∧ ofKey r key type = .ok x := by
  unfold ofReference
  split
  · simp_all
  · rename_i type key hsplit
    have hunknown : (r.type? type).isNone = true → ofKey r key type ≠ .ok x := by
      intro hnone h
      obtain ⟨-, d, -, -, hd, -⟩ := ofKey_eq_ok_iff.1 h
      rw [hd] at hnone
      cases hnone
    split
    · rename_i hnone
      simpa [hsplit] using hunknown hnone
    · simp [hsplit, map_eq_ok_iff]

/-- Behind a reference to a type that can stand in front of the mark is an instance of that type. -/
theorem ofReference_referenceText_eq_some_iff {r : Registry} {type key : String} {x : Resource}
    (htype : type ≠ "") (hmark : '#' ∉ type.toList) :
    ofReference r (referenceText type key) = .ok (some x) ↔ ofKey r key type = .ok x := by
  rw [ofReference_eq_some_iff]
  constructor
  · rintro ⟨type', key', hsplit, h⟩
    rcases splitReference?_referenceText_eq_some hsplit with ⟨rfl, rfl⟩ | ⟨-, -, after, hafter⟩
    · exact h
    · have hmem : '#' ∈ type.toList := by simp [hafter]
      exact absurd hmem hmark
  · intro h
    have hne : key ≠ "" := by
      rintro rfl
      exact absurd (ofKey_eq_ok_iff.1 h).1 (by decide)
    exact ⟨type, key, splitReference?_referenceText hmark htype hne, h⟩

theorem ofReference_reference {r : Registry} {x : Resource} {d : TypeDecl} {f : Field}
    {p : Primitive} (hd : r.type? x.type = some d) (hconstructible : d.constructible = true)
    (htype : x.type ≠ "") (hmark : '#' ∉ x.type.toList) (hf : r.primaryField? x.type = some f)
    (hp : f.type = .primitive p) (hkey : p.Holds (x.get f.name))
    (hblank : ∀ s, x.get f.name = .string s → isBlankText s = false) :
    ∃ text, reference r x = .ok text ∧
      ofReference r text = .ok (some ((Resource.empty x.type).set f.name (x.get f.name))) := by
  obtain ⟨key, hkeyText, hkeyBlank⟩ := exists_keyText_of_holds hkey hblank x.type f.name
  have hread : KeyRead key f.type (x.get f.name) := by
    rw [hp]
    exact .primitive (keyOfText_of_keyText hkey hkeyText)
  refine ⟨_, reference_eq_ok_iff.2 ⟨f, key, hf, hkeyText, rfl⟩, ?_⟩
  apply (ofReference_referenceText_eq_some_iff htype hmark).2
  exact ofKey_eq_ok_iff.2 ⟨hkeyBlank, d, f, _, hd, hconstructible, hf, hread, rfl⟩

/-- A key text with the mark of references is the text of a string, and of no other key. -/
theorem eq_string_of_keyOfText {key : String} (hmark : '#' ∈ key.toList) {p : Primitive} {v : Value}
    (h : keyOfText key p = .ok v) : v = .string key := by
  have hint : intOfText? key.toList = none :=
    intOfText?_eq_none hmark (by decide) (by decide) (by decide)
  cases p with
  | string => exact (Except.ok.inj h).symm
  | long => simp [keyOfText, primitiveOfText?, hint] at h
  | integer => simp [keyOfText, primitiveOfText?, hint] at h
  | double => simp [keyOfText, primitiveOfText?, Binary64.ofText?_eq_none hmark] at h
  | boolean =>
    have htrue : key ≠ "true" := by
      rintro rfl
      exact absurd hmark (by decide)
    have hfalse : key ≠ "false" := by
      rintro rfl
      exact absurd hmark (by decide)
    simp [keyOfText, primitiveOfText?, htrue, hfalse] at h
  | dateTime =>
    simp [keyOfText, hint, readPrimitive, primitive?, instant?, Instant.ofText?_eq_none hmark] at h

/-! A reference, or an instance from a key text, fails for want of a key field only without one. -/

theorem keyText_ne_noKeyField (type field name : String) (v : Value) :
    keyText type field v ≠ .error (.noKeyField name) := by
  cases v <;> simp [keyText]

theorem reference_ne_noKeyField {r : Registry} {x : Resource} {f : Field}
    (hf : r.primaryField? x.type = some f) (name : String) :
    reference r x ≠ .error (.noKeyField name) := by
  have hkey := keyText_ne_noKeyField x.type f.name name (x.get f.name)
  rw [reference, hf]
  cases hv : keyText x.type f.name (x.get f.name) with
  | ok text => simp [hv, Except.map]
  | error e => simpa [hv, Except.map] using hkey

theorem keyOfText_ne_noKeyField (text name : String) (p : Primitive) :
    keyOfText text p ≠ .error (.noKeyField name) := by
  have hread (node : Json) (p : Primitive) : readPrimitive p node ≠ .error (.noKeyField name) := by
    unfold readPrimitive
    split <;> simp
  unfold keyOfText
  split
  · split
    · exact hread _ _
    · exact hread _ _
  · split <;> simp

theorem ofKey_ne_noKeyField {r : Registry} {type : String} {f : Field}
    (hf : r.primaryField? type = some f) (key name : String) :
    ofKey r key type ≠ .error (.noKeyField name) := by
  unfold ofKey
  split
  · simp
  · split
    · simp
    · split
      · simp
      · rw [hf]
        dsimp only
        split
        · rename_i p _
          have hkey := keyOfText_ne_noKeyField key name p
          cases hv : keyOfText key p with
          | ok v => simp [Except.map]
          | error e => simpa [hv, Except.map] using hkey
        · simp

end Wire

end LedgerSchema
