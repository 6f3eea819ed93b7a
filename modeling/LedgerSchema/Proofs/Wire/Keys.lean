import Mathlib
import LedgerSchema.Proofs.Document.Load
import LedgerSchema.Proofs.Schema.Extends
import LedgerSchema.Proofs.Wire.Stability

/-!
Keys behind references. The text of a key alone decides what comes back: a text that is blank is
refused, the text of an instant is read in years of four digits only, and a constant comes back as a
text.
-/

set_option autoImplicit false

namespace LedgerSchema

theorem Resource.eq_of_toValue_eq {x y : Resource} (h : x.toValue = y.toValue) : x = y := by
  obtain ⟨htype, hfields⟩ := Value.resource.inj h
  cases x
  cases y
  congr

theorem Resource.beq_set_empty_iff {type name : String} {v w : Value} (hv : v.isNull = false)
    (hw : w.isNull = false) :
    ((Resource.empty type).set name v == (Resource.empty type).set name w) = true ↔
      Value.beq v w = true := by
  change Value.beq (.resource type [(name, v)]) (.resource type [(name, w)]) = true ↔ _
  simp [Value.beq_resource_iff, presentFields, hv, hw]

theorem Primitive.IsTypeOf.isNull_eq_false {p : Primitive} {v : Value} (h : p.IsTypeOf v) :
    v.isNull = false := by
  cases h <;> rfl

/-- The keys of a primitive type: texts that are not blank, finite doubles, and whole milliseconds
of the years of four digits. -/
inductive Primitive.HasKey : Primitive → Value → Prop
  | string {s : String} (h : isBlankText s = false) : HasKey .string (.string s)
  | long (n : Int64) : HasKey .long (.long n)
  | integer (n : Int32) : HasKey .integer (.integer n)
  | double {x : Binary64} (h : x.isFinite = true) : HasKey .double (.double x)
  | boolean (b : Bool) : HasKey .boolean (.boolean b)
  | dateTime {t : Instant} (hyear : 0 ≤ t.date.year ∧ t.date.year ≤ 9999)
    (hnanos : t.nanos < 2000000000) (hmillis : t.nanos % 1000000 = 0) :
    HasKey .dateTime (.dateTime t)

theorem Primitive.HasKey.isTypeOf {p : Primitive} {v : Value} (h : p.HasKey v) :
    p.IsTypeOf v := by
  cases h <;> constructor

/-- The keys of a field type: those of a primitive type, or the constants of an enumeration. -/
inductive FieldType.HasKey (r : Registry) : FieldType → Value → Prop
  | primitive {p : Primitive} {v : Value} (h : p.HasKey v) : HasKey r (.primitive p) v
  | constant {name : String} {e : EnumDecl} (he : r.enum? name = some e) {c : String}
    (hc : c ∈ e.constants) : HasKey r (.named name) (.enum c)

theorem FieldType.HasKey.isNull_eq_false {r : Registry} {ft : FieldType} {v : Value}
    (h : ft.HasKey r v) : v.isNull = false := by
  cases h with
  | primitive h => exact h.isTypeOf.isNull_eq_false
  | constant _ _ => rfl

namespace Wire

variable {r : Registry}

/-- What the reference to an instance with the given key text is read as. -/
theorem ofJson_referenceText_eq_ok_iff {type key : String} {d : TypeDecl} {f : Field} {w : Value}
    (hd : r.type? type = some d) (hconstructible : d.constructible = true)
    (htype : type ≠ "") (hmark : '#' ∉ type.toList) (hf : r.primaryField? type = some f) :
    ofJson r (.string (referenceText type key)) (.named type) = .ok w ↔
      isBlankText key = false ∧ ∃ v, KeyRead key f.type v ∧
        w = ((Resource.empty type).set f.name v).toValue := by
  rw [ofJson, decode_string_eq_ok_iff hd]
  simp only [ofReference_referenceText_eq_some_iff htype hmark, ofKey_eq_ok_iff]
  constructor
  · rintro ⟨x, ⟨hblank, d', f', v, -, -, hf', hread, rfl⟩, rfl⟩
    obtain rfl := Option.some.inj (hf.symm.trans hf')
    exact ⟨hblank, v, hread, rfl⟩
  · rintro ⟨hblank, v, hread, rfl⟩
    exact ⟨_, ⟨hblank, d, f, v, hd, hconstructible, hf, hread, rfl⟩, rfl⟩

theorem KeyRead.isNull_eq_false {key : String} {ft : FieldType} {v : Value}
    (h : KeyRead key ft v) : v.isNull = false := by
  cases h with
  | primitive h => exact (isTypeOf_of_keyOfText h).isNull_eq_false
  | text => rfl

/-! Keys of primitive types. -/

theorem exists_keyText {p : Primitive} {v : Value} (hv : p.IsTypeOf v) (type field : String) :
    ∃ key, keyText type field v = .ok key := by
  cases hv <;> exact ⟨_, rfl⟩

theorem exists_keyText_of_hasKey {ft : FieldType} {v : Value} (hv : ft.HasKey r v)
    (type field : String) : ∃ key, keyText type field v = .ok key := by
  cases hv with
  | primitive h => exact exists_keyText h.isTypeOf type field
  | @constant _ _ _ c _ => exact ⟨c, rfl⟩

theorem isBlankText_doubleText (x : Binary64) : isBlankText (doubleText x) = false := by
  cases hx : x.isFinite with
  | true =>
    obtain ⟨c, hc, hdigit⟩ := Binary64.exists_digit_finiteText jsonDoubles hx
    rw [doubleText, if_pos hx]
    exact isBlankText_of_isDigit hc hdigit
  | false =>
    rw [doubleText, hx, if_neg Bool.false_ne_true, Binary64.specialText]
    cases x.isNaN <;> cases x.negative <;> decide

theorem isBlankText_of_keyText {p : Primitive} {v : Value} (hv : p.IsTypeOf v)
    {type field key : String} (hkey : keyText type field v = .ok key) :
    isBlankText key = false ↔ ∀ s, v = .string s → isBlankText s = false := by
  have hother (hne : ∀ s, v ≠ .string s) (hblank : isBlankText key = false) :
      isBlankText key = false ↔ ∀ s, v = .string s → isBlankText s = false :=
    iff_of_true hblank fun s hs => absurd hs (hne s)
  have hholds (hne : ∀ s, v ≠ .string s) (h : p.Holds v) : isBlankText key = false := by
    obtain ⟨key', hkey', hblank⟩ :=
      exists_keyText_of_holds h (fun s hs => absurd hs (hne s)) type field
    rwa [Except.ok.inj (hkey.symm.trans hkey')]
  cases hv with
  | string s =>
    obtain rfl := Except.ok.inj hkey
    simp
  | long n => exact hother nofun (hholds nofun (.long n))
  | integer n => exact hother nofun (hholds nofun (.integer n))
  | boolean b => exact hother nofun (hholds nofun (.boolean b))
  | double x =>
    obtain rfl := Except.ok.inj hkey
    exact hother nofun (isBlankText_doubleText x)
  | dateTime t =>
    obtain rfl := Except.ok.inj hkey
    obtain ⟨c, hc, hdigit⟩ := t.exists_digit_text
    exact hother nofun (isBlankText_of_isDigit hc hdigit)

theorem keyText_eq_empty_iff {p : Primitive} {v : Value} (hv : p.IsTypeOf v)
    {type field key : String} (hkey : keyText type field v = .ok key) :
    key = "" ↔ v = .string "" := by
  constructor
  · rintro rfl
    have hblank := (isBlankText_of_keyText hv hkey).not.1 (by decide)
    push Not at hblank
    obtain ⟨s, rfl, -⟩ := hblank
    rw [Except.ok.inj hkey]
  · rintro rfl
    exact (Except.ok.inj hkey).symm

/-- The text of a key is read as a value of its type, but for instants of some years. -/
theorem exists_keyOfText_iff {p : Primitive} {v : Value} (hv : p.IsTypeOf v)
    {type field key : String} (hkey : keyText type field v = .ok key) :
    (∃ w, keyOfText key p = .ok w) ↔ ∀ t, v = .dateTime t → t.Legible := by
  have hholds (h : p.Holds v) : ∃ w, keyOfText key p = .ok w := ⟨v, keyOfText_of_keyText h hkey⟩
  cases hv with
  | string s => simpa using hholds (.string s)
  | long n => simpa using hholds (.long n)
  | integer n => simpa using hholds (.integer n)
  | boolean b => simpa using hholds (.boolean b)
  | double x =>
    obtain rfl := Except.ok.inj hkey
    obtain ⟨y, hy, -⟩ := exists_double_of_text x
    simp [keyOfText, primitiveOfText?, hy]
  | dateTime t =>
    obtain rfl := Except.ok.inj hkey
    simp [keyOfText_text_eq_ok_iff]

/-- The reference to an instance of a loaded type with a key of primitive type is made of its type
and of the text of its key. It is read as an instance of that type unless the key is a blank text,
or an instant outside of the years of four digits; and only an empty text has an empty key text. -/
theorem ofJson_reference_iff {doc : Document} {loaded : Document.Loaded}
    (hload : doc.load = .ok loaded) {x : Resource} {d : TypeDecl} {f : Field} {p : Primitive}
    (hd : loaded.registry.type? x.type = some d) (hconstructible : d.constructible = true)
    (hf : loaded.registry.primaryField? x.type = some f) (hp : f.type = .primitive p)
    (hv : p.IsTypeOf (x.get f.name)) :
    ∃ key, keyText x.type f.name (x.get f.name) = .ok key ∧
      reference loaded.registry x = .ok (referenceText x.type key) ∧
      (key = "" ↔ x.get f.name = .string "") ∧
      ((∃ w, ofJson loaded.registry (.string (referenceText x.type key)) (.named x.type) = .ok w) ↔
        (∀ s, x.get f.name = .string s → isBlankText s = false) ∧
        ∀ t, x.get f.name = .dateTime t → t.Legible) := by
  have htype := Document.type_ne_empty_of_load hload hd
  have hmark : '#' ∉ x.type.toList := Document.not_mem_type_of_load hload hd (by decide) (by decide)
  obtain ⟨key, hkey⟩ := exists_keyText hv x.type f.name
  have hreads : (∃ v, KeyRead key f.type v) ↔ ∃ w, keyOfText key p = .ok w := by
    simp only [hp, keyRead_primitive_iff]
  have htext : reference loaded.registry x = .ok (referenceText x.type key) :=
    reference_eq_ok_iff.2 ⟨f, key, hf, hkey, rfl⟩
  refine ⟨key, hkey, htext, keyText_eq_empty_iff hv hkey, ?_⟩
  rw [← isBlankText_of_keyText hv hkey, ← exists_keyOfText_iff hv hkey, ← hreads]
  simp only [ofJson_referenceText_eq_ok_iff hd hconstructible htype hmark hf]
  constructor
  · rintro ⟨w, hblank, v, hread, -⟩
    exact ⟨hblank, v, hread⟩
  · rintro ⟨hblank, v, hread⟩
    exact ⟨_, hblank, v, hread, rfl⟩

theorem ofJson_reference_of_person : ∃ loaded key,
    Registry.garageDocument.load = .ok loaded ∧
    reference loaded.registry ⟨"org.acme.Person", [("id", .string "p1")]⟩ =
      .ok (referenceText "org.acme.Person" key) ∧
    key ≠ "" ∧ ∃ w, ofJson loaded.registry (.string (referenceText "org.acme.Person" key))
      (.named "org.acme.Person") = .ok w := by
  have hload : Registry.garageDocument.load =
      .ok ⟨Registry.garage, Registry.garageDocument.warnings⟩ :=
    Document.load_eq_ok_iff.2 ⟨by decide, rfl⟩
  obtain ⟨key, -, htext, hempty, hread⟩ := ofJson_reference_iff hload
    (x := ⟨"org.acme.Person", [("id", .string "p1")]⟩) (d := Registry.Garage.person) rfl rfl
    Registry.primaryField_person_garage rfl (.string "p1")
  refine ⟨_, key, hload, htext, hempty.not.2 ?_, hread.2 ⟨?_, nofun⟩⟩
  · change Value.string "p1" ≠ .string ""
    simp
  · rintro s ⟨⟩
    decide

/-! References that are written, but not read. -/

def WrittenUnread (r : Registry) (x : Resource) (text : String) : Prop :=
  (∃ d, r.type? x.type = some d ∧ d.constructible = true) ∧ reference r x = .ok text ∧
    ∀ w, ofJson r (.string text) (.named x.type) ≠ .ok w

theorem writtenUnread_of_key {x : Resource} {d : TypeDecl} {f : Field} {key : String}
    (hd : r.type? x.type = some d) (hconstructible : d.constructible = true)
    (htype : x.type ≠ "") (hmark : '#' ∉ x.type.toList) (hf : r.primaryField? x.type = some f)
    (hkey : keyText x.type f.name (x.get f.name) = .ok key)
    (hunread : isBlankText key = false → ∀ v, ¬ KeyRead key f.type v) :
    WrittenUnread r x (referenceText x.type key) := by
  refine ⟨⟨d, hd, hconstructible⟩, reference_eq_ok_iff.2 ⟨f, key, hf, hkey, rfl⟩, ?_⟩
  intro w hw
  rw [ofJson_referenceText_eq_ok_iff hd hconstructible htype hmark hf] at hw
  obtain ⟨hblank, v, hread, -⟩ := hw
  exact hunread hblank v hread

namespace Meter

def taken : Field := { Field.data "taken" (.primitive .dateTime) with primary := true }

def reading : TypeDecl where
  ns := "org.acme"
  name := "Reading"
  kind := some .participant
  fields := [taken]

def document : Document where
  types := [Registry.Garage.person, reading]

def late : Instant := ⟨253402300800, 0⟩

theorem writtenUnread_of_blank {key : String} (h : isBlankText key = true) :
    WrittenUnread document.toRegistry ⟨"org.acme.Person", [("id", .string key)]⟩
      (referenceText "org.acme.Person" key) := by
  have hkey : document.toRegistry.primaryField? "org.acme.Person" =
      some { Field.data "id" (.primitive .string) with primary := true } :=
    Registry.primaryField?_of_root (d := Registry.Garage.person) rfl rfl
  refine writtenUnread_of_key (d := Registry.Garage.person) rfl rfl ?_ ?_ hkey rfl ?_
  · change "org.acme.Person" ≠ ""
    decide
  · change '#' ∉ "org.acme.Person".toList
    decide
  · intro hblank
    exact absurd (h.symm.trans hblank) (by decide)

theorem writtenUnread_of_year {t : Instant} (h : 9999 < t.date.year) :
    WrittenUnread document.toRegistry ⟨"org.acme.Reading", [("taken", .dateTime t)]⟩
      (referenceText "org.acme.Reading" (.ofList t.text)) := by
  have hkey : document.toRegistry.primaryField? "org.acme.Reading" = some taken :=
    Registry.primaryField?_of_root (d := reading) rfl rfl
  refine writtenUnread_of_key (d := reading) rfl rfl ?_ ?_ hkey rfl ?_
  · change "org.acme.Reading" ≠ ""
    decide
  · change '#' ∉ "org.acme.Reading".toList
    decide
  · intro _ v hread
    change KeyRead _ (.primitive .dateTime) v at hread
    rw [keyRead_primitive_iff, keyOfText_text_eq_ok_iff] at hread
    exact absurd hread.1.year.2 (not_le.2 h)

end Meter

theorem reference_written_but_not_read : ∃ loaded, Meter.document.load = .ok loaded ∧
    WrittenUnread loaded.registry ⟨"org.acme.Person", [("id", .string "")]⟩
      "resource:org.acme.Person#" ∧
    WrittenUnread loaded.registry ⟨"org.acme.Person", [("id", .string " ")]⟩
      "resource:org.acme.Person# " ∧
    WrittenUnread loaded.registry ⟨"org.acme.Reading", [("taken", .dateTime Meter.late)]⟩
      "resource:org.acme.Reading#+10000-01-01T00:00:00.000Z" := by
  have htext : referenceText "org.acme.Reading" (.ofList Meter.late.text) =
      "resource:org.acme.Reading#+10000-01-01T00:00:00.000Z" := by decide
  refine ⟨_, Document.load_eq_ok_iff.2 ⟨by decide, rfl⟩, ?_, ?_, ?_⟩
  · exact @Meter.writtenUnread_of_blank "" (by decide)
  · exact @Meter.writtenUnread_of_blank " " (by decide)
  · rw [← htext]
    exact Meter.writtenUnread_of_year (by decide)

/-! Keys that come back. -/

/-- A key of a primitive type comes back from its text, unless it is a leap second that does not end
a minute. -/
theorem exists_keyOfText_beq_iff {p : Primitive} {v : Value} (hv : p.HasKey v)
    {type field key : String} (hkey : keyText type field v = .ok key) :
    (∃ w, keyOfText key p = .ok w ∧ Value.beq w v = true) ↔
      ∀ t, v = .dateTime t → 1000000000 ≤ t.nanos → t.seconds % 60 = 59 := by
  have hholds (h : p.Holds v) (hnan : v.nanFree = true) :
      ∃ w, keyOfText key p = .ok w ∧ Value.beq w v = true :=
    ⟨v, keyOfText_of_keyText h hkey, Value.beq_self hnan⟩
  cases hv with
  | @string s => simpa using hholds (.string s) rfl
  | long n => simpa using hholds (.long n) rfl
  | integer n => simpa using hholds (.integer n) rfl
  | double hx => simpa using hholds (.double hx) (nanFree_of_isFinite hx)
  | boolean b => simpa using hholds (.boolean b) rfl
  | @dateTime t hyear hnanos hmillis =>
    obtain rfl := Except.ok.inj hkey
    have hlegible : t.Legible := by
      refine ⟨hyear, ?_⟩
      unfold Instant.shownSecond
      omega
    simp [keyOfText_text_eq_ok_iff, hlegible, Value.beq, Instant.cut_eq_self_iff hnanos hmillis]

/-- A key comes back from its text, unless it is a constant, which comes back as a text, or such a
leap second. -/
theorem exists_keyRead_beq_iff {ft : FieldType} {v : Value} (hv : ft.HasKey r v)
    {type field key : String} (hkey : keyText type field v = .ok key) :
    (isBlankText key = false ∧ ∃ w, KeyRead key ft w ∧ Value.beq w v = true) ↔
      (∀ c, v ≠ .enum c) ∧ ∀ t, v = .dateTime t → 1000000000 ≤ t.nanos → t.seconds % 60 = 59 := by
  cases hv with
  | @primitive p _ hv =>
    have hblank : isBlankText key = false := by
      refine (isBlankText_of_keyText hv.isTypeOf hkey).2 fun s hs => ?_
      subst hs
      cases hv with
      | string h => exact h
    have hconstant (c : String) : v ≠ .enum c := by
      cases hv <;> nofun
    simp only [keyRead_primitive_iff, exists_keyOfText_beq_iff hv hkey]
    exact ⟨fun h => ⟨hconstant, h.2⟩, fun h => ⟨hblank, h.2⟩⟩
  | constant he hc => simp [keyRead_named_iff, Value.beq]

/-- The reference to an instance that has nothing but its key is written. It is read as an equal
instance unless the key is a constant or a leap second that does not end a minute; with a constant
it is read as one whose key is a text, if that is not blank. -/
theorem ofJson_reference_of_key {type : String} {d : TypeDecl} {f : Field} {v : Value}
    (hd : r.type? type = some d) (hconstructible : d.constructible = true) (htype : type ≠ "")
    (hmark : '#' ∉ type.toList) (hf : r.primaryField? type = some f) (hv : f.type.HasKey r v) :
    ∃ text, reference r ((Resource.empty type).set f.name v) = .ok text ∧
      ((∃ x : Resource, ofJson r (.string text) (.named type) = .ok x.toValue ∧
          (x == (Resource.empty type).set f.name v) = true) ↔
        (∀ c, v ≠ .enum c) ∧
          ∀ t, v = .dateTime t → 1000000000 ≤ t.nanos → t.seconds % 60 = 59) ∧
      ∀ c, v = .enum c → ∀ w, ofJson r (.string text) (.named type) = .ok w ↔
        isBlankText c = false ∧ w = ((Resource.empty type).set f.name (.string c)).toValue := by
  obtain ⟨key, hkey⟩ := exists_keyText_of_hasKey hv type f.name
  have hread {w : Value} := @ofJson_referenceText_eq_ok_iff r type key d f w hd hconstructible
    htype hmark hf
  refine ⟨referenceText type key, ?_, ?_, ?_⟩
  · apply reference_eq_ok_iff.2
    exact ⟨f, key, hf, by rwa [Resource.get_set_self], rfl⟩
  · rw [← exists_keyRead_beq_iff hv hkey]
    constructor
    · rintro ⟨x, hx, hbeq⟩
      obtain ⟨hblank, w, hw, heq⟩ := hread.1 hx
      obtain rfl := Resource.eq_of_toValue_eq heq
      exact ⟨hblank, w, hw, (Resource.beq_set_empty_iff hw.isNull_eq_false
        hv.isNull_eq_false).1 hbeq⟩
    · rintro ⟨hblank, w, hw, hbeq⟩
      refine ⟨(Resource.empty type).set f.name w, hread.2 ⟨hblank, w, hw, rfl⟩, ?_⟩
      exact (Resource.beq_set_empty_iff hw.isNull_eq_false hv.isNull_eq_false).2 hbeq
  · rintro c rfl w
    obtain rfl := Except.ok.inj hkey
    rw [hread]
    generalize f.type = ft at hv
    cases hv with
    | constant => simp [keyRead_named_iff]
    | primitive h => cases h

/-- The key may hold the mark of references and the end of a line, and it may be inherited. -/
theorem ofJson_reference_of_car : ∃ text,
    reference .garage ((Resource.empty "org.acme.Car").set "vin" (.string "v#1\n")) = .ok text ∧
    ∃ x : Resource, ofJson .garage (.string text) (.named "org.acme.Car") = .ok x.toValue ∧
      (x == (Resource.empty "org.acme.Car").set "vin" (.string "v#1\n")) = true := by
  have hkey : (FieldType.primitive .string).HasKey .garage (.string "v#1\n") :=
    .primitive (.string (by decide))
  obtain ⟨text, htext, hread, -⟩ := ofJson_reference_of_key (d := Registry.Garage.car) rfl rfl
    (by decide) (by decide) Registry.primaryField_car_garage hkey
  exact ⟨text, htext, hread.2 ⟨nofun, nofun⟩⟩

theorem constant_key_comes_back_as_text :
    lots.type? "org.acme.Badge" = some Lots.badge ∧ Lots.badge.constructible = true ∧
    lots.primaryField? "org.acme.Badge" =
      some { Field.data "colour" (.named "org.acme.Colour") with primary := true } ∧
    (FieldType.named "org.acme.Colour").HasKey lots (.enum "RED") ∧
    reference lots ⟨"org.acme.Badge", [("colour", .enum "RED")]⟩ =
      .ok "resource:org.acme.Badge#RED" ∧
    ofJson lots (.string "resource:org.acme.Badge#RED") (.named "org.acme.Badge") =
      .ok (Resource.mk "org.acme.Badge" [("colour", .string "RED")]).toValue ∧
    (Resource.mk "org.acme.Badge" [("colour", .string "RED")] ==
      ⟨"org.acme.Badge", [("colour", .enum "RED")]⟩) = false := by
  refine ⟨rfl, rfl, primaryField_badge_lots,
    .constant (e := ⟨"org.acme", "Colour", ["RED", "BLUE"]⟩) rfl (by decide), ?_,
    decode_string_of_type? (d := Lots.badge) rfl ofReference_lots.2, by decide⟩
  exact reference_eq_ok_iff.2 ⟨_, "RED", primaryField_badge_lots, rfl, rfl⟩

end Wire

end LedgerSchema
