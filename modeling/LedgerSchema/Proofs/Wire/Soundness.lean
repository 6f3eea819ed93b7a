import Mathlib
import LedgerSchema.Proofs.Schema.Reflection
import LedgerSchema.Proofs.Wire.Codec
import LedgerSchema.Proofs.Wire.Reference

/-!
What is read from a node fits the type that it was read as, at every depth. An object stands for an
instance of the declared class or of a descendant; a reference, for an instance of the class that it
names. The elements of a collection fit the declared element type if that is a primitive or an
enumeration.
-/

set_option autoImplicit false

namespace LedgerSchema

inductive Primitive.IsTypeOf : Primitive → Value → Prop
  | string (s : String) : IsTypeOf .string (.string s)
  | long (n : Int64) : IsTypeOf .long (.long n)
  | integer (n : Int32) : IsTypeOf .integer (.integer n)
  | double (x : Binary64) : IsTypeOf .double (.double x)
  | dateTime (t : Instant) : IsTypeOf .dateTime (.dateTime t)
  | boolean (b : Bool) : IsTypeOf .boolean (.boolean b)

namespace Wire

/-- The values that a key of the type may have. Only the primitive types limit them: what stands for
a key of another type is left open. -/
inductive KeyFits : FieldType → Value → Prop
  | primitive {p : Primitive} {v : Value} (h : p.IsTypeOf v) : KeyFits (.primitive p) v
  | other {type : FieldType} {v : Value} (htype : ∀ p, type ≠ .primitive p) : KeyFits type v

/-- The value that a node may be read as. -/
inductive Fits (r : Registry) : Target → Json → Value → Prop
  | null {t : Target} : Fits r t .null .null
  | primitive {p : Primitive} {element : Option FieldType} {node : Json} {v : Value}
    (h : p.IsTypeOf v) : Fits r (.typed (.primitive p) element) node v
  | constant {name : String} {element : Option FieldType} {node : Json} {e : EnumDecl} {c : String}
    (he : r.resolve name = .enum e) (hc : c ∈ e.constants) :
    Fits r (.typed (.named name) element) node (.enum c)
  | map {element : Option FieldType} {node : Json} {entries : List (String × Value)}
    (htexts : ∀ e ∈ entries, ∃ text, e.2 = .string text) :
    Fits r (.typed .map element) node (.map entries)
  | array {component : FieldType} {element : Option FieldType} {nodes : List Json}
    {items : List Value} (hlength : nodes.length = items.length)
    (h : ∀ e ∈ nodes.zip items, Fits r (.typed component none) e.1 e.2) :
    Fits r (.typed (.array component) element) (.array nodes) (.array items)
  | list {element : Option FieldType} {nodes : List Json} {items : List Value}
    (hlength : nodes.length = items.length)
    (h : ∀ e ∈ nodes.zip items, Fits r (elementTarget r element) e.1 e.2) :
    Fits r (.typed (.collection .list) element) (.array nodes) (.list items)
  | set {element : Option FieldType} {nodes : List Json} {items : List Value}
    (hlength : nodes.length = items.length)
    (h : ∀ e ∈ nodes.zip items, Fits r (elementTarget r element) e.1 e.2) :
    Fits r (.typed (.collection .set) element) (.array nodes) (.set (setOfList items))
  | boolean (b : Bool) : Fits r .untyped (.bool b) (.boolean b)
  | number (n : JsonNumber) : Fits r .untyped (.number n) (narrowest n)
  | string {s : String} (h : splitReference? s = none) : Fits r .untyped (.string s) (.string s)
  | object {t : Target} {object : List (String × Json)} {x : Resource} {d : TypeDecl}
    (ht : t.Admits r x.type)
    (htag : t = .untyped → ∃ tag, object.lookup typeMember = some tag ∧
      tag.string?.getD "" = x.type)
    (hd : r.type? x.type = some d) (hconstructible : d.constructible = true)
    (hnames : ∀ name, name ∈ x.fields.map Prod.fst ↔
      name ∈ (r.markedFields x.type).map (·.name))
    (hfields : ∀ f ∈ r.wireFields x.type, Fits r (.typed f.type f.element)
      ((object.lookup f.name).getD .null) (x.get f.name)) :
    Fits r t (.object object) x.toValue
  | reference {t : Target} {text type key : String} {d : TypeDecl} {f : Field} {v : Value}
    (ht : t = .untyped ∨ ∃ name element, t = .typed (.named name) element ∧
      ∀ e, r.resolve name ≠ .enum e)
    (htext : splitReference? text = some (type, key))
    (hd : r.type? type = some d) (hconstructible : d.constructible = true)
    (hf : r.primaryField? type = some f) (hkey : KeyFits f.type v) :
    Fits r t (.string text) ((Resource.empty type).set f.name v).toValue

variable {r : Registry}

theorem isTypeOf_of_primitive? {p : Primitive} {node : Json} {v : Value}
    (h : primitive? p node = some v) : p.IsTypeOf v := by
  cases p with
  | long =>
    obtain ⟨n, -, rfl⟩ := Option.map_eq_some_iff.1 h
    exact .long n
  | integer =>
    obtain ⟨n, -, rfl⟩ := Option.map_eq_some_iff.1 h
    exact .integer n
  | dateTime =>
    obtain ⟨t, -, rfl⟩ := Option.map_eq_some_iff.1 h
    exact .dateTime t
  | string =>
    cases node <;> cases h
    all_goals exact .string _
  | double =>
    cases node <;> cases h
    exact .double _
  | boolean =>
    cases node <;> cases h
    exact .boolean _

theorem isTypeOf_of_readPrimitive {p : Primitive} {node : Json} {v : Value}
    (h : readPrimitive p node = .ok v) : p.IsTypeOf v := by
  unfold readPrimitive at h
  split at h
  · rename_i w hw
    cases h
    exact isTypeOf_of_primitive? hw
  · cases h

theorem isTypeOf_of_keyOfText {p : Primitive} {text : String} {v : Value}
    (h : keyOfText text p = .ok v) : p.IsTypeOf v := by
  have hkey {p : Primitive} (h : primitiveOfText? text p = some v) : p.IsTypeOf v := by
    cases p with
    | string =>
      cases h
      exact .string text
    | long =>
      obtain ⟨n, -, rfl⟩ := Option.map_eq_some_iff.1 h
      exact .long n
    | integer =>
      obtain ⟨n, -, rfl⟩ := Option.map_eq_some_iff.1 h
      exact .integer n
    | double =>
      obtain ⟨x, -, rfl⟩ := Option.map_eq_some_iff.1 h
      exact .double x
    | boolean =>
      simp only [primitiveOfText?] at h
      split_ifs at h
      · cases h
        exact .boolean true
      · cases h
        exact .boolean false
    | dateTime => cases h
  unfold keyOfText at h
  split at h
  · split at h <;> exact isTypeOf_of_readPrimitive h
  · split at h
    · rename_i w hw
      cases h
      exact hkey hw
    · cases h

theorem KeyRead.keyFits {key : String} {ft : FieldType} {v : Value} (h : KeyRead key ft v) :
    KeyFits ft v := by
  cases h with
  | primitive h => exact .primitive (isTypeOf_of_keyOfText h)
  | text htype => exact .other htype

theorem fits_of_ofReference {t : Target} {text : String} {x : Resource}
    (ht : t = .untyped ∨ ∃ name element, t = .typed (.named name) element ∧
      ∀ e, r.resolve name ≠ .enum e)
    (h : ofReference r text = .ok (some x)) : Fits r t (.string text) x.toValue := by
  obtain ⟨type, key, htext, hkey⟩ := ofReference_eq_some_iff.1 h
  obtain ⟨-, d, f, v, hd, hconstructible, hf, hread, rfl⟩ := ofKey_eq_ok_iff.1 hkey
  exact .reference ht htext hd hconstructible hf hread.keyFits

theorem fits_of_readMap {element : Option FieldType} {node : Json} {v : Value}
    (h : readMap node = .ok v) : Fits r (.typed .map element) node v := by
  unfold readMap at h
  split at h
  · rename_i nodes
    obtain ⟨entries, hentries, rfl⟩ := map_eq_ok_iff.1 h
    refine .map fun e he => ?_
    have hmem : e ∈ entries := by
      rw [← (ascending_mapOfList entries).lookup_eq_some_iff, lookup_mapOfList] at he
      exact List.mem_reverse.1 (mem_of_lookup he)
    obtain ⟨node, -, hnode⟩ := exists_mem_left (mapM_eq_ok_iff.1 hentries) hmem
    obtain ⟨key, -, hnode⟩ := bind_eq_ok_iff.1 hnode
    obtain ⟨text, -, hnode⟩ := bind_eq_ok_iff.1 hnode
    cases hnode
    exact ⟨text, rfl⟩
  · cases h

theorem fits_of_readObject {t : Target} {type : String} {object : List (String × Json)} {v : Value}
    (ih : ∀ e ∈ object, ∀ t v, decode r e.2 t = .ok v → Fits r t e.2 v)
    (ht : ∀ d, r.type? type = some d → t.Admits r type)
    (htag : t = .untyped → ∃ tag, object.lookup typeMember = some tag ∧ tag.string?.getD "" = type)
    (h : readObject r type (decoders r object) = .ok v) : Fits r t (.object object) v := by
  obtain ⟨d, hd, hconstructible, fields, hfields, rfl⟩ := readObject_eq_ok_iff.1 h
  refine .object (x := ⟨type, mapOfList fields⟩) (ht d hd) htag hd hconstructible (fun name => ?_)
    fun f hf => ?_
  · rw [key_mem_iff_lookup]
    exact hfields.lookup_ne_none_iff
  · obtain ⟨w, hlookup, hw⟩ := hfields.exists_lookup hf
    rw [memberValue_decoders] at hw
    have hget : Resource.get ⟨type, mapOfList fields⟩ f.name = w := by
      simp [Resource.get, fieldValue, hlookup]
    rw [hget]
    cases hnode : object.lookup f.name with
    | none =>
      rw [hnode, Option.getD_none, decode_null] at hw
      cases hw
      exact .null
    | some n =>
      rw [hnode] at hw
      exact ih _ (mem_of_lookup hnode) _ _ hw

theorem fits_of_decodeItems {nodes : List Json}
    (ih : ∀ n ∈ nodes, ∀ t v, decode r n t = .ok v → Fits r t n v) {t : Target} {items : List Value}
    (h : decodeItems r nodes t = .ok items) :
    nodes.length = items.length ∧ ∀ e ∈ nodes.zip items, Fits r t e.1 e.2 := by
  rw [decodeItems_eq_ok_iff, List.forall₂_iff_zip] at h
  exact ⟨h.1, fun e he => ih e.1 (List.of_mem_zip he).1 t e.2 (h.2 he)⟩

/-- The class that an object is read as may stand for the declared one. -/
theorem isAssignable_objectType {declared : String} {object : List (String × Json)} {d : TypeDecl}
    (hd : r.type? (objectType r declared object) = some d) :
    r.isAssignable declared (objectType r declared object) = true := by
  have hcases : objectType r declared object = declared ∨
      r.isAssignable declared (objectType r declared object) = true := by
    unfold objectType
    split
    · split
      · exact .inr ‹_›
      · exact .inl rfl
    · exact .inl rfl
  rcases hcases with h | h
  · -- The declared class was kept; it is registered, so it may stand for itself.
    rw [h] at hd ⊢
    exact Registry.isAssignable_self hd
  · exact h

theorem objectType_of_tag {object : List (String × Json)} {tag : Json}
    (htag : object.lookup typeMember = some tag) :
    objectType r (tag.string?.getD "") object = tag.string?.getD "" := by
  rw [objectType, htag]
  cases tag with
  | string s => exact ite_self _
  | _ => rfl

theorem fits_of_readConstant {name : String} {element : Option FieldType} {node : Json} {v : Value}
    {e : EnumDecl} (he : r.resolve name = .enum e) (h : readConstant e name node = .ok v) :
    Fits r (.typed (.named name) element) node v := by
  unfold readConstant at h
  split at h
  · split at h
    · rename_i hc
      cases h
      exact .constant he (by simpa using hc)
    · cases h
  · cases h

section

variable {node : Json} {members : List (String × Decoder)} {v : Value}

theorem fits_of_readNamed {name : String} {element : Option FieldType}
    (hmembers : ∀ object, node = .object object → members = decoders r object ∧
      ∀ e ∈ object, ∀ t v, decode r e.2 t = .ok v → Fits r t e.2 v)
    (h : readNamed r name node members = .ok v) : Fits r (.typed (.named name) element) node v := by
  unfold readNamed at h
  split at h
  · rename_i e he
    exact fits_of_readConstant he h
  · rename_i hresolve
    split at h
    · obtain ⟨x?, hx, h⟩ := bind_eq_ok_iff.1 h
      cases x? with
      | none => cases h
      | some x =>
        cases h
        exact fits_of_ofReference (.inr ⟨name, element, rfl, hresolve⟩) hx
    · rename_i object
      obtain ⟨rfl, ih⟩ := hmembers object rfl
      exact fits_of_readObject ih (fun d hd => .named (isAssignable_objectType hd)) nofun h
    · cases h

theorem fits_of_readUntyped
    (hmembers : ∀ object, node = .object object → members = decoders r object ∧
      ∀ e ∈ object, ∀ t v, decode r e.2 t = .ok v → Fits r t e.2 v)
    (h : readUntyped r node members = .ok v) : Fits r .untyped node v := by
  unfold readUntyped at h
  split at h
  · cases h
    exact .null
  · cases h
    exact .boolean _
  · cases h
    exact .number _
  · rename_i text
    obtain ⟨x?, hx, rfl⟩ := map_eq_ok_iff.1 h
    cases x? with
    | none => exact .string (ofReference_eq_none_iff.1 hx)
    | some x => exact fits_of_ofReference (.inl rfl) hx
  · cases h
  · rename_i object
    obtain ⟨rfl, ih⟩ := hmembers object rfl
    split at h
    · cases h
    · rename_i tag htag
      dsimp only at h
      split at h
      · rename_i hresolve
        rw [readNamed, hresolve] at h
        dsimp only at h
        rw [objectType_of_tag htag] at h
        exact fits_of_readObject ih (fun _ _ => .untyped) (fun _ => ⟨tag, htag, rfl⟩) h
      · cases h

/-- What a node is read as fits, if what its items and its members are read as does. -/
theorem fits_of_read {t : Target} {items : Target → Except WireError (List Value)}
    (hitems : ∀ nodes, node = .array nodes → ∀ t vs, items t = .ok vs →
      nodes.length = vs.length ∧ ∀ e ∈ nodes.zip vs, Fits r t e.1 e.2)
    (hmembers : ∀ object, node = .object object → members = decoders r object ∧
      ∀ e ∈ object, ∀ t v, decode r e.2 t = .ok v → Fits r t e.2 v)
    (h : read r node items members t = .ok v) : Fits r t node v := by
  cases t with
  | untyped => exact fits_of_readUntyped hmembers h
  | typed type element =>
    simp only [read] at h
    split at h
    · cases h
      exact .null
    · exact .primitive (isTypeOf_of_readPrimitive h)
    · cases h
    · rename_i kind hkind
      obtain ⟨vs, hvs, rfl⟩ := map_eq_ok_iff.1 h
      obtain ⟨hlength, hfits⟩ := hitems _ rfl _ _ hvs
      cases kind with
      | list => exact .list hlength hfits
      | set => exact .set hlength hfits
      | other name => exact (hkind name rfl).elim
    · cases h
    · obtain ⟨vs, hvs, rfl⟩ := map_eq_ok_iff.1 h
      obtain ⟨hlength, hfits⟩ := hitems _ rfl _ _ hvs
      exact .array hlength hfits
    · cases h
    · exact fits_of_readMap h
    · exact fits_of_readNamed hmembers h

end

theorem fits_of_decode {node : Json} {t : Target} {v : Value} (h : decode r node t = .ok v) :
    Fits r t node v := by
  induction node using Json.induction generalizing t v with
  | array nodes ih =>
    rw [decode] at h
    refine fits_of_read (fun _ heq t vs hvs => ?_) nofun h
    cases heq
    exact fits_of_decodeItems (fun n hn t v => ih n hn) hvs
  | object object ih =>
    rw [decode] at h
    refine fits_of_read nofun (fun _ heq => ?_) h
    cases heq
    exact ⟨rfl, fun e he t v => ih e he⟩
  | _ =>
    change read r _ (fun _ => .ok []) [] t = .ok v at h
    exact fits_of_read nofun nofun h

/-- What is read as a declared type fits it. -/
theorem fits_of_ofJson {node : Json} {type : FieldType} {v : Value}
    (h : ofJson r node type = .ok v) : Fits r (.typed type none) node v := fits_of_decode h

theorem fits_of_ofJson_car : ∃ v,
    ofJson .garage (.object [("$class", .string "org.acme.Car"), ("vin", .string "v1")])
      (.named "org.acme.Vehicle") = .ok v ∧
    Fits .garage (.typed (.named "org.acme.Vehicle") none)
      (.object [("$class", .string "org.acme.Car"), ("vin", .string "v1")]) v := by
  have hwire : Registry.garage.wireFields "org.acme.Car" =
      Registry.Garage.car.fields ++ Registry.Garage.vehicle.fields := by
    rw [Registry.wireFields, Registry.markedFields_car_garage]
    decide
  obtain ⟨v, hv⟩ : ∃ v,
      ofJson .garage (.object [("$class", .string "org.acme.Car"), ("vin", .string "v1")])
        (.named "org.acme.Vehicle") = .ok v := by
    obtain ⟨fields, hfields⟩ : ∃ fields, Members .garage "org.acme.Car" (fun f w => memberValue
        (decoders .garage [("$class", .string "org.acme.Car"), ("vin", .string "v1")]) f = .ok w)
        fields := by
      rw [exists_members_iff, hwire]
      simp only [Registry.Garage.car, Registry.Garage.vehicle, List.cons_append, List.nil_append,
        List.forall_mem_cons]
      exact ⟨⟨.null, rfl⟩, ⟨.null, rfl⟩, ⟨.null, rfl⟩, ⟨.string "v1", rfl⟩, List.forall_mem_nil _⟩
    have hobject := readObject_eq_ok_iff.2 ⟨Registry.Garage.car, rfl, rfl, fields, hfields, rfl⟩
    exact ⟨_, (decode_object_of_admits (.named Registry.isAssignable_car_garage) rfl rfl).trans
      hobject⟩
  exact ⟨v, hv, fits_of_ofJson hv⟩

/-! Where what is read is no value of the declared type: a reference to another class, an element of
a collection of resources, and a key whose type is an enumeration. -/

namespace Lots

def lot : TypeDecl where
  ns := "org.acme"
  name := "Lot"
  kind := some .concept
  fields := [{ Field.data "cars" (.collection .list) with element := some (.named "org.acme.Car") }]

def badge : TypeDecl where
  ns := "org.acme"
  name := "Badge"
  kind := some .participant
  fields := [{ Field.data "colour" (.named "org.acme.Colour") with primary := true }]

end Lots

def lots : Registry := (Registry.garage.register Lots.lot).register Lots.badge

theorem primaryField_badge_lots : lots.primaryField? "org.acme.Badge" =
    some { Field.data "colour" (.named "org.acme.Colour") with primary := true } :=
  Registry.primaryField?_of_root (d := Lots.badge) rfl rfl

theorem ofReference_lots :
    ofReference lots "resource:org.acme.Person#p1" =
      .ok (some ⟨"org.acme.Person", [("id", .string "p1")]⟩) ∧
    ofReference lots "resource:org.acme.Badge#RED" =
      .ok (some ⟨"org.acme.Badge", [("colour", .string "RED")]⟩) := by
  have hpersonText : splitReference? "resource:org.acme.Person#p1" =
      some ("org.acme.Person", "p1") := by decide
  have hbadgeText : splitReference? "resource:org.acme.Badge#RED" =
      some ("org.acme.Badge", "RED") := by decide
  have hperson : lots.type? "org.acme.Person" = some Registry.Garage.person := rfl
  have hbadge : lots.type? "org.acme.Badge" = some Lots.badge := rfl
  have hpersonKey : lots.primaryField? "org.acme.Person" =
      some { Field.data "id" (.primitive .string) with primary := true } :=
    Registry.primaryField?_of_root hperson rfl
  constructor
  · rw [ofReference, hpersonText]
    simp only [hperson, ofKey, hpersonKey]
    rfl
  · rw [ofReference, hbadgeText]
    simp only [hbadge, ofKey, primaryField_badge_lots]
    rfl

theorem ofJson_of_other_type :
    (∃ x : Resource, ofJson lots (.string "resource:org.acme.Person#p1") (.named "org.acme.Car") =
      .ok x.toValue ∧ lots.isAssignable "org.acme.Car" x.type = false) ∧
    (∃ x : Resource, ofJson lots (.object [("cars", .array [.int 1])]) (.named "org.acme.Lot") =
      .ok x.toValue ∧ x.get "cars" = .list [.integer 1]) ∧
    ∃ x : Resource, ofJson lots (.string "resource:org.acme.Badge#RED") (.named "org.acme.Badge") =
      .ok x.toValue ∧ x.get "colour" = .string "RED" := by
  refine ⟨⟨_, decode_string_of_type? (d := Registry.Garage.car) rfl ofReference_lots.1, ?_⟩,
    ⟨⟨"org.acme.Lot", [("cars", .list [.integer 1])]⟩, ?_, rfl⟩,
    ⟨_, decode_string_of_type? (d := Lots.badge) rfl ofReference_lots.2, rfl⟩⟩
  · rw [Registry.isAssignable,
      Registry.ancestors_of_root (d := Registry.Garage.person) rfl rfl]
    decide
  · have hwire : lots.wireFields "org.acme.Lot" = Lots.lot.fields := by
      rw [Registry.wireFields, Registry.markedFields_of_root (d := Lots.lot) rfl rfl]
      decide
    change readObject lots "org.acme.Lot" (decoders lots [("cars", .array [.int 1])]) = _
    refine readObject_eq_ok_iff.2 ⟨Lots.lot, rfl, rfl, [("cars", .list [.integer 1])], ?_, rfl⟩
    rw [Members, hwire]
    exact .cons ⟨rfl, rfl⟩ .nil

end Wire

end LedgerSchema
