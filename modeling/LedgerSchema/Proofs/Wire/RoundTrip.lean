import Mathlib
import LedgerSchema.Proofs.Instant.Range
import LedgerSchema.Proofs.Schema.Reflection
import LedgerSchema.Proofs.Value.Set
import LedgerSchema.Proofs.Wire.Codec
import LedgerSchema.Proofs.Wire.Reference

/-!
Well-typed instances are read back from their nodes: what comes back agrees with the instance in all
but its null fields.
-/

set_option autoImplicit false

namespace LedgerSchema

namespace Wire

/-- The well-typed values of a target, where resources in them are written in place or by reference.
The fields of a resource in place are those of its type, the nearest of each name; a resource that
is written as a reference has nothing but its key. What has no declared type shows on the wire what
it is. -/
inductive WellTyped (r : Registry) : Bool → Target → Value → Prop
  | null {inPlace : Bool} {t : Target} : WellTyped r inPlace t .null
  | primitive {inPlace : Bool} {p : Primitive} {element : Option FieldType} {v : Value}
    (h : p.Holds v) : WellTyped r inPlace (.typed (.primitive p) element) v
  | constant {inPlace : Bool} {name : String} {element : Option FieldType} {e : EnumDecl}
    {c : String} (he : r.resolve name = .enum e) (hc : c ∈ e.constants) :
    WellTyped r inPlace (.typed (.named name) element) (.enum c)
  | map {inPlace : Bool} {element : Option FieldType} {entries : List (String × Value)}
    (hkeys : Ascending entries) (htexts : ∀ e ∈ entries, ∃ text, e.2 = .string text) :
    WellTyped r inPlace (.typed .map element) (.map entries)
  | array {inPlace : Bool} {component : FieldType} {element : Option FieldType} {items : List Value}
    (h : ∀ v ∈ items, WellTyped r inPlace (.typed component none) v) :
    WellTyped r inPlace (.typed (.array component) element) (.array items)
  | list {inPlace : Bool} {element : Option FieldType} {items : List Value}
    (h : ∀ v ∈ items, WellTyped r inPlace (elementTarget r element) v) :
    WellTyped r inPlace (.typed (.collection .list) element) (.list items)
  | set {inPlace : Bool} {element : Option FieldType} {items : List Value}
    (hdistinct : Value.Distinct items)
    (h : ∀ v ∈ items, WellTyped r inPlace (elementTarget r element) v) :
    WellTyped r inPlace (.typed (.collection .set) element) (.set items)
  | boolean {inPlace : Bool} (b : Bool) : WellTyped r inPlace .untyped (.boolean b)
  | integer {inPlace : Bool} (n : Int32) : WellTyped r inPlace .untyped (.integer n)
  | long {inPlace : Bool} {n : Int64} (h : int32OfInt? n.toInt = none) :
    WellTyped r inPlace .untyped (.long n)
  | double {inPlace : Bool} {x : Binary64} (h : x.isFinite = true) :
    WellTyped r inPlace .untyped (.double x)
  | string {inPlace : Bool} {s : String} (h : splitReference? s = none) :
    WellTyped r inPlace .untyped (.string s)
  | object {inPlace : Bool} {t : Target} {x : Resource} {d : TypeDecl} {k : Kind}
    (ht : t.Admits r x.type) (hd : r.type? x.type = some d) (hk : d.kind = some k)
    (hplace : inPlace = true ∨ k.alwaysEmbedded = true) (hconstructible : d.constructible = true)
    (htag : typeMember ∉ (r.markedFields x.type).map (·.name)) (hkeys : Ascending x.fields)
    (hmarked : ∀ e ∈ x.fields, e.2 ≠ .null → e.1 ∈ (r.markedFields x.type).map (·.name))
    (hfields : ∀ f ∈ r.wireFields x.type,
      WellTyped r f.isEmbedded (.typed f.type f.element) (x.get f.name)) :
    WellTyped r inPlace t x.toValue
  | reference {t : Target} {x : Resource} {d : TypeDecl} {k : Kind} {f : Field} {p : Primitive}
    (ht : t.Admits r x.type) (hd : r.type? x.type = some d) (hk : d.kind = some k)
    (hplace : k.alwaysEmbedded = false) (hconstructible : d.constructible = true)
    (htype : x.type ≠ "") (hmark : '#' ∉ x.type.toList) (hf : r.primaryField? x.type = some f)
    (hp : f.type = .primitive p) (hkey : p.Holds (x.get f.name))
    (hblank : ∀ s, x.get f.name = .string s → isBlankText s = false)
    (hkeys : Ascending x.fields) (honly : ∀ e ∈ x.fields, e.2 ≠ .null → e.1 = f.name) :
    WellTyped r false t x.toValue

variable {r : Registry} {inPlace : Bool} {t : Target}

/-- The value has a node, and the node a value that agrees with it in all but null fields. -/
def ReadsBack (r : Registry) (inPlace : Bool) (t : Target) (v : Value) : Prop :=
  ∃ node w, encode r v inPlace = .ok node ∧ decode r node t = .ok w ∧ w.compact = v.compact

theorem readsBack_items {items : List Value} (h : ∀ v ∈ items, ReadsBack r inPlace t v) :
    ∃ nodes ws, encodeItems r items inPlace = .ok nodes ∧ decodeItems r nodes t = .ok ws ∧
      ws.map Value.compact = items.map Value.compact := by
  induction items with
  | nil => exact ⟨[], [], rfl, rfl, rfl⟩
  | cons v items ih =>
    rw [List.forall_mem_cons] at h
    obtain ⟨node, w, hnode, hw, hvw⟩ := h.1
    obtain ⟨nodes, ws, hnodes, hws, hitems⟩ := ih h.2
    refine ⟨node :: nodes, w :: ws, ?_, ?_, by rw [List.map_cons, List.map_cons, hvw, hitems]⟩
    · rw [encodeItems_eq_ok_iff] at hnodes ⊢
      exact .cons hnode hnodes
    · rw [decodeItems_eq_ok_iff] at hws ⊢
      exact .cons hw hws

theorem readEntry_entryNode (key text : String) :
    readEntry (entryNode key text) = .ok (key, .string text) := by
  have hkey : entryText "key" (entryNode key text) = .ok key := by
    simp [entryText, entryNode, Json.member?, lookup_mapOfList, typeMember, List.lookup]
  have htext : entryText "value" (entryNode key text) = .ok text := by
    simp [entryText, entryNode, Json.member?, lookup_mapOfList, typeMember, List.lookup]
  simp only [readEntry, hkey, htext]
  rfl

theorem exists_node_of_map {element : Option FieldType} {entries : List (String × Value)}
    (hkeys : Ascending entries) (htexts : ∀ e ∈ entries, ∃ text, e.2 = .string text) :
    ∃ node, encode r (.map entries) inPlace = .ok node ∧
      decode r node (.typed .map element) = .ok (.map entries) := by
  obtain ⟨nodes, hnodes, hread⟩ : ∃ nodes,
      entries.mapM (fun e => encodeEntry e.1 e.2) = .ok nodes ∧
        nodes.mapM readEntry = .ok entries := by
    clear hkeys
    induction entries with
    | nil => exact ⟨[], rfl, rfl⟩
    | cons e entries ih =>
      rw [List.forall_mem_cons] at htexts
      obtain ⟨⟨text, htext⟩, hrest⟩ := htexts
      obtain ⟨nodes, hnodes, hread⟩ := ih hrest
      refine ⟨entryNode e.1 text :: nodes, ?_, ?_⟩
      · rw [mapM_eq_ok_iff] at hnodes ⊢
        exact .cons (by rw [htext]; rfl) hnodes
      · rw [mapM_eq_ok_iff] at hread ⊢
        exact .cons (by rw [readEntry_entryNode, ← htext]) hread
  refine ⟨.array nodes, ?_, ?_⟩
  · simp [encode, hnodes, Except.map]
  · change readMap (.array nodes) = _
    simp [readMap, hread, Except.map, hkeys.mapOfList]

theorem readsBack_map {element : Option FieldType} {entries : List (String × Value)}
    (hkeys : Ascending entries) (htexts : ∀ e ∈ entries, ∃ text, e.2 = .string text) :
    ReadsBack r inPlace (.typed .map element) (.map entries) := by
  obtain ⟨node, hnode, hread⟩ := exists_node_of_map hkeys htexts
  exact ⟨node, _, hnode, hread, rfl⟩

/-- Fields that agree with those of an instance, name by name, but for null fields. -/
theorem compactFields_members {x : Resource} (hkeys : Ascending x.fields)
    (hmarked : ∀ e ∈ x.fields, e.2 ≠ .null → e.1 ∈ (r.markedFields x.type).map (·.name))
    {fields : List (String × Value)}
    (h : Members r x.type (fun f w => w.compact = (x.get f.name).compact) fields) :
    Value.compactFields (mapOfList fields) = Value.compactFields x.fields := by
  refine Value.compactFields_congr (ascending_mapOfList fields) hkeys fun name => ?_
  by_cases hname : name ∈ (r.markedFields x.type).map (·.name)
  · obtain ⟨f, hf, rfl⟩ := List.mem_map.1 (mem_names_firstOfEachName.2 hname)
    obtain ⟨w, hlookup, hcompact⟩ := h.exists_lookup hf
    rw [fieldValue, hlookup]
    exact hcompact
  · have hx : fieldValue x.fields name = .null :=
      Value.fieldValue_eq_null fun e he hne heq => hname (heq ▸ hmarked e he hne)
    rw [hx, fieldValue, not_ne_iff.1 (h.lookup_ne_none_iff.not.2 hname)]
    rfl

theorem readsBack_object {x : Resource} {d : TypeDecl} {k : Kind} (ht : t.Admits r x.type)
    (hd : r.type? x.type = some d) (hk : d.kind = some k)
    (hplace : inPlace = true ∨ k.alwaysEmbedded = true) (hconstructible : d.constructible = true)
    (htag : typeMember ∉ (r.markedFields x.type).map (·.name)) (hkeys : Ascending x.fields)
    (hmarked : ∀ e ∈ x.fields, e.2 ≠ .null → e.1 ∈ (r.markedFields x.type).map (·.name))
    (hfields : ∀ f ∈ r.wireFields x.type,
      ReadsBack r f.isEmbedded (.typed f.type f.element) (x.get f.name)) :
    ReadsBack r inPlace t x.toValue := by
  obtain ⟨object, hencode, htype, hnodes⟩ := exists_encode_object hd hk hplace htag fun f hf => by
    obtain ⟨node, -, hnode, -⟩ := hfields f hf
    exact ⟨node, hnode⟩
  obtain ⟨fields, hmembers⟩ : ∃ fields, Members r x.type (fun f w =>
      memberValue (decoders r object) f = .ok w ∧ w.compact = (x.get f.name).compact) fields := by
    refine exists_members_iff.2 fun f hf => ?_
    obtain ⟨node, w, hnode, hw, hcompact⟩ := hfields f hf
    -- The object has the one node that the value of the field is written as.
    obtain ⟨node', hlookup, hnode'⟩ := hnodes f hf
    obtain rfl : node' = node := Except.ok.inj (hnode'.symm.trans hnode)
    refine ⟨w, ?_, hcompact⟩
    rw [memberValue_decoders, hlookup]
    exact hw
  refine ⟨.object object, .resource x.type (mapOfList fields), hencode, ?_, ?_⟩
  · rw [decode_object_of_admits ht hd htype]
    exact readObject_eq_ok_iff.2 ⟨d, hd, hconstructible, fields,
      hmembers.imp fun f e h => ⟨h.1, h.2.1⟩, rfl⟩
  · exact congrArg (Value.resource x.type) (compactFields_members hkeys hmarked
      (hmembers.imp fun f e h => ⟨h.1, h.2.2⟩))

theorem readsBack_reference {x : Resource} {d : TypeDecl} {k : Kind} {f : Field} {p : Primitive}
    (ht : t.Admits r x.type) (hd : r.type? x.type = some d) (hk : d.kind = some k)
    (hplace : k.alwaysEmbedded = false) (hconstructible : d.constructible = true)
    (htype : x.type ≠ "") (hmark : '#' ∉ x.type.toList) (hf : r.primaryField? x.type = some f)
    (hp : f.type = .primitive p) (hkey : p.Holds (x.get f.name))
    (hblank : ∀ s, x.get f.name = .string s → isBlankText s = false)
    (hkeys : Ascending x.fields) (honly : ∀ e ∈ x.fields, e.2 ≠ .null → e.1 = f.name) :
    ReadsBack r false t x.toValue := by
  obtain ⟨text, htext, hread⟩ :=
    ofReference_reference hd hconstructible htype hmark hf hp hkey hblank
  refine ⟨.string text, _, ?_, decode_string_of_admits ht hread, ?_⟩
  · rw [encode_toValue hd hk, hplace]
    simp [htext, Except.map]
  · refine congrArg (Value.resource x.type) (Value.compactFields_congr (Ascending.nil.insertKey _ _)
      hkeys fun name => congrArg Value.compact ?_)
    change Resource.get _ name = x.get name
    by_cases hname : name = f.name
    · rw [hname, Resource.get_set_self]
    · rw [Resource.get_set_ne _ hname, Resource.get, Resource.get,
        Value.fieldValue_eq_null fun e he hne heq => hname (heq.symm.trans (honly e he hne))]
      rfl

theorem WellTyped.readsBack {v : Value} (h : WellTyped r inPlace t v) :
    ReadsBack r inPlace t v := by
  induction h with
  | null => exact ⟨.null, .null, rfl, decode_null _, rfl⟩
  | @primitive inPlace p element v h =>
    obtain ⟨node, hnode, hne, hread⟩ := primitive?_encode r h inPlace
    refine ⟨node, v, hnode, ?_, rfl⟩
    simp [decode_primitive hne, readPrimitive, hread]
  | @constant inPlace name element e c he hc =>
    refine ⟨.string c, .enum c, rfl, ?_, rfl⟩
    change readNamed r name (.string c) [] = _
    simp [readNamed, he, readConstant, hc]
  | map hkeys htexts => exact readsBack_map hkeys htexts
  | array _ ih =>
    obtain ⟨nodes, ws, hnodes, hws, hitems⟩ := readsBack_items ih
    refine ⟨.array nodes, .array ws, ?_, ?_, ?_⟩
    · rw [encode, hnodes]
      rfl
    · change (decodeItems r nodes _).map Value.array = _
      rw [hws]
      rfl
    · rw [Value.compact, Value.compact, Value.compactItems_eq, Value.compactItems_eq, hitems]
  | @list inPlace element items _ ih =>
    obtain ⟨nodes, ws, hnodes, hws, hitems⟩ := readsBack_items ih
    refine ⟨.array nodes, .list ws, ?_, ?_, ?_⟩
    · rw [encode, hnodes]
      rfl
    · change (decodeItems r nodes (elementTarget r element)).map (collect .list) = _
      rw [hws]
      rfl
    · rw [Value.compact, Value.compact, Value.compactItems_eq, Value.compactItems_eq, hitems]
  | @set inPlace element items hdistinct _ ih =>
    obtain ⟨nodes, ws, hnodes, hws, hitems⟩ := readsBack_items ih
    refine ⟨.array nodes, .set ws, ?_, ?_, ?_⟩
    · rw [encode, hnodes]
      rfl
    · -- What is read agrees with distinct items but for null fields, so no item is dropped.
      change (decodeItems r nodes (elementTarget r element)).map (collect .set) = _
      rw [hws, Except.map, collect,
        Value.setOfList_of_distinct ((Value.distinct_iff_of_compact_eq hitems).2 hdistinct)]
    · rw [Value.compact, Value.compact, Value.compactItems_eq, Value.compactItems_eq, hitems]
  | boolean b => exact ⟨.bool b, .boolean b, rfl, rfl, rfl⟩
  | integer n =>
    refine ⟨.int n.toInt, .integer n, rfl, ?_, rfl⟩
    change Except.ok (narrowest (.int n.toInt)) = _
    simp [narrowest, JsonNumber.int64?, int64OfInt?_toInt_int32, int32OfInt?_toInt]
  | @long inPlace n h =>
    refine ⟨.int n.toInt, .long n, rfl, ?_, rfl⟩
    change Except.ok (narrowest (.int n.toInt)) = _
    simp [narrowest, JsonNumber.int64?, int64OfInt?_toInt, h]
  | @double inPlace x h =>
    exact ⟨.number (.double x), .double x, by simp [encode, encodeDouble, h], rfl, rfl⟩
  | @string inPlace s h =>
    refine ⟨.string s, .string s, rfl, ?_, rfl⟩
    change readUntyped r (.string s) [] = _
    simp [readUntyped, ofReference, h, Except.map]
  | object ht hd hk hplace hconstructible htag hkeys hmarked _ ih =>
    exact readsBack_object ht hd hk hplace hconstructible htag hkeys hmarked ih
  | reference ht hd hk hplace hconstructible htype hmark hf hp hkey hblank hkeys honly =>
    exact readsBack_reference ht hd hk hplace hconstructible htype hmark hf hp hkey hblank hkeys
      honly

theorem nanFree_of_isFinite {x : Binary64} (h : x.isFinite = true) :
    (Value.double x).nanFree = true := by
  simp only [Binary64.isFinite, decide_eq_true_eq] at h
  simpa [Value.nanFree, Binary64.isNaN] using h.le

theorem nanFree_of_get {x : Resource} (hkeys : Ascending x.fields)
    (h : ∀ e ∈ x.fields, e.2 ≠ .null → (x.get e.1).nanFree = true) : x.toValue.nanFree = true := by
  rw [Resource.toValue, Value.nanFree, Value.nanFreeEntries_iff]
  intro e he
  by_cases hnull : e.2 = .null
  · rw [hnull]
    rfl
  · have hget := h e he hnull
    rwa [Resource.get, fieldValue, hkeys.lookup_eq_some_iff.2 he] at hget

/-- Doubles that are written are numbers, so well-typed values are equal to themselves. -/
theorem WellTyped.nanFree {v : Value} (h : WellTyped r inPlace t v) : v.nanFree = true := by
  have hprimitive {p : Primitive} {v : Value} (h : p.Holds v) : v.nanFree = true := by
    cases h with
    | double h => exact nanFree_of_isFinite h
    | _ => rfl
  induction h with
  | primitive h => exact hprimitive h
  | double h => exact nanFree_of_isFinite h
  | map _ htexts =>
    rw [Value.nanFree, Value.nanFreeEntries_iff]
    intro e he
    obtain ⟨text, htext⟩ := htexts e he
    rw [htext]
    rfl
  | array _ ih | list _ ih | set _ _ ih =>
    rw [Value.nanFree, Value.nanFreeItems_iff]
    exact ih
  | object _ _ _ _ _ _ hkeys hmarked _ ih =>
    refine nanFree_of_get hkeys fun e he hnull => ?_
    obtain ⟨f, hf, hname⟩ := List.mem_map.1 (mem_names_firstOfEachName.2 (hmarked e he hnull))
    rw [← hname]
    exact ih f hf
  | reference _ _ _ _ _ _ _ _ _ hkey _ hkeys honly =>
    refine nanFree_of_get hkeys fun e he hnull => ?_
    rw [honly e he hnull]
    exact hprimitive hkey
  | _ => rfl

/-- A well-typed resource is one wherever it may stand. -/
theorem WellTyped.retarget {x : Resource} (h : WellTyped r inPlace .untyped x.toValue)
    (ht : t.Admits r x.type) : WellTyped r inPlace t x.toValue := by
  have hinj {y : Resource} (h : x.toValue = y.toValue) : x = y := by
    obtain ⟨htype, hfields⟩ := Value.resource.inj h
    cases x
    cases y
    simp_all
  generalize hv : x.toValue = v at h
  cases h with
  | object _ hd hk hplace hconstructible htag hkeys hmarked hfields =>
    obtain rfl := hinj hv
    exact .object ht hd hk hplace hconstructible htag hkeys hmarked hfields
  | reference _ hd hk hplace hconstructible htype hmark hf hp hkey hblank hkeys honly =>
    obtain rfl := hinj hv
    exact .reference ht hd hk hplace hconstructible htype hmark hf hp hkey hblank hkeys honly
  | _ => cases hv

/-- A well-typed instance is written, and read back equal as any class that it may stand for. -/
theorem ofJson_toJson {name : String} {x : Resource} (hname : r.isAssignable name x.type = true)
    (hx : WellTyped r true .untyped x.toValue) :
    ∃ node y, toJson r x.toValue = .ok node ∧
      ofJson r node (.named name) = .ok (Resource.toValue y) ∧ (y == x) = true := by
  obtain ⟨node, w, hnode, hw, hcompact⟩ := (hx.retarget (.named hname)).readsBack
  obtain ⟨y, rfl⟩ : ∃ y : Resource, w = y.toValue := by
    cases w with
    | resource type fields => exact ⟨⟨type, fields⟩, rfl⟩
    | _ => cases hcompact
  exact ⟨node, y, hnode, hw, Value.beq_of_compact_eq hcompact hx.nanFree⟩

def redCar : Resource where
  type := "org.acme.Car"
  fields := [("colour", .enum "RED"), ("notes", .map [("tyres", .string "worn")]),
    ("owner", .resource "org.acme.Person" [("id", .string "p1")]), ("vin", .string "v1")]

theorem markedFields_redCar : Registry.garage.markedFields redCar.type =
    Registry.Garage.car.fields ++ Registry.Garage.vehicle.fields :=
  Registry.markedFields_car_garage

theorem wireFields_redCar : Registry.garage.wireFields redCar.type =
    [.data "notes" .map, .data "colour" (.named "org.acme.Colour"), Registry.Garage.owner,
      { Field.data "vin" (.primitive .string) with primary := true }] := by
  rw [Registry.wireFields, markedFields_redCar]
  decide

theorem wellTyped_redCar : WellTyped Registry.garage true .untyped redCar.toValue := by
  have howner : WellTyped Registry.garage false (.typed Registry.Garage.owner.type none)
      (Resource.mk "org.acme.Person" [("id", .string "p1")]).toValue := by
    refine .reference (d := Registry.Garage.person) (k := .participant) (p := .string)
      (.named (Registry.isAssignable_self (d := Registry.Garage.person) rfl)) rfl rfl rfl rfl
      (by decide) (by decide) Registry.primaryField_person_garage rfl (.string "p1") ?_ ?_ ?_
    · rintro s ⟨⟩
      decide
    · exact List.pairwise_singleton _ _
    · rintro e he -
      rw [List.mem_singleton.1 he]
      rfl
  refine .object (d := Registry.Garage.car) (k := .asset) .untyped rfl rfl (.inl rfl) rfl
    ?_ ?_ ?_ ?_
  · rw [markedFields_redCar]
    decide
  · unfold Ascending
    decide
  · suffices ∀ e ∈ redCar.fields, e.1 ∈ (Registry.garage.markedFields redCar.type).map (·.name) from
      fun e he _ => this e he
    rw [markedFields_redCar]
    decide
  · simp only [wireFields_redCar, List.forall_mem_cons]
    refine ⟨.map (List.pairwise_singleton _ _) ?_, .constant rfl ?_, howner,
      .primitive (.string "v1"), List.forall_mem_nil _⟩
    · rintro e he
      rw [List.mem_singleton.1 he]
      exact ⟨_, rfl⟩
    · decide

theorem ofJson_toJson_redCar : ∃ node y, toJson Registry.garage redCar.toValue = .ok node ∧
    ofJson Registry.garage node (.named "org.acme.Vehicle") = .ok (Resource.toValue y) ∧
    (y == redCar) = true :=
  ofJson_toJson Registry.isAssignable_car_garage wellTyped_redCar

/-! A leap second that does not end its minute is written as the second after it. -/

namespace Readings

def reading : TypeDecl where
  ns := "org.acme"
  name := "Reading"
  kind := some .concept
  fields := [.data "taken" (.primitive .dateTime)]

def registry : Registry := Registry.standard.register reading

/-- Half a second into a leap second after the first second of 1970. -/
def odd : Instant := ⟨0, 1500000000⟩

def readingAt (t : Instant) : Resource := ⟨"org.acme.Reading", [("taken", .dateTime t)]⟩

def written : Json := .string "1970-01-01T00:00:01.500Z"

def members : List (String × Json) :=
  insertKey typeMember (.string "org.acme.Reading") (mapOfList [("taken", written)])

theorem lookup_taken_members : members.lookup "taken" = some written :=
  (lookup_insertKey_ne (by decide) _ _).trans rfl

theorem markedFields_reading : registry.markedFields "org.acme.Reading" = reading.fields :=
  Registry.markedFields_of_root (d := reading) rfl rfl

theorem wireFields_reading : registry.wireFields "org.acme.Reading" = reading.fields := by
  rw [Registry.wireFields, markedFields_reading]
  decide

theorem isAssignable_reading :
    registry.isAssignable "org.acme.Reading" "org.acme.Reading" = true :=
  Registry.isAssignable_self (d := reading) rfl

end Readings

open Readings in
/-- Whole milliseconds in a year of four digits are not enough for an instance to be read back. -/
theorem leap_second_comes_back_moved :
    odd.InFourDigitYear ∧ odd.nanos < 2000000000 ∧ odd.nanos % 1000000 = 0 ∧
    registry.type? "org.acme.Reading" = some reading ∧ reading.kind = some .concept ∧
    reading.constructible = true ∧ registry.markedFields "org.acme.Reading" = reading.fields ∧
    registry.isAssignable "org.acme.Reading" (readingAt odd).type = true ∧
    ∃ node, toJson registry (readingAt odd).toValue = .ok node ∧
      ofJson registry node (.named "org.acme.Reading") =
        .ok (readingAt ⟨1, 500000000⟩).toValue ∧
      (readingAt ⟨1, 500000000⟩ == readingAt odd) = false := by
  have htext : Instant.text odd = "1970-01-01T00:00:01.500Z".toList := by decide
  have hread : instant? written = some ⟨1, 500000000⟩ := by decide
  refine ⟨by decide, by decide, by decide, rfl, rfl, rfl, markedFields_reading,
    isAssignable_reading, .object members, ?_, ?_, by decide⟩
  · refine toJson_of_root (d := reading) (k := .concept) rfl rfl rfl [("taken", written)]
      (.cons ⟨rfl, ?_⟩ .nil)
    change Except.ok (Json.string (.ofList odd.text)) = _
    rw [htext, String.ofList_toList, written]
  · refine (decode_object_of_admits (.named isAssignable_reading) (d := reading) rfl
      (lookup_insertKey_self _ _ _)).trans (readObject_eq_ok_iff.2
        ⟨reading, rfl, rfl, [("taken", .dateTime ⟨1, 500000000⟩)], ?_, rfl⟩)
    rw [Members, wireFields_reading]
    refine .cons ⟨rfl, ?_⟩ .nil
    rw [memberValue_decoders]
    change decode registry ((members.lookup "taken").getD .null) _ = _
    rw [lookup_taken_members]
    refine (decode_primitive Json.noConfusion .dateTime none).trans ?_
    simp [readPrimitive, primitive?, hread]

end Wire

end LedgerSchema
