import Mathlib
import LedgerSchema.Proofs.Registry.Lineage
import LedgerSchema.Proofs.Wire.Object
import LedgerSchema.Wire.Decode

/-!
The two walks over trees, opened at one node: items and members are coded one by one, and an object
or a reference is read as the type that it names where that type may stand.
-/

set_option autoImplicit false

namespace LedgerSchema

@[elab_as_elim]
theorem Json.induction {motive : Json → Prop}
    (null : motive .null)
    (bool : ∀ b, motive (.bool b))
    (number : ∀ n, motive (.number n))
    (string : ∀ s, motive (.string s))
    (array : ∀ items, (∀ node ∈ items, motive node) → motive (.array items))
    (object : ∀ members, (∀ e ∈ members, motive e.2) → motive (.object members))
    (node : Json) : motive node := by
  refine @Json.rec motive (fun items => ∀ node ∈ items, motive node)
    (fun members => ∀ e ∈ members, motive e.2) (fun e => motive e.2)
    null bool number string array object ?_ ?_ ?_ ?_ ?_ node
  · simp
  · intro x xs hx hxs
    exact List.forall_mem_cons.2 ⟨hx, hxs⟩
  · simp
  · intro e es he hes
    exact List.forall_mem_cons.2 ⟨he, hes⟩
  · exact fun _ _ h => h

namespace Wire

variable {r : Registry}

theorem encodeItems_eq_mapM (items : List Value) (inPlace : Bool) :
    encodeItems r items inPlace = items.mapM (encode r · inPlace) := by
  induction items with
  | nil => rfl
  | cons v items ih => rw [encodeItems, List.mapM_cons, ih]

theorem encodeItems_eq_ok_iff {items : List Value} {inPlace : Bool} {nodes : List Json} :
    encodeItems r items inPlace = .ok nodes ↔
      List.Forall₂ (fun v n => encode r v inPlace = .ok n) items nodes := by
  rw [encodeItems_eq_mapM, mapM_eq_ok_iff]

theorem decodeItems_eq_ok_iff {nodes : List Json} {t : Target} {items : List Value} :
    decodeItems r nodes t = .ok items ↔
      List.Forall₂ (fun n v => decode r n t = .ok v) nodes items := by
  rw [← mapM_eq_ok_iff]
  suffices decodeItems r nodes t = nodes.mapM (decode r · t) by rw [this]
  induction nodes with
  | nil => rfl
  | cons n nodes ih => rw [decodeItems, List.mapM_cons, ih]

theorem lookup_encoders (fields : List (String × Value)) (name : String) :
    (encoders r fields).lookup name = (fields.lookup name).map (encode r) := by
  induction fields with
  | nil => rfl
  | cons e fields ih =>
    obtain ⟨k, v⟩ := e
    rw [encoders, List.lookup_cons, List.lookup_cons, ih]
    cases name == k <;> rfl

theorem lookup_decoders (object : List (String × Json)) (name : String) :
    (decoders r object).lookup name = (object.lookup name).map (decode r) := by
  induction object with
  | nil => rfl
  | cons e object ih =>
    obtain ⟨k, n⟩ := e
    rw [decoders, List.lookup_cons, List.lookup_cons, ih]
    cases name == k <;> rfl

theorem fieldNode_encoders (fields : List (String × Value)) (f : Field) :
    fieldNode (encoders r fields) f = encode r (fieldValue fields f.name) f.isEmbedded := by
  rw [fieldNode, lookup_encoders, fieldValue]
  cases fields.lookup f.name <;> rfl

theorem exists_encode_object {x : Resource} {d : TypeDecl} {k : Kind} {inPlace : Bool}
    (hd : r.type? x.type = some d) (hk : d.kind = some k)
    (hplace : inPlace = true ∨ k.alwaysEmbedded = true)
    (htag : typeMember ∉ (r.markedFields x.type).map (·.name))
    (hfields : ∀ f ∈ r.wireFields x.type, ∃ node, encode r (x.get f.name) f.isEmbedded = .ok node) :
    ∃ object, encode r x.toValue inPlace = .ok (.object object) ∧
      object.lookup typeMember = some (.string x.type) ∧ ∀ f ∈ r.wireFields x.type, ∃ node,
        object.lookup f.name = some node ∧ encode r (x.get f.name) f.isEmbedded = .ok node := by
  obtain ⟨nodes, hnodes⟩ : ∃ nodes, Members r x.type
      (fun f n => fieldNode (encoders r x.fields) f = .ok n) nodes := by
    refine exists_members_iff.2 fun f hf => ?_
    obtain ⟨node, hnode⟩ := hfields f hf
    exact ⟨node, (fieldNode_encoders x.fields f).trans hnode⟩
  refine ⟨insertKey typeMember (.string x.type) (mapOfList nodes), ?_, lookup_insertKey_self _ _ _,
    fun f hf => ?_⟩
  · rw [encode_toValue hd hk, if_pos (by simpa using hplace)]
    exact encodeObject_eq_ok_iff.2 ⟨nodes, hnodes, rfl⟩
  · obtain ⟨node, hlookup, hnode⟩ := hnodes.exists_lookup hf
    have hname : f.name ≠ typeMember := fun h =>
      htag (h ▸ List.mem_map_of_mem (mem_of_mem_firstOfEachName hf))
    refine ⟨node, (lookup_insertKey_ne hname _ _).trans hlookup, ?_⟩
    rwa [fieldNode_encoders] at hnode

/-- An outermost instance of a type without parent has the nodes of the fields that it declares. -/
theorem toJson_of_root {x : Resource} {d : TypeDecl} {k : Kind} (hd : r.type? x.type = some d)
    (hk : d.kind = some k) (hroot : d.parent = none) (nodes : List (String × Json))
    (hnodes : List.Forall₂
      (fun f e => e.1 = f.name ∧ encode r (x.get f.name) f.isEmbedded = .ok e.2)
      (firstOfEachName d.markedFields) nodes) :
    toJson r x.toValue =
      .ok (.object (insertKey typeMember (.string x.type) (mapOfList nodes))) := by
  refine (encode_toValue hd hk true).trans (encodeObject_eq_ok_iff.2 ⟨nodes, ?_, rfl⟩)
  rw [Members, Registry.wireFields, Registry.markedFields_of_root hd hroot]
  exact hnodes.imp fun f e he => ⟨he.1, (fieldNode_encoders x.fields f).trans he.2⟩

theorem decode_null (t : Target) : decode r .null t = .ok .null := by
  cases t <;> rfl

theorem decode_primitive {node : Json} (hnode : node ≠ .null) (p : Primitive)
    (element : Option FieldType) :
    decode r node (.typed (.primitive p) element) = readPrimitive p node := by
  cases node with
  | null => exact absurd rfl hnode
  | _ => rfl

def memberValue (members : List (String × Decoder)) (f : Field) : Except WireError Value :=
  match members.lookup f.name with
  | some decoder => decoder (.typed f.type f.element)
  | none => .ok .null

theorem memberValue_decoders (object : List (String × Json)) (f : Field) :
    memberValue (decoders r object) f =
      decode r ((object.lookup f.name).getD .null) (.typed f.type f.element) := by
  rw [memberValue, lookup_decoders]
  cases object.lookup f.name with
  | none => exact (decode_null _).symm
  | some n => rfl

theorem readObject_eq_ok_iff {type : String} {members : List (String × Decoder)} {v : Value} :
    readObject r type members = .ok v ↔
      ∃ d, r.type? type = some d ∧ d.constructible = true ∧ ∃ fields,
        Members r type (fun f v => memberValue members f = .ok v) fields ∧
        v = .resource type (mapOfList fields) := by
  cases hd : r.type? type with
  | none => simp [readObject, hd]
  | some d =>
    cases hconstructible : d.constructible with
    | false => simp [readObject, hd, hconstructible]
    | true =>
      have hfields : readObject r type members =
          ((r.wireFields type).mapM fun f => (memberValue members f).map fun v => (f.name, v)) >>=
            fun fields => pure (.resource type (mapOfList fields)) := by
        simp only [readObject, hd, hconstructible, Bool.not_true, Bool.false_eq_true, if_false]
        refine congrArg (· >>= _) (congrArg (List.mapM · _) (funext fun f => ?_))
        unfold memberValue
        cases members.lookup f.name <;> rfl
      rw [hfields, bind_eq_ok_iff]
      simp only [mapM_members_eq_ok_iff, pure, Except.pure, Except.ok.injEq, eq_comm (b := v),
        Option.some.injEq, exists_eq_left', hconstructible, true_and]

/-- Where an instance of the type may stand. -/
inductive Target.Admits (r : Registry) (type : String) : Target → Prop
  | named {name : String} {element : Option FieldType} (h : r.isAssignable name type = true) :
    Admits r type (.typed (.named name) element)
  | untyped : Admits r type .untyped

/-- An object is read as the type that it names. -/
theorem decode_object_of_admits {type : String} {d : TypeDecl} {t : Target}
    (ht : t.Admits r type) (hd : r.type? type = some d) {object : List (String × Json)}
    (htag : object.lookup typeMember = some (.string type)) :
    decode r (.object object) t = readObject r type (decoders r object) := by
  have hobject (name : String) (h : r.isAssignable name type = true) :
      readNamed r name (.object object) (decoders r object) =
        readObject r type (decoders r object) := by
    obtain ⟨e, he⟩ := (Registry.isAssignable_iff.1 h).1
    simp [readNamed, Registry.resolve_eq_type_iff.2 he, objectType, htag, h]
  cases ht with
  | named h => exact hobject _ h
  | untyped =>
    change readUntyped r (.object object) (decoders r object) = _
    simp only [readUntyped, htag, Json.string?, Option.getD_some, Registry.resolve_eq_type_iff.2 hd]
    exact hobject _ (Registry.isAssignable_self hd)

/-- Where a type is declared, a text is read as the instance that it refers to, of any type. -/
theorem decode_string_eq_ok_iff {name text : String} {element : Option FieldType} {d : TypeDecl}
    {v : Value} (hd : r.type? name = some d) :
    decode r (.string text) (.typed (.named name) element) = .ok v ↔
      ∃ x, ofReference r text = .ok (some x) ∧ v = x.toValue := by
  change readNamed r name (.string text) [] = _ ↔ _
  simp only [readNamed, Registry.resolve_eq_type_iff.2 hd]
  rw [bind_eq_ok_iff]
  constructor
  · rintro ⟨x?, hx, h⟩
    cases x? with
    | none => cases h
    | some x => exact ⟨x, hx, (Except.ok.inj h).symm⟩
  · rintro ⟨x, hx, rfl⟩
    exact ⟨some x, hx, rfl⟩

theorem decode_string_of_type? {name text : String} {element : Option FieldType} {d : TypeDecl}
    {x : Resource} (hd : r.type? name = some d) (htext : ofReference r text = .ok (some x)) :
    decode r (.string text) (.typed (.named name) element) = .ok x.toValue :=
  (decode_string_eq_ok_iff hd).2 ⟨x, htext, rfl⟩

theorem decode_string_of_admits {type : String} {t : Target} (ht : t.Admits r type) {text : String}
    {x : Resource} (htext : ofReference r text = .ok (some x)) :
    decode r (.string text) t = .ok x.toValue := by
  cases ht with
  | named h =>
    obtain ⟨e, he⟩ := (Registry.isAssignable_iff.1 h).1
    exact decode_string_of_type? he htext
  | untyped =>
    change readUntyped r (.string text) [] = _
    simp [readUntyped, htext, Except.map]

/-- Where an instance may stand, a text is read as the one that it refers to, or it stays a text
where no type is declared. -/
theorem decode_string_eq_ok {type : String} {t : Target} (ht : t.Admits r type) {text : String}
    {v : Value} (h : decode r (.string text) t = .ok v) :
    (∃ x, ofReference r text = .ok (some x) ∧ v = x.toValue) ∨
      ofReference r text = .ok none ∧ v = .string text := by
  cases ht with
  | named hname =>
    obtain ⟨e, he⟩ := (Registry.isAssignable_iff.1 hname).1
    exact .inl ((decode_string_eq_ok_iff he).1 h)
  | untyped =>
    change readUntyped r (.string text) [] = _ at h
    obtain ⟨x?, hx, rfl⟩ := map_eq_ok_iff.1 h
    cases x? with
    | none => exact .inr ⟨hx, rfl⟩
    | some x => exact .inl ⟨x, hx, rfl⟩

end Wire

end LedgerSchema
