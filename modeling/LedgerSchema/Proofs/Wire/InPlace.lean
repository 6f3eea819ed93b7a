import Mathlib
import LedgerSchema.Proofs.Document.Load
import LedgerSchema.Proofs.Schema.Reflection
import LedgerSchema.Proofs.Wire.Codec

/-!
What the object of a resource in place consists of: its type, and one member for each name of its
marked fields. The type takes the place of a field of its name, which an identifier can have.
-/

set_option autoImplicit false

namespace LedgerSchema

namespace Wire

variable {r : Registry} {x : Resource} {inPlace : Bool} {object : List (String × Json)}

/-- Whether a resource is written in place goes by its type. If it is, the nodes of its fields are
written one after the other. -/
theorem encode_eq_nodes (h : encode r x.toValue inPlace = .ok (.object object)) {y : Resource}
    (htype : y.type = x.type) : encode r y.toValue inPlace =
      ((r.wireFields y.type).mapM fun f =>
        (encode r (y.get f.name) f.isEmbedded).map fun n => (f.name, n)) >>= fun nodes =>
          pure (.object (insertKey typeMember (.string y.type) (mapOfList nodes))) := by
  have hinPlace : encode r y.toValue inPlace = encodeObject r y.type (encoders r y.fields) := by
    simp only [Resource.toValue, encode, encodeResource, htype] at h ⊢
    split at h
    · cases h
    · split at h
      · rename_i hinPlace
        rw [if_pos hinPlace]
      · obtain ⟨text, -, htext⟩ := map_eq_ok_iff.1 h
        cases htext
  rw [hinPlace, encodeObject_eq]
  simp only [fieldNode_encoders]
  rfl

theorem exists_members_of_encode (h : encode r x.toValue inPlace = .ok (.object object)) :
    ∃ nodes, Members r x.type (fun f n => encode r (x.get f.name) f.isEmbedded = .ok n) nodes ∧
      object = insertKey typeMember (.string x.type) (mapOfList nodes) := by
  rw [encode_eq_nodes h rfl] at h
  obtain ⟨nodes, hnodes, hobject⟩ := bind_eq_ok_iff.1 h
  exact ⟨nodes, mapM_members_eq_ok_iff.1 hnodes, (Json.object.inj (Except.ok.inj hobject)).symm⟩

/-- The object of a resource has its type under `$class` and, under the name of every other marked
field of the type and of its ancestors, the node of the field's value, in the way of the first field
of that name. So it has one member more than there are names of fields, unless a field is named
`$class`: that one has no member, and there are as many members as names. -/
theorem members_of_object (h : encode r x.toValue inPlace = .ok (.object object)) :
    (object.map Prod.fst).Nodup ∧
    object.lookup typeMember = some (.string x.type) ∧
    (∀ name f, (r.markedFields x.type).find? (·.name = name) = some f → name ≠ typeMember →
      ∃ node, object.lookup name = some node ∧
        encode r (x.get name) f.isEmbedded = .ok node) ∧
    (∀ name, name ∈ object.map Prod.fst ↔
      name = typeMember ∨ name ∈ (r.markedFields x.type).map (·.name)) ∧
    object.length = ((r.markedFields x.type).map (·.name)).dedup.length +
      if typeMember ∈ (r.markedFields x.type).map (·.name) then 0 else 1 := by
  obtain ⟨nodes, hnodes, rfl⟩ := exists_members_of_encode h
  have hkeys (name : String) :
      name ∈ (insertKey typeMember (Json.string x.type) (mapOfList nodes)).map Prod.fst ↔
        name = typeMember ∨ name ∈ (r.markedFields x.type).map (·.name) :=
    hnodes.mem_keys_insertKey_iff
  have hnodup := ((ascending_mapOfList nodes).insertKey typeMember (.string x.type)).nodup_keys
  refine ⟨hnodup, lookup_insertKey_self _ _ _, fun name f hf hne => ?_, hkeys, ?_⟩
  · obtain rfl : f.name = name := by simpa using List.find?_some hf
    obtain ⟨node, hlookup, hnode⟩ := hnodes.exists_lookup (mem_firstOfEachName_iff.2 hf)
    exact ⟨node, (lookup_insertKey_ne hne _ _).trans hlookup, hnode⟩
  · rw [← List.length_map Prod.fst]
    generalize (insertKey typeMember (Json.string x.type) (mapOfList nodes)).map Prod.fst = keys,
      (r.markedFields x.type).map (·.name) = names at hkeys hnodup ⊢
    split
    · rename_i htag
      refine List.Perm.length_eq ((List.perm_ext_iff_of_nodup hnodup names.nodup_dedup).2
        fun name => ?_)
      rw [hkeys, List.mem_dedup, or_iff_right_of_imp]
      rintro rfl
      exact htag
    · rename_i htag
      have hcons : (typeMember :: names.dedup).Nodup :=
        List.nodup_cons.2 ⟨mt List.mem_dedup.1 htag, names.nodup_dedup⟩
      refine List.Perm.length_eq ((List.perm_ext_iff_of_nodup hnodup hcons).2 fun name => ?_)
      rw [hkeys, List.mem_cons, List.mem_dedup]

def plainCar : Resource := ⟨"org.acme.Car", [("vin", .string "v1")]⟩

theorem members_of_plainCar : ∃ object,
    encode .garage plainCar.toValue true = .ok (.object object) ∧ object.length = 5 ∧
    object.lookup typeMember = some (.string "org.acme.Car") ∧
    object.lookup "vin" = some (.string "v1") := by
  have hmarked : Registry.garage.markedFields plainCar.type =
      Registry.Garage.car.fields ++ Registry.Garage.vehicle.fields :=
    Registry.markedFields_car_garage
  have hnodes : ∀ f ∈ Registry.garage.wireFields plainCar.type, ∃ node,
      fieldNode (encoders .garage plainCar.fields) f = .ok node := by
    rw [Registry.wireFields, hmarked]
    change ∀ f ∈ Registry.Garage.car.fields ++ Registry.Garage.vehicle.fields, _
    simp only [Registry.Garage.car, Registry.Garage.vehicle, List.cons_append, List.nil_append,
      List.forall_mem_cons]
    exact ⟨⟨.null, rfl⟩, ⟨.null, rfl⟩, ⟨.null, rfl⟩, ⟨.string "v1", rfl⟩, List.forall_mem_nil _⟩
  obtain ⟨nodes, hnodes⟩ := exists_members_iff.2 hnodes
  have hobject : encode .garage plainCar.toValue true = .ok (.object _) :=
    (encode_toValue (c := Registry.Garage.car) (k := .asset) rfl rfl true).trans
      (encodeObject_eq_ok_iff.2 ⟨nodes, hnodes, rfl⟩)
  obtain ⟨-, htype, hfields, -, hlength⟩ := members_of_object hobject
  rw [hmarked] at hfields hlength
  obtain ⟨node, hvin, hnode⟩ := hfields "vin" _ rfl (by decide)
  obtain rfl := Except.ok.inj hnode
  exact ⟨_, hobject, hlength, htype, hvin⟩

/-! A field that is named like the member for the type. -/

namespace Tags

def tag : TypeDecl where
  ns := "org.acme"
  name := "Tag"
  kind := some .concept
  fields := [.data "$class" (.primitive .string)]

def document : Document := { types := [tag] }

def red : Resource := ⟨"org.acme.Tag", [("$class", .string "red")]⟩

end Tags

/-- The value of a field that is named `$class` is not written. -/
theorem class_field_lost : ∃ loaded object, Tags.document.load = .ok loaded ∧
    toJson loaded.registry Tags.red.toValue = .ok (.object object) ∧
    ((loaded.registry.markedFields "org.acme.Tag").map (·.name)).dedup.length = 1 ∧
    object.length ≠ 1 + 1 ∧
    encode loaded.registry (Tags.red.get "$class") true = .ok (.string "red") ∧
    object.lookup "$class" = some (.string "org.acme.Tag") := by
  have hload : Tags.document.load = .ok ⟨Tags.document.toRegistry, Tags.document.warnings⟩ :=
    Document.load_eq_ok_iff.2 ⟨by decide, rfl⟩
  have hmarked : Tags.document.toRegistry.markedFields "org.acme.Tag" = Tags.tag.fields :=
    Registry.markedFields_of_root (d := Tags.tag) rfl rfl
  have hobject : toJson Tags.document.toRegistry Tags.red.toValue =
      .ok (.object [("$class", .string "org.acme.Tag")]) :=
    toJson_of_root (d := Tags.tag) (k := .concept) rfl rfl rfl [("$class", .string "red")]
      (.cons ⟨rfl, rfl⟩ .nil)
  refine ⟨_, _, hload, hobject, ?_, by decide, rfl, rfl⟩
  change ((Tags.document.toRegistry.markedFields "org.acme.Tag").map (·.name)).dedup.length = 1
  rw [hmarked]
  rfl

end Wire

end LedgerSchema
