import Mathlib
import LedgerSchema.Proofs.Wire.InPlace

/-!
Where a value stands in a field, and where its node stands in the object of the owner. The value can
be all that the field holds, or an item of a collection in it. The embedding of the field goes down
to the items, so the node of the value is that of the value in the field, at any depth.
-/

set_option autoImplicit false

namespace LedgerSchema

namespace Value

inductive Collection where
  | list
  | set
  | array

def Collection.of : Collection → List Value → Value
  | .list => .list
  | .set => .set
  | .array => .array

/-- A place in a value: the value as a whole, or a place in an item of it. -/
inductive Place where
  | here
  | item (collection : Collection) (before : List Value) (place : Place) (after : List Value)

namespace Place

def fill : Place → Value → Value
  | here, v => v
  | item collection before place after, v => collection.of (before ++ place.fill v :: after)

/-- The positions of the items, from the outermost one on. -/
def path : Place → List Nat
  | here => []
  | item _ before place _ => before.length :: place.path

end Place

end Value

inductive Json.Place where
  | here
  | item (before : List Json) (place : Place) (after : List Json)

namespace Json.Place

def fill : Place → Json → Json
  | here, n => n
  | item before place after, n => .array (before ++ place.fill n :: after)

def path : Place → List Nat
  | here => []
  | item before place _ => before.length :: place.path

end Json.Place

namespace Wire

variable {r : Registry} {inPlace : Bool}

theorem encode_collection (collection : Value.Collection) (items : List Value) :
    encode r (collection.of items) inPlace = (items.mapM (encode r · inPlace)).map .array := by
  rw [← encodeItems_eq_mapM]
  cases collection <;> rfl

/-- What is written with nothing in a place, is written with a value in the place exactly if the
value is, and then the node of the value is in the place. -/
theorem exists_place_of_encode {place : Value.Place} {node : Json}
    (h : encode r (place.fill .null) inPlace = .ok node) :
    ∃ q : Json.Place, q.path = place.path ∧ q.fill .null = node ∧
      ∀ v, encode r (place.fill v) inPlace = (encode r v inPlace).map q.fill := by
  induction place generalizing node with
  | here =>
    obtain rfl := Except.ok.inj h
    refine ⟨.here, rfl, rfl, fun v => ?_⟩
    change encode r v inPlace = (encode r v inPlace).map id
    rw [Except.map_id]
    rfl
  | item collection before place after ih =>
    rw [Value.Place.fill, encode_collection] at h
    obtain ⟨nodes, hnodes, rfl⟩ := map_eq_ok_iff.1 h
    obtain ⟨front, n, back, hfront, hn, hback, rfl⟩ := mapM_append_cons_eq_ok_iff.1 hnodes
    obtain ⟨q, hpath, hnull, hfill⟩ := ih hn
    refine ⟨.item front q back, ?_, by rw [Json.Place.fill, hnull], fun v => ?_⟩
    · have hlength := (mapM_eq_ok_iff.1 hfront).length_eq
      rw [Json.Place.path, Value.Place.path, hpath, hlength]
    · rw [Value.Place.fill, encode_collection, mapM_append_cons hfront hback, hfill]
      cases encode r v inPlace <;> rfl

/-- The object of an instance of the type with another node for a member. The type takes the member
of its name. -/
def withMember (object : List (String × Json)) (type name : String) (node : Json) : Json :=
  .object (insertKey typeMember (.string type) (insertKey name node object))

/-- The object of an owner that is written with nothing in a place of a field, is with a value in
the place the same up to the member of the field: there is the node of the value, in the embedding
of the field. -/
theorem exists_place_in_owner (owner : Resource) {f : Field} (hf : f ∈ r.wireFields owner.type)
    (place : Value.Place) {object : List (String × Json)}
    (h : encode r (owner.set f.name (place.fill .null)).toValue inPlace = .ok (.object object)) :
    ∃ q : Json.Place, q.path = place.path ∧
      (f.name ≠ typeMember → object.lookup f.name = some (q.fill .null)) ∧
      ∀ v, encode r (owner.set f.name (place.fill v)).toValue inPlace =
        (encode r v f.isEmbedded).map fun n => withMember object owner.type f.name (q.fill n) := by
  obtain ⟨before, after, hfields, hne⟩ := Registry.exists_wireFields_eq hf
  let code (v : Value) (g : Field) : Except WireError (String × Json) :=
    (encode r ((owner.set f.name (place.fill v)).get g.name) g.isEmbedded).map fun n => (g.name, n)
  have hcode (v : Value) : code v f =
      (encode r (place.fill v) f.isEmbedded).map fun n => (f.name, n) := by
    simp only [code, Resource.get_set_self]
  have hothers (v : Value) {fields : List Field} (hmem : fields ⊆ before ++ after) :
      fields.mapM (code v) = fields.mapM (code .null) := by
    refine mapM_congr fun g hg => ?_
    simp only [code, Resource.get_set_ne _ (hne g (hmem hg))]
  have hencode (v : Value) : encode r (owner.set f.name (place.fill v)).toValue inPlace =
      ((r.wireFields owner.type).mapM (code v)) >>= fun nodes =>
        pure (.object (insertKey typeMember (.string owner.type) (mapOfList nodes))) :=
    encode_eq_nodes h rfl
  rw [hencode] at h
  obtain ⟨nodes, hnodes, hobject⟩ := bind_eq_ok_iff.1 h
  have hnodup : (nodes.map Prod.fst).Nodup :=
    (mapM_members_eq_ok_iff.1 hnodes).keys_eq ▸ nodup_firstOfEachName _
  rw [hfields] at hnodes
  obtain ⟨front, e, back, hfront, he, hback, rfl⟩ := mapM_append_cons_eq_ok_iff.1 hnodes
  rw [hcode] at he
  obtain ⟨n, hn, rfl⟩ := map_eq_ok_iff.1 he
  obtain ⟨q, hpath, rfl, hfill⟩ := exists_place_of_encode hn
  obtain rfl := Json.object.inj (Except.ok.inj hobject)
  refine ⟨q, hpath, fun htag => ?_, fun v => ?_⟩
  · rw [lookup_insertKey_ne htag, lookup_mapOfList_of_nodup hnodup]
    exact lookup_of_mem hnodup (by simp)
  · rw [hencode, hfields, mapM_append_cons ((hothers v (by simp)).trans hfront)
      ((hothers v (by simp)).trans hback), hcode, hfill]
    cases encode r v f.isEmbedded with
    | error e => rfl
    | ok node =>
      change Except.ok (Json.object (insertKey typeMember _ (mapOfList _))) =
        Except.ok (Json.object (insertKey typeMember _ (insertKey f.name _ _)))
      rw [(ascending_mapOfList _).insertKey_insertKey_insertKey, mapOfList_append_cons hnodup]

end Wire

end LedgerSchema
