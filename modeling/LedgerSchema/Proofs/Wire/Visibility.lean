import Mathlib
import LedgerSchema.Proofs.Wire.RoundTrip

/-!
What of a value can be seen on the wire. Of a resource in place these are its marked fields, and of
one behind a reference its key; two values that agree in that have the same node, or fail with the
same error.
-/

set_option autoImplicit false

namespace LedgerSchema

namespace Wire

variable {r : Registry} {inPlace : Bool}

/-- Two values that differ at most in what the wire does not show, where resources in them are
written in place or by reference. Identical values agree; lists do so item by item, and resources of
one type in their marked fields, or in their key alone where they are written as references. -/
inductive AgreeVisibly (r : Registry) : Bool → Value → Value → Prop
  | same {inPlace : Bool} (v : Value) : AgreeVisibly r inPlace v v
  | list {inPlace : Bool} {items others : List Value} (hlength : items.length = others.length)
    (h : ∀ e ∈ items.zip others, AgreeVisibly r inPlace e.1 e.2) :
    AgreeVisibly r inPlace (.list items) (.list others)
  | set {inPlace : Bool} {items others : List Value} (hlength : items.length = others.length)
    (h : ∀ e ∈ items.zip others, AgreeVisibly r inPlace e.1 e.2) :
    AgreeVisibly r inPlace (.set items) (.set others)
  | array {inPlace : Bool} {items others : List Value} (hlength : items.length = others.length)
    (h : ∀ e ∈ items.zip others, AgreeVisibly r inPlace e.1 e.2) :
    AgreeVisibly r inPlace (.array items) (.array others)
  | object {inPlace : Bool} {x y : Resource} (htype : x.type = y.type)
    (hplace : inPlace = true ∨
      ∀ k, (r.type? x.type).bind (·.kind) = some k → k.alwaysEmbedded = true)
    (hfields : ∀ name f, (r.markedFields x.type).find? (·.name = name) = some f →
      AgreeVisibly r f.isEmbedded (x.get name) (y.get name)) :
    AgreeVisibly r inPlace x.toValue y.toValue
  | reference {x y : Resource} (htype : x.type = y.type)
    (hplace : ∀ k, (r.type? x.type).bind (·.kind) = some k → k.alwaysEmbedded = false)
    (hkey : ∀ f, r.primaryField? x.type = some f → x.get f.name = y.get f.name) :
    AgreeVisibly r false x.toValue y.toValue

theorem encodeItems_congr {items others : List Value} (hlength : items.length = others.length)
    (h : ∀ e ∈ items.zip others, encode r e.1 inPlace = encode r e.2 inPlace) :
    encodeItems r items inPlace = encodeItems r others inPlace := by
  induction items generalizing others with
  | nil =>
    rw [List.length_nil, eq_comm, List.length_eq_zero_iff] at hlength
    rw [hlength]
  | cons v items ih =>
    cases others with
    | nil => cases hlength
    | cons w others =>
      rw [List.zip_cons_cons, List.forall_mem_cons] at h
      have hitems := ih (Nat.succ.inj hlength) h.2
      rw [encodeItems, encodeItems, h.1, hitems]

/-- In place, nothing is read of a resource but its marked fields. -/
theorem encode_eq_of_fields {x y : Resource} (htype : x.type = y.type)
    (hplace : inPlace = true ∨
      ∀ k, (r.type? x.type).bind (·.kind) = some k → k.alwaysEmbedded = true)
    (hfields : ∀ f ∈ r.wireFields x.type,
      encode r (x.get f.name) f.isEmbedded = encode r (y.get f.name) f.isEmbedded) :
    encode r x.toValue inPlace = encode r y.toValue inPlace := by
  obtain ⟨type, fields⟩ := x
  obtain ⟨type', others⟩ := y
  obtain rfl : type = type' := htype
  simp only [Resource.toValue, encode, encodeResource]
  cases hkind : (r.type? type).bind (·.kind) with
  | none => rfl
  | some k =>
    have hobject : (inPlace || k.alwaysEmbedded) = true := by
      rw [Bool.or_eq_true]
      exact hplace.imp_right fun hall => hall k hkind
    dsimp only
    rw [if_pos hobject, if_pos hobject]
    apply encodeObject_congr
    intro f hf
    rw [fieldNode_encoders, fieldNode_encoders]
    exact hfields f hf

/-- Behind a reference, nothing is read of a resource but its key. -/
theorem encode_eq_of_key {x y : Resource} (htype : x.type = y.type)
    (hplace : ∀ k, (r.type? x.type).bind (·.kind) = some k → k.alwaysEmbedded = false)
    (hkey : ∀ f, r.primaryField? x.type = some f → x.get f.name = y.get f.name) :
    encode r x.toValue false = encode r y.toValue false := by
  obtain ⟨type, fields⟩ := x
  obtain ⟨type', others⟩ := y
  obtain rfl : type = type' := htype
  have hreference : reference r ⟨type, fields⟩ = reference r ⟨type, others⟩ := by
    unfold reference
    cases hf : r.primaryField? type with
    | none => rfl
    | some f =>
      dsimp only
      rw [hkey f hf]
  simp only [Resource.toValue, encode, encodeResource]
  cases hkind : (r.type? type).bind (·.kind) with
  | none => rfl
  | some k =>
    have hnot : ¬ (false || k.alwaysEmbedded) = true := by
      rw [hplace k hkind]
      decide
    dsimp only
    rw [if_neg hnot, if_neg hnot, hreference]

theorem AgreeVisibly.encode_eq {v w : Value} (h : AgreeVisibly r inPlace v w) :
    encode r v inPlace = encode r w inPlace := by
  induction h with
  | same v => rfl
  | list hlength _ ih | set hlength _ ih | array hlength _ ih =>
    rw [encode, encode, encodeItems_congr hlength ih]
  | object htype hplace _ ih =>
    apply encode_eq_of_fields htype hplace
    intro f hf
    exact ih f.name f (mem_firstOfEachName_iff.1 hf)
  | reference htype hplace hkey => exact encode_eq_of_key htype hplace hkey

/-- What is in unmarked fields, and what is in a resource behind a reference besides its key, makes
no difference on the wire. -/
theorem toJson_eq_of_agreeVisibly {v w : Value} (h : AgreeVisibly r true v w) :
    toJson r v = toJson r w := h.encode_eq

def remarkedCar : Resource :=
  ⟨"org.acme.Car", [("colour", .enum "RED"), ("notes", .map [("tyres", .string "worn")]),
    ("owner", .resource "org.acme.Person" [("id", .string "p1"), ("name", .string "Ann")]),
    ("remark", .string "dented"), ("vin", .string "v1")]⟩

theorem agreeVisibly_remarkedCar :
    AgreeVisibly .garage true redCar.toValue remarkedCar.toValue := by
  have howner : AgreeVisibly .garage false
      (Resource.mk "org.acme.Person" [("id", .string "p1")]).toValue
      (Resource.mk "org.acme.Person" [("id", .string "p1"), ("name", .string "Ann")]).toValue := by
    refine .reference rfl (by decide) ?_
    intro f hf
    obtain rfl := Option.some.inj (Registry.primaryField_person_garage.symm.trans hf)
    rfl
  refine .object rfl (.inl rfl) ?_
  intro name f hf
  have hname : f.name = name := by simpa using List.find?_some hf
  have hmem : f ∈ Registry.Garage.car.fields ++ Registry.Garage.vehicle.fields := by
    rw [← Registry.markedFields_car_garage]
    exact List.mem_of_find?_eq_some hf
  subst hname
  simp only [Registry.Garage.car, Registry.Garage.vehicle, List.cons_append, List.nil_append,
    List.mem_cons, List.not_mem_nil, or_false] at hmem
  rcases hmem with rfl | rfl | rfl | rfl
  · exact .same _
  · exact .same _
  · exact howner
  · exact .same _

/-- Who the owner is, and that the car is dented, is not told. -/
theorem toJson_remarkedCar : ∃ node, redCar.toValue ≠ remarkedCar.toValue ∧
    toJson .garage redCar.toValue = .ok node ∧ toJson .garage remarkedCar.toValue = .ok node := by
  obtain ⟨node, -, hnode, -⟩ := wellTyped_redCar.readsBack
  refine ⟨node, by simp [redCar, remarkedCar, Resource.toValue], hnode, ?_⟩
  rw [← toJson_eq_of_agreeVisibly agreeVisibly_remarkedCar]
  exact hnode

end Wire

end LedgerSchema
