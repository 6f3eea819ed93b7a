import Mathlib
import LedgerSchema.Proofs.KeyMap
import LedgerSchema.Proofs.Outcome
import LedgerSchema.Proofs.Registry.Registration
import LedgerSchema.Wire.Encode

/-!
The members of the object of a resource: its type, and one member for each name among the marked
fields of the type, in the way of the first field of that name.
-/

set_option autoImplicit false

namespace LedgerSchema

theorem mem_of_mem_firstOfEachName {fields : List Field} {f : Field}
    (h : f ∈ firstOfEachName fields) : f ∈ fields := by
  induction fields with
  | nil => exact h
  | cons g rest ih =>
    rcases List.mem_cons.1 h with rfl | h
    · exact List.mem_cons_self
    · exact List.mem_cons_of_mem _ (ih (List.mem_of_mem_filter h))

theorem nodup_firstOfEachName (fields : List Field) :
    ((firstOfEachName fields).map (·.name)).Nodup := by
  induction fields with
  | nil => exact List.nodup_nil
  | cons f rest ih =>
    rw [firstOfEachName, List.map_cons, List.nodup_cons]
    refine ⟨?_, ih.sublist (List.filter_sublist.map _)⟩
    simp

/-- A field is the one for its name if no field before it has the name. -/
theorem find?_firstOfEachName (fields : List Field) (name : String) :
    (firstOfEachName fields).find? (·.name = name) = fields.find? (·.name = name) := by
  induction fields with
  | nil => rfl
  | cons f rest ih =>
    rw [firstOfEachName]
    by_cases hf : f.name = name
    · rw [List.find?_cons_of_pos (by simpa using hf), List.find?_cons_of_pos (by simpa using hf)]
    · rw [List.find?_cons_of_neg (by simpa using hf), List.find?_cons_of_neg (by simpa using hf),
        List.find?_filter, ← ih]
      congr 1
      funext g
      by_cases hg : g.name = name
      · simp [hg, Ne.symm hf]
      · simp [hg]

theorem mem_firstOfEachName_iff {fields : List Field} {f : Field} :
    f ∈ firstOfEachName fields ↔ fields.find? (·.name = f.name) = some f := by
  rw [← find?_firstOfEachName]
  exact (find?_key_eq_some_iff (nodup_firstOfEachName fields)).symm

theorem mem_names_firstOfEachName {fields : List Field} {name : String} :
    name ∈ (firstOfEachName fields).map (·.name) ↔ name ∈ fields.map (·.name) := by
  have hfind (l : List Field) : name ∈ l.map (·.name) ↔ (l.find? (·.name = name)).isSome := by
    rw [List.find?_isSome]
    simp
  rw [hfind, hfind, find?_firstOfEachName]

/-- No other field on the wire has the name of the field. -/
theorem Registry.exists_wireFields_eq {r : Registry} {type : String} {f : Field}
    (hf : f ∈ r.wireFields type) : ∃ before after, r.wireFields type = before ++ f :: after ∧
      ∀ g ∈ before ++ after, g.name ≠ f.name := by
  obtain ⟨before, after, hfields⟩ := List.append_of_mem hf
  have hnodup := nodup_firstOfEachName (r.markedFields type)
  rw [← wireFields, hfields, List.map_append, List.map_cons, List.nodup_middle, List.nodup_cons,
    ← List.map_append] at hnodup
  exact ⟨before, after, hfields, fun g hg hname => hnodup.1 (hname ▸ List.mem_map_of_mem hg)⟩

namespace Wire

variable {r : Registry} {type : String} {members : List (String × Encoder)}

/-! The entries of a walk over the fields that the instances of a type have on the wire. -/

/-- The entries are under the names of the fields, and each of them fits its field. -/
def Members {β : Type} (r : Registry) (type : String) (P : Field → β → Prop)
    (entries : List (String × β)) : Prop :=
  List.Forall₂ (fun f e => e.1 = f.name ∧ P f e.2) (r.wireFields type) entries

theorem exists_members_iff {β : Type} {P : Field → β → Prop} :
    (∃ entries, Members r type P entries) ↔ ∀ f ∈ r.wireFields type, ∃ b, P f b := by
  unfold Members
  rw [exists_forall₂_iff]
  refine forall₂_congr fun f _ => ?_
  exact ⟨fun ⟨e, _, he⟩ => ⟨e.2, he⟩, fun ⟨b, hb⟩ => ⟨(f.name, b), rfl, hb⟩⟩

namespace Members

variable {β : Type} {P : Field → β → Prop} {entries : List (String × β)}

theorem keys_eq (h : Members r type P entries) :
    entries.map Prod.fst = (r.wireFields type).map (·.name) := by
  rw [← List.forall₂_eq_eq_eq, List.forall₂_map_left_iff, List.forall₂_map_right_iff]
  exact h.flip.imp fun _ _ h => h.1

theorem lookup_eq (h : Members r type P entries) (name : String) :
    (mapOfList entries).lookup name = entries.lookup name :=
  lookup_mapOfList_of_nodup (h.keys_eq ▸ nodup_firstOfEachName _) name

theorem exists_lookup (h : Members r type P entries) {f : Field} (hf : f ∈ r.wireFields type) :
    ∃ b, (mapOfList entries).lookup f.name = some b ∧ P f b := by
  obtain ⟨⟨name, b⟩, he, rfl, hb⟩ := exists_mem_right h hf
  refine ⟨b, ?_, hb⟩
  rw [h.lookup_eq]
  exact lookup_of_mem (h.keys_eq ▸ nodup_firstOfEachName _) he

theorem lookup_ne_none_iff (h : Members r type P entries) {name : String} :
    (mapOfList entries).lookup name ≠ none ↔ name ∈ (r.markedFields type).map (·.name) := by
  rw [h.lookup_eq, ← key_mem_iff_lookup, h.keys_eq]
  exact mem_names_firstOfEachName

/-- The entry of a field is the one that is found under its name. -/
theorem imp_of_lookup (h : Members r type P entries) {Q : Field → β → Prop}
    (himp : ∀ f ∈ r.wireFields type, ∀ b, (mapOfList entries).lookup f.name = some b → P f b →
      Q f b) : Members r type Q entries := by
  obtain ⟨hlength, hzip⟩ := List.forall₂_iff_zip.1 h
  refine List.forall₂_iff_zip.2 ⟨hlength, fun {f e} he => ⟨(hzip he).1, ?_⟩⟩
  obtain ⟨hf, hentry⟩ := List.of_mem_zip he
  obtain ⟨hname, hb⟩ := hzip he
  refine himp f hf e.2 ?_ hb
  rw [h.lookup_eq, ← hname]
  exact lookup_of_mem (h.keys_eq ▸ nodup_firstOfEachName _) hentry

theorem mem_keys_insertKey_iff (h : Members r type P entries) {key name : String} {b : β} :
    name ∈ (insertKey key b (mapOfList entries)).map Prod.fst ↔
      name = key ∨ name ∈ (r.markedFields type).map (·.name) := by
  rw [key_mem_iff_lookup]
  by_cases hname : name = key
  · simp [hname]
  · rw [lookup_insertKey_ne hname, h.lookup_ne_none_iff, or_iff_right hname]

end Members

theorem mapM_members_eq_ok_iff {β : Type} {code : Field → Except WireError β}
    {entries : List (String × β)} :
    ((r.wireFields type).mapM fun f => (code f).map fun b => (f.name, b)) = .ok entries ↔
      Members r type (fun f b => code f = .ok b) entries := by
  rw [mapM_eq_ok_iff]
  have hiff (f : Field) (e : String × β) :
      (code f).map (fun b => (f.name, b)) = .ok e ↔ e.1 = f.name ∧ code f = .ok e.2 := by
    rw [map_eq_ok_iff]
    constructor
    · rintro ⟨b, hb, rfl⟩
      exact ⟨rfl, hb⟩
    · rintro ⟨hname, hb⟩
      exact ⟨e.2, hb, Prod.ext hname.symm rfl⟩
  simp only [hiff]
  rfl

def fieldNode (members : List (String × Encoder)) (f : Field) : Except WireError Json :=
  match members.lookup f.name with
  | some encoder => encoder f.isEmbedded
  | none => .ok .null

theorem encodeObject_eq (r : Registry) (type : String) (members : List (String × Encoder)) :
    encodeObject r type members =
      ((r.wireFields type).mapM fun f => (fieldNode members f).map fun n => (f.name, n)) >>=
        fun nodes => pure (.object (insertKey typeMember (.string type) (mapOfList nodes))) := by
  refine congrArg (· >>= _) (congrArg (List.mapM · _) (funext fun f => ?_))
  unfold fieldNode
  cases members.lookup f.name <;> rfl

/-- Nothing but the nodes of the fields goes into an object. -/
theorem encodeObject_congr {others : List (String × Encoder)}
    (h : ∀ f ∈ r.wireFields type, fieldNode members f = fieldNode others f) :
    encodeObject r type members = encodeObject r type others := by
  rw [encodeObject_eq, encodeObject_eq]
  congr 1
  apply mapM_congr
  intro f hf
  rw [h f hf]

theorem encodeObject_eq_ok_iff {node : Json} :
    encodeObject r type members = .ok node ↔ ∃ nodes,
      Members r type (fun f n => fieldNode members f = .ok n) nodes ∧
      node = .object (insertKey typeMember (.string type) (mapOfList nodes)) := by
  rw [encodeObject_eq, bind_eq_ok_iff]
  simp only [mapM_members_eq_ok_iff, pure, Except.pure, Except.ok.injEq, eq_comm (b := node)]

theorem mem_keys_encodeObject {object : List (String × Json)}
    (h : encodeObject r type members = .ok (.object object)) {name : String} :
    name ∈ object.map Prod.fst ↔ name = typeMember ∨ name ∈ (r.markedFields type).map (·.name) := by
  obtain ⟨nodes, hnodes, hobject⟩ := encodeObject_eq_ok_iff.1 h
  obtain rfl := Json.object.inj hobject
  exact hnodes.mem_keys_insertKey_iff

theorem encodeObject_ne_string {type : String} {members : List (String × Encoder)} (text : String) :
    encodeObject r type members ≠ .ok (.string text) := by
  intro h
  obtain ⟨nodes, -, hnode⟩ := bind_eq_ok_iff.1 h
  cases Except.ok.inj hnode

theorem encode_toValue {x : Resource} {c : TypeDecl} {k : Kind} (hc : r.type? x.type = some c)
    (hk : c.kind = some k) (inPlace : Bool) : encode r x.toValue inPlace =
      if inPlace || k.alwaysEmbedded then encodeObject r x.type (encoders r x.fields)
      else (reference r x).map .string := by
  simp [Resource.toValue, encode, encodeResource, hc, hk]

theorem mem_keys_encode {x : Resource} {d : TypeDecl} {k : Kind} (hd : r.type? x.type = some d)
    (hk : d.kind = some k) {inPlace : Bool} {object : List (String × Json)}
    (h : encode r x.toValue inPlace = .ok (.object object)) {name : String} :
    name ∈ object.map Prod.fst ↔
      name = typeMember ∨ name ∈ (r.markedFields x.type).map (·.name) := by
  rw [encode_toValue hd hk] at h
  split at h
  · exact mem_keys_encodeObject h
  · obtain ⟨text, -, htext⟩ := map_eq_ok_iff.1 h
    cases htext

end Wire

end LedgerSchema
