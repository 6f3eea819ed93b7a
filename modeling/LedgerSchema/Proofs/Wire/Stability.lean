import Mathlib
import LedgerSchema.Proofs.Wire.RoundTrip
import LedgerSchema.Proofs.Wire.Soundness

/-!
Writing again what was read. What is read from the node of an instance may differ from it: a
reference keeps the key only, a constant in a key comes back as a text, and times are cut to
milliseconds. Still it is written as the same node, at every depth.
-/

set_option autoImplicit false

namespace LedgerSchema

namespace Wire

variable {r : Registry}

inductive KeyConforms (r : Registry) : FieldType → Value → Prop
  | primitive {p : Primitive} {v : Value} (h : p.IsTypeOf v) : KeyConforms r (.primitive p) v
  | constant {name : String} {e : EnumDecl} (he : r.resolve name = .enum e) (c : String) :
    KeyConforms r (.named name) (.enum c)

/-- The values, without sets, that have the shape their target asks for, where resources in them are
written in place or by reference: of any precision and range, whether or not they can be written or
read. The parameter says which types may be named in references. -/
inductive Conforms (r : Registry) (Named : String → Prop) : Bool → Target → Value → Prop
  | null {inPlace : Bool} {t : Target} : Conforms r Named inPlace t .null
  | primitive {inPlace : Bool} {p : Primitive} {element : Option FieldType} {v : Value}
    (h : p.IsTypeOf v) : Conforms r Named inPlace (.typed (.primitive p) element) v
  | constant {inPlace : Bool} {name : String} {element : Option FieldType} {e : EnumDecl}
    (he : r.resolve name = .enum e) (c : String) :
    Conforms r Named inPlace (.typed (.named name) element) (.enum c)
  | map {inPlace : Bool} {element : Option FieldType} {entries : List (String × Value)}
    (hkeys : Ascending entries) (htexts : ∀ e ∈ entries, ∃ text, e.2 = .string text) :
    Conforms r Named inPlace (.typed .map element) (.map entries)
  | array {inPlace : Bool} {component : FieldType} {element : Option FieldType}
    {items : List Value} (h : ∀ v ∈ items, Conforms r Named inPlace (.typed component none) v) :
    Conforms r Named inPlace (.typed (.array component) element) (.array items)
  | list {inPlace : Bool} {kind : CollectionKind} {element : Option FieldType}
    {items : List Value} (hkind : kind ≠ .set)
    (h : ∀ v ∈ items, Conforms r Named inPlace (elementTarget r element) v) :
    Conforms r Named inPlace (.typed (.collection kind) element) (.list items)
  | object {inPlace : Bool} {t : Target} {x : Resource} {d : TypeDecl} {k : Kind}
    (ht : t.Admits r x.type) (hd : r.type? x.type = some d) (hk : d.kind = some k)
    (hplace : inPlace = true ∨ k.alwaysEmbedded = true) (hconstructible : d.constructible = true)
    (htag : typeMember ∉ (r.markedFields x.type).map (·.name))
    (hmarked : ∀ e ∈ x.fields, e.2 ≠ .null → e.1 ∈ (r.markedFields x.type).map (·.name))
    (hfields : ∀ f ∈ r.wireFields x.type,
      Conforms r Named f.isEmbedded (.typed f.type f.element) (x.get f.name)) :
    Conforms r Named inPlace t x.toValue
  | reference {t : Target} {x : Resource} {d : TypeDecl} (ht : t.Admits r x.type)
    (hd : r.type? x.type = some d) (hplace : ∀ k, d.kind = some k → k.alwaysEmbedded = false)
    (hnamed : Named x.type)
    (hkey : ∀ f, r.primaryField? x.type = some f → KeyConforms r f.type (x.get f.name)) :
    Conforms r Named false t x.toValue

/-- A reference whose type has a mark in its name is read as one to what stands before the mark. If
that is a type, its instances have to be written as references, too. -/
def NamesReferences (r : Registry) (type : String) : Prop :=
  ∀ before after, type = before ++ "#" ++ after → '#' ∉ before.toList →
    ∀ d, r.type? before = some d → ∃ k, d.kind = some k ∧ k.alwaysEmbedded = false

/-- What is read from the node of the value is written as that node. -/
def Stable (r : Registry) (inPlace : Bool) (t : Target) (v : Value) : Prop :=
  ∀ node w, encode r v inPlace = .ok node → decode r node t = .ok w → encode r w inPlace = .ok node

variable {Named : String → Prop} {inPlace : Bool} {t : Target}

theorem stable_of_decode {v : Value} {node : Json} (hnode : encode r v inPlace = .ok node)
    (hread : decode r node t = .ok v) : Stable r inPlace t v := by
  intro node' w hnode' hw
  obtain rfl := Except.ok.inj (hnode.symm.trans hnode')
  obtain rfl := Except.ok.inj (hread.symm.trans hw)
  exact hnode

theorem stable_primitive {p : Primitive} {element : Option FieldType} {v : Value}
    (h : p.IsTypeOf v) : Stable r inPlace (.typed (.primitive p) element) v := by
  have hholds {p : Primitive} {v : Value} (h : p.Holds v) :
      Stable r inPlace (.typed (.primitive p) element) v := by
    obtain ⟨node, hnode, hne, hread⟩ := primitive?_encode r h inPlace
    refine stable_of_decode hnode ?_
    simp [decode_primitive hne, readPrimitive, hread]
  cases h with
  | string s => exact hholds (.string s)
  | long n => exact hholds (.long n)
  | integer n => exact hholds (.integer n)
  | boolean b => exact hholds (.boolean b)
  | double x =>
    cases hx : x.isFinite with
    | true => exact hholds (.double hx)
    | false =>
      intro node w hnode
      simp [encode, encodeDouble, hx] at hnode
  | dateTime t =>
    intro node w hnode hw
    obtain rfl := Except.ok.inj hnode
    have hne : Json.string (.ofList t.text) ≠ .null := by
      intro h
      cases h
    rw [decode_primitive hne] at hw
    obtain ⟨hlegible, rfl⟩ := readPrimitive_text_eq_ok_iff.1 hw
    rw [encode, Instant.text_cut hlegible.second]

theorem encodeItems_of_stable {items ws : List Value} {nodes : List Json}
    (h : ∀ v ∈ items, Stable r inPlace t v) (hnodes : encodeItems r items inPlace = .ok nodes)
    (hws : decodeItems r nodes t = .ok ws) : encodeItems r ws inPlace = .ok nodes := by
  rw [encodeItems_eq_ok_iff] at hnodes ⊢
  rw [decodeItems_eq_ok_iff] at hws
  induction hnodes generalizing ws with
  | nil =>
    cases hws
    exact .nil
  | @cons v node items nodes hnode _ ih =>
    obtain ⟨w, rest, hw, hrest, rfl⟩ := List.forall₂_cons_left_iff.1 hws
    obtain ⟨hv, hitems⟩ := List.forall_mem_cons.1 h
    exact .cons (hv node w hnode hw) (ih hitems hrest)

theorem stable_list {kind : CollectionKind} {element : Option FieldType} {items : List Value}
    (hkind : kind ≠ .set) (h : ∀ v ∈ items, Stable r inPlace (elementTarget r element) v) :
    Stable r inPlace (.typed (.collection kind) element) (.list items) := by
  intro node w hnode hw
  rw [encode] at hnode
  obtain ⟨nodes, hnodes, rfl⟩ := map_eq_ok_iff.1 hnode
  cases kind with
  | set => exact absurd rfl hkind
  | other name => cases hw
  | list =>
    change (decodeItems r nodes (elementTarget r element)).map (collect .list) = _ at hw
    obtain ⟨ws, hws, rfl⟩ := map_eq_ok_iff.1 hw
    change (encodeItems r ws inPlace).map Json.array = _
    rw [encodeItems_of_stable h hnodes hws]
    rfl

theorem stable_array {component : FieldType} {element : Option FieldType} {items : List Value}
    (h : ∀ v ∈ items, Stable r inPlace (.typed component none) v) :
    Stable r inPlace (.typed (.array component) element) (.array items) := by
  intro node w hnode hw
  rw [encode] at hnode
  obtain ⟨nodes, hnodes, rfl⟩ := map_eq_ok_iff.1 hnode
  change (decodeItems r nodes (.typed component none)).map Value.array = _ at hw
  obtain ⟨ws, hws, rfl⟩ := map_eq_ok_iff.1 hw
  rw [encode, encodeItems_of_stable h hnodes hws]
  rfl

theorem stable_object {x : Resource} {d : TypeDecl} {k : Kind} (ht : t.Admits r x.type)
    (hd : r.type? x.type = some d) (hk : d.kind = some k)
    (hplace : inPlace = true ∨ k.alwaysEmbedded = true)
    (htag : typeMember ∉ (r.markedFields x.type).map (·.name))
    (hfields : ∀ f ∈ r.wireFields x.type,
      Stable r f.isEmbedded (.typed f.type f.element) (x.get f.name)) :
    Stable r inPlace t x.toValue := by
  intro node w hnode hw
  have hinPlace : (inPlace || k.alwaysEmbedded) = true := by simpa using hplace
  rw [encode_toValue hd hk, if_pos hinPlace] at hnode
  obtain ⟨nodes, hnodes, rfl⟩ := encodeObject_eq_ok_iff.1 hnode
  rw [decode_object_of_admits ht hd (lookup_insertKey_self _ _ _)] at hw
  obtain ⟨-, -, -, values, hvalues, rfl⟩ := readObject_eq_ok_iff.1 hw
  refine (encode_toValue (x := ⟨x.type, mapOfList values⟩) hd hk inPlace).trans ?_
  rw [if_pos hinPlace]
  refine encodeObject_eq_ok_iff.2 ⟨nodes, hnodes.imp_of_lookup fun f hf n hlookup hn => ?_, rfl⟩
  obtain ⟨v, hv, hread⟩ := hvalues.exists_lookup hf
  have hname : f.name ≠ typeMember := fun h =>
    htag (h ▸ List.mem_map_of_mem (mem_of_mem_firstOfEachName hf))
  rw [memberValue_decoders, lookup_insertKey_ne hname, hlookup] at hread
  rw [fieldNode_encoders] at hn ⊢
  have hvalue : fieldValue (mapOfList values) f.name = v := by
    rw [fieldValue, hv]
    rfl
  rw [hvalue]
  exact hfields f hf n v hn hread

/-- The text of a double, finite or not, is read as a double with that text. -/
theorem exists_double_of_text (x : Binary64) :
    ∃ y, Binary64.ofText? (doubleText x).toList = some y ∧ doubleText y = doubleText x := by
  cases hx : x.isFinite with
  | true =>
    refine ⟨x, ?_, rfl⟩
    rw [doubleText, if_pos hx, String.toList_ofList, Binary64.ofText?_finiteText jsonDoubles hx]
  | false =>
    obtain ⟨y, hy, hread, htext⟩ := Binary64.exists_ofText?_specialText x
    refine ⟨y, ?_, ?_⟩
    · simp [doubleText, hx, hread]
    · simp [doubleText, hx, hy, htext]

theorem keyText_of_keyOfText {p : Primitive} {v w : Value} (hv : p.IsTypeOf v)
    {type field key : String} (hkey : keyText type field v = .ok key)
    (hread : keyOfText key p = .ok w) : keyText type field w = .ok key := by
  -- Only doubles without a numeral and times that are no whole milliseconds can change.
  have hholds (h : p.Holds v) : keyText type field w = .ok key := by
    obtain rfl := Except.ok.inj ((keyOfText_of_keyText h hkey).symm.trans hread)
    exact hkey
  cases hv with
  | string s => exact hholds (.string s)
  | long n => exact hholds (.long n)
  | integer n => exact hholds (.integer n)
  | boolean b => exact hholds (.boolean b)
  | double x =>
    obtain rfl := Except.ok.inj hkey
    obtain ⟨y, hy, htext⟩ := exists_double_of_text x
    simp only [keyOfText, primitiveOfText?, hy, Option.map_some, Except.ok.injEq] at hread
    subst hread
    rw [keyText, htext]
  | dateTime t =>
    obtain rfl := Except.ok.inj hkey
    obtain ⟨hlegible, rfl⟩ := keyOfText_text_eq_ok_iff.1 hread
    rw [keyText, Instant.text_cut hlegible.second]

theorem keyText_of_keyRead {ft : FieldType} {v w : Value} (hv : KeyConforms r ft v)
    {type field key : String} (hkey : keyText type field v = .ok key) (hread : KeyRead key ft w) :
    keyText type field w = .ok key := by
  cases hv with
  | primitive hp =>
    cases hread with
    | primitive h => exact keyText_of_keyOfText hp hkey h
    | text htype => exact absurd rfl (htype _)
  | constant he c =>
    cases hread
    rfl

/-- A reference is read as one to the same type, or as one to a type that its name begins with. -/
theorem stable_reference {x : Resource} {d : TypeDecl} (ht : t.Admits r x.type)
    (hd : r.type? x.type = some d) (hplace : ∀ k, d.kind = some k → k.alwaysEmbedded = false)
    (hnamed : NamesReferences r x.type)
    (hkey : ∀ f, r.primaryField? x.type = some f → KeyConforms r f.type (x.get f.name)) :
    Stable r false t x.toValue := by
  intro node w hnode hw
  obtain ⟨k, hk⟩ : ∃ k, d.kind = some k := by
    cases hkind : d.kind with
    | some k => exact ⟨k, rfl⟩
    | none => simp [Resource.toValue, encode, encodeResource, hd, hkind] at hnode
  replace hplace := hplace k hk
  rw [encode_toValue hd hk, hplace, if_neg (by decide)] at hnode
  obtain ⟨text, htext, rfl⟩ := map_eq_ok_iff.1 hnode
  rcases decode_string_eq_ok ht hw with ⟨y, hy, rfl⟩ | ⟨-, rfl⟩
  · obtain ⟨type, key, hsplit, hofKey⟩ := ofReference_eq_some_iff.1 hy
    obtain ⟨-, d', f', v, hd', -, hf', hread, rfl⟩ := ofKey_eq_ok_iff.1 hofKey
    obtain ⟨f, key', hf, hkeyText, rfl⟩ := reference_eq_ok_iff.1 htext
    obtain ⟨k', hk', hplace', hkeyText'⟩ : ∃ k', d'.kind = some k' ∧ k'.alwaysEmbedded = false ∧
        keyText type f'.name v = .ok key := by
      rcases splitReference?_referenceText_eq_some hsplit with
        ⟨rfl, rfl⟩ | ⟨hmark, hbefore, after, hafter⟩
      · obtain rfl := Option.some.inj (hd.symm.trans hd')
        obtain rfl := Option.some.inj (hf.symm.trans hf')
        exact ⟨k, hk, hplace, keyText_of_keyRead (hkey f hf) hkeyText hread⟩
      · obtain ⟨k', hk', hplace'⟩ := hnamed type after hafter hbefore d' hd'
        refine ⟨k', hk', hplace', ?_⟩
        generalize f'.type = ft at hread
        cases hread with
        | primitive h =>
          rw [eq_string_of_keyOfText hmark h]
          rfl
        | text htype => rfl
    refine (encode_toValue (x := (Resource.empty type).set f'.name v) hd' hk' false).trans ?_
    rw [hplace', if_neg (by decide), (splitReference?_eq_some hsplit).2]
    refine map_eq_ok_iff.2 ⟨_, reference_eq_ok_iff.2 ⟨f', key, hf', ?_, rfl⟩, rfl⟩
    rwa [Resource.get_set_self]
  · rfl

theorem Conforms.stable {v : Value} (h : Conforms r (NamesReferences r) inPlace t v) :
    Stable r inPlace t v := by
  induction h with
  | null => exact stable_of_decode rfl (decode_null _)
  | primitive h => exact stable_primitive h
  | @constant inPlace name element e he c =>
    intro node w hnode hw
    obtain rfl := Except.ok.inj hnode
    change readNamed r name (.string c) [] = _ at hw
    simp only [readNamed, he, readConstant] at hw
    split at hw
    · obtain rfl := Except.ok.inj hw
      rfl
    · cases hw
  | map hkeys htexts =>
    obtain ⟨node, hnode, hread⟩ := exists_node_of_map hkeys htexts
    exact stable_of_decode hnode hread
  | array _ ih => exact stable_array ih
  | list hkind _ ih => exact stable_list hkind ih
  | object ht hd hk hplace _ htag _ _ ih => exact stable_object ht hd hk hplace htag ih
  | reference ht hd hplace hnamed hkey => exact stable_reference ht hd hplace hnamed hkey

/-- What is read from the node of a conforming instance is written as that node again, whatever its
values lost on the way, unless it has a reference whose type has a mark in its name, and before the
mark the name of a type whose instances are never written as references. -/
theorem toJson_of_ofJson {x : Resource} {name : String} {node : Json} {w : Value}
    (hx : Conforms r (NamesReferences r) true (.typed (.named name) none) x.toValue)
    (hnode : toJson r x.toValue = .ok node) (hw : ofJson r node (.named name) = .ok w) :
    toJson r w = .ok node := hx.stable node w hnode hw

theorem conforms_redCar {Named : String → Prop} (hperson : Named "org.acme.Person") :
    Conforms .garage Named true (.typed (.named "org.acme.Vehicle") none) redCar.toValue := by
  have howner : Conforms .garage Named false (.typed Registry.Garage.owner.type none)
      (Resource.mk "org.acme.Person" [("id", .string "p1")]).toValue := by
    refine .reference (d := Registry.Garage.person)
      (.named (Registry.isAssignable_self (d := Registry.Garage.person) rfl)) rfl (by decide)
      hperson fun f hf => ?_
    obtain rfl := Option.some.inj (Registry.primaryField_person_garage.symm.trans hf)
    exact .primitive (.string "p1")
  refine .object (d := Registry.Garage.car) (k := .asset)
    (.named Registry.isAssignable_car_garage) rfl rfl (.inl rfl) rfl ?_ ?_ ?_
  · rw [markedFields_redCar]
    decide
  · suffices ∀ e ∈ redCar.fields, e.1 ∈ (Registry.garage.markedFields redCar.type).map (·.name) from
      fun e he _ => this e he
    rw [markedFields_redCar]
    decide
  · simp only [wireFields_redCar, List.forall_mem_cons]
    refine ⟨.map (List.pairwise_singleton _ _) ?_, .constant rfl "RED", howner,
      .primitive (.string "v1"), List.forall_mem_nil _⟩
    rintro e he
    rw [List.mem_singleton.1 he]
    exact ⟨_, rfl⟩

theorem toJson_of_ofJson_redCar : ∃ node w,
    Conforms .garage (NamesReferences .garage) true (.typed (.named "org.acme.Vehicle") none)
      redCar.toValue ∧
    toJson .garage redCar.toValue = .ok node ∧
    ofJson .garage node (.named "org.acme.Vehicle") = .ok w ∧ toJson .garage w = .ok node := by
  have hperson : NamesReferences .garage "org.acme.Person" := by
    intro before after hname
    have hmark : '#' ∈ "org.acme.Person".toList := by
      rw [hname]
      simp
    exact absurd hmark (by decide)
  obtain ⟨node, w, hnode, hw, -⟩ :=
    (wellTyped_redCar.retarget (.named Registry.isAssignable_car_garage)).readsBack
  exact ⟨node, w, conforms_redCar hperson, hnode, hw,
    toJson_of_ofJson (conforms_redCar hperson) hnode hw⟩

/-! A reference whose type has a mark in its name, with the name of a concept before the mark. -/

namespace Notes

def key : Field := { Field.data "id" (.primitive .string) with primary := true }

def thing : TypeDecl where
  ns := "org.acme"
  name := "Thing"
  kind := some .asset
  fields := [key]

def note : TypeDecl where
  ns := "org.acme"
  name := "Note"
  kind := some .concept
  fields := [key]

def numbered : TypeDecl where
  ns := "org.acme"
  name := "Note#1"
  kind := some .asset
  parent := some "org.acme.Thing"

def shelf : TypeDecl where
  ns := "org.acme"
  name := "Shelf"
  kind := some .concept
  fields := [.pointer "thing" (.named "org.acme.Thing")]

def registry : Registry :=
  (((Registry.standard.register thing).register note).register numbered).register shelf

def item : Resource := ⟨"org.acme.Note#1", [("id", .string "x")]⟩

def numberedNote : Resource := ⟨"org.acme.Note", [("id", .string "1#x")]⟩

def shelfOf (x : Resource) : Resource := ⟨"org.acme.Shelf", [("thing", x.toValue)]⟩

def fullShelf : Resource := shelfOf item

theorem not_onCycle_registry (name : String) : ¬ registry.OnCycle name :=
  Registry.not_onCycle_of_rank (fun n => if n = "org.acme.Note#1" then 1 else 0) (by decide) name

theorem ancestors_numbered : registry.ancestors "org.acme.Note#1" = [numbered, thing] := by
  have hthing : registry.ancestors "org.acme.Thing" = [thing] := Registry.ancestors_of_root rfl rfl
  rw [Registry.ancestors_of_parent (d := numbered) rfl rfl (not_onCycle_registry _), hthing]

theorem ancestors_note : registry.ancestors "org.acme.Note" = [note] :=
  Registry.ancestors_of_root rfl rfl

theorem markedFields_shelf : registry.markedFields "org.acme.Shelf" = shelf.fields :=
  Registry.markedFields_of_root (d := shelf) rfl rfl

theorem wireFields_shelf : registry.wireFields "org.acme.Shelf" = shelf.fields := by
  rw [Registry.wireFields, markedFields_shelf]
  decide

theorem wireFields_note : registry.wireFields "org.acme.Note" = note.fields := by
  rw [Registry.wireFields, Registry.markedFields_of_root (d := note) rfl rfl]
  decide

theorem primaryField_numbered : registry.primaryField? "org.acme.Note#1" = some key := by
  rw [Registry.primaryField?, Registry.declaredFields, ancestors_numbered]
  decide

theorem primaryField_note : registry.primaryField? "org.acme.Note" = some key := by
  exact Registry.primaryField?_of_root (d := note) rfl rfl

theorem isAssignable_numbered :
    registry.isAssignable "org.acme.Thing" "org.acme.Note#1" = true := by
  rw [Registry.isAssignable, ancestors_numbered]
  decide

theorem conforms_fullShelf :
    Conforms registry (fun _ => True) true (.typed (.named "org.acme.Shelf") none)
      fullShelf.toValue := by
  have hitem : Conforms registry (fun _ => True) false (.typed (.named "org.acme.Thing") none)
      item.toValue := by
    refine .reference (d := numbered) (.named isAssignable_numbered) rfl (by decide) trivial
      fun f hf => ?_
    obtain rfl := Option.some.inj (primaryField_numbered.symm.trans hf)
    exact .primitive (.string "x")
  refine .object (d := shelf) (k := .concept) (.named (Registry.isAssignable_self (d := shelf) rfl))
    rfl rfl (.inl rfl) rfl ?_ ?_ ?_
  · rw [fullShelf, shelfOf, markedFields_shelf]
    decide
  · rw [fullShelf, shelfOf, markedFields_shelf]
    rintro e he -
    rw [List.mem_singleton.1 he]
    decide
  · rw [fullShelf, shelfOf, wireFields_shelf]
    exact List.forall_mem_singleton.2 hitem

theorem ofReference_item : reference registry item = .ok "resource:org.acme.Note#1#x" ∧
    ofReference registry "resource:org.acme.Note#1#x" =
      .ok (some numberedNote) :=
  ⟨reference_eq_ok_iff.2 ⟨key, "x", primaryField_numbered, rfl, by decide⟩,
    ofReference_eq_some_iff.2 ⟨"org.acme.Note", "1#x", by decide, ofKey_eq_ok_iff.2
      ⟨by decide, note, key, .string "1#x", rfl, rfl, primaryField_note, .primitive rfl, rfl⟩⟩⟩

end Notes

/-- A numbered note, referred to from a shelf, comes back as a note, which is written in place. -/
theorem reencoding_differs_of_mark : ∃ node w again,
    Conforms Notes.registry (fun _ => True) true (.typed (.named "org.acme.Shelf") none)
      Notes.fullShelf.toValue ∧
    toJson Notes.registry Notes.fullShelf.toValue = .ok node ∧
    ofJson Notes.registry node (.named "org.acme.Shelf") = .ok w ∧
    toJson Notes.registry w = .ok again ∧ again ≠ node ∧
    node.member? "thing" = some (.string "resource:org.acme.Note#1#x") ∧
    again.member? "thing" =
      some (.object [("$class", .string "org.acme.Note"), ("id", .string "1#x")]) := by
  obtain ⟨hreference, hread⟩ := Notes.ofReference_item
  have hitem : encode Notes.registry Notes.item.toValue false =
      .ok (.string "resource:org.acme.Note#1#x") :=
    (encode_toValue (c := Notes.numbered) (k := .asset) rfl rfl false).trans
      (map_eq_ok_iff.2 ⟨_, hreference, rfl⟩)
  have hnote : encode Notes.registry Notes.numberedNote.toValue false =
      .ok (.object [("$class", .string "org.acme.Note"), ("id", .string "1#x")]) := by
    refine (encode_toValue (c := Notes.note) (k := .concept) rfl rfl false).trans
      (encodeObject_eq_ok_iff.2 ⟨[("id", .string "1#x")], ?_, rfl⟩)
    rw [Members, Notes.numberedNote, Notes.wireFields_note]
    exact .cons ⟨rfl, rfl⟩ .nil
  have hshelf {x : Resource} {n : Json} (hx : encode Notes.registry x.toValue false = .ok n) :
      toJson Notes.registry (Notes.shelfOf x).toValue =
        .ok (.object [("$class", .string "org.acme.Shelf"), ("thing", n)]) := by
    have htagged : insertKey typeMember (.string "org.acme.Shelf") [("thing", n)] =
        [("$class", .string "org.acme.Shelf"), ("thing", n)] := rfl
    refine (encode_toValue (c := Notes.shelf) (k := .concept) rfl rfl true).trans
      (encodeObject_eq_ok_iff.2 ⟨[("thing", n)], ?_, congrArg Json.object htagged.symm⟩)
    rw [Members, Notes.shelfOf, Notes.wireFields_shelf]
    exact .cons ⟨rfl, hx⟩ .nil
  have hback : ofJson Notes.registry (.object [("$class", .string "org.acme.Shelf"),
      ("thing", .string "resource:org.acme.Note#1#x")]) (.named "org.acme.Shelf") =
        .ok (Notes.shelfOf Notes.numberedNote).toValue := by
    refine (decode_object_of_admits (.named (Registry.isAssignable_self (d := Notes.shelf) rfl))
      rfl rfl).trans (readObject_eq_ok_iff.2
        ⟨Notes.shelf, rfl, rfl, [("thing", Notes.numberedNote.toValue)], ?_, rfl⟩)
    rw [Members, Notes.wireFields_shelf]
    exact .cons ⟨rfl, (memberValue_decoders _ _).trans
      (decode_string_of_type? (d := Notes.thing) rfl hread)⟩ .nil
  exact ⟨_, _, _, Notes.conforms_fullShelf, hshelf hitem, hback, hshelf hnote, by simp, rfl, rfl⟩

end Wire

end LedgerSchema
