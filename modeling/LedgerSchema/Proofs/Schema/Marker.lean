import Mathlib
import LedgerSchema.Proofs.Schema.Identity
import LedgerSchema.Proofs.Wire.Place

/-!
The mark of a field in the schema and the form of its values on the wire. The mark goes by the kind
of the declared type, the wire form by the kind of the instance; the two are the same because all
types on a line are of one kind.
-/

set_option autoImplicit false

namespace LedgerSchema

namespace SchemaField

theorem exists_line_eq_iff (s : SchemaField) :
    ((∃ rest, s.line = "\t--> " ++ rest) ↔ s.isReference = true) ∧
      ((∃ rest, s.line = "\to " ++ rest) ↔ s.isReference = false) := by
  obtain ⟨rest, hrest⟩ : ∃ rest,
      s.line = "\t" ++ (if s.isReference then "--> " else "o ") ++ rest :=
    ⟨_, by simp only [line, String.append_assoc]; rfl⟩
  have hdiffer (a b : String) : "\t--> " ++ a ≠ "\to " ++ b := by
    intro h
    have := congrArg String.toList h
    simp [String.toList_append] at this
  rw [hrest]
  cases s.isReference with
  | true =>
    refine ⟨⟨fun _ => rfl, fun _ => ⟨rest, rfl⟩⟩, ⟨?_, nofun⟩⟩
    rintro ⟨other, hother⟩
    exact absurd hother (hdiffer rest other)
  | false =>
    refine ⟨⟨?_, nofun⟩, ⟨fun _ => rfl, fun _ => ⟨rest, rfl⟩⟩⟩
    rintro ⟨other, hother⟩
    exact absurd hother.symm (hdiffer other rest)

end SchemaField

def Value.isScalar : Value → Bool
  | .string _ | .long _ | .integer _ | .double _ | .dateTime _ | .boolean _ | .enum _ => true
  | _ => false

namespace Wire

variable {r : Registry}

theorem exists_keyText_of_isScalar {v : Value} (h : v.isScalar = true) (type field : String) :
    ∃ text, keyText type field v = .ok text := by
  cases v <;> simp_all [Value.isScalar, keyText]

end Wire

namespace Registry

variable {r : Registry}

theorem primaryField?_eq_none {name : String}
    (h : ∀ e ∈ r.ancestors name, ∀ f ∈ e.markedFields, f.isPrimary = false) :
    r.primaryField? name = none := by
  refine List.find?_eq_none.2 fun f hf => ?_
  obtain ⟨e, he, hf⟩ := List.mem_flatMap.1 hf
  intro hprimary
  simp [h e he f (mem_markedFields_of_isPrimary hf hprimary)] at hprimary

theorem isReference_iff {owner : String} {f : Field} {s : SchemaField}
    (h : r.schemaField owner f = .ok s) {t : TypeDecl} {k : Kind} {name : String}
    (hname : f.Mentions name) (ht : r.type? name = some t) (hk : t.kind = some k) :
    s.isReference = true ↔ k ≠ .concept ∧ f.isEmbedded = false := by
  obtain ⟨target, htarget⟩ := exists_target_of_mentions h hname
  have hsome := (schemaField_target_iff h).2 (.inr ⟨name, hname, htarget⟩)
  have hrole : target.role = .type k := by
    obtain ⟨-, ⟨⟨e, he⟩, -⟩ | ⟨d, k', hd, hk', -, hrole⟩⟩ := target_eq_ok_iff.1 htarget
    · rw [resolve_eq_type_iff.2 ht] at he
      cases he
    · rw [resolve_eq_type_iff.2 ht] at hd
      cases hd
      rw [hrole, Option.some.inj (hk'.symm.trans hk)]
  have hembedded : s.embedded = f.isEmbedded := by
    obtain ⟨shape, -, rfl⟩ := schemaField_eq_ok_iff.1 h
    rfl
  simp [SchemaField.isReference, SchemaField.isEnum, SchemaField.isConcept, hsome, hrole, hembedded]

/-- The instances of a type are of its kind, if the types on their line have models. -/
theorem kind_eq_of_isAssignable (hacyclic : ∀ n, ¬ r.OnCycle n) {c t : TypeDecl} {k l : Kind}
    (hc : c ∈ r.types) (hk : c.kind = some k)
    (hmodels : ∀ e ∈ r.ancestors c.qualifiedName, e.kind = some k → ∃ m, r.model k e = .ok m)
    (ht : t ∈ r.types) (hl : t.kind = some l)
    (h : r.isAssignable t.qualifiedName c.qualifiedName = true) : k = l := by
  obtain ⟨e, he, hname⟩ := List.any_eq_true.1 h
  have hetype := mem_of_type? (mem_ancestors_iff.1 he).1
  obtain rfl := eq_of_qualifiedName hetype ht (by simpa using hname)
  have hek := kind_of_mem_ancestors hacyclic hmodels hc hk he
  exact Option.some.inj (hek.symm.trans hl)

theorem exists_reference (hacyclic : ∀ n, ¬ r.OnCycle n) {x : Resource} {c : TypeDecl} {k : Kind}
    (hc : r.type? x.type = some c) (hk : c.kind = some k) (hkind : k = .asset ∨ k = .participant)
    (hmodels : ∀ e ∈ r.ancestors x.type, e.kind = some k → ∃ m, r.model k e = .ok m)
    (hkey : ∀ p, r.primaryField? x.type = some p → (x.get p.name).isScalar = true) :
    ∃ p key, r.primaryField? x.type = some p ∧
      Wire.keyText x.type p.name (x.get p.name) = .ok key ∧
      Wire.reference r x = .ok (Wire.referenceText x.type key) := by
  have hname := qualifiedName_of_type? hc
  obtain ⟨p, hp, -⟩ :=
    exists_identifies hacyclic hkind (by rwa [hname]) (mem_of_type? hc) hk
  rw [hname] at hp
  obtain ⟨key, htext⟩ := Wire.exists_keyText_of_isScalar (hkey p hp) x.type p.name
  exact ⟨p, key, hp, htext, by simp [Wire.reference, hp, htext, Except.map]⟩

theorem reference_of_transaction (hacyclic : ∀ n, ¬ r.OnCycle n) {x : Resource} {c : TypeDecl}
    (hc : r.type? x.type = some c) (hk : c.kind = some .transaction)
    (hmodels : ∀ e ∈ r.ancestors x.type, e.kind = some .transaction →
      ∃ m, r.model .transaction e = .ok m) :
    Wire.reference r x = .error (.noKeyField x.type) := by
  have hname := qualifiedName_of_type? hc
  have hnone : r.primaryField? x.type = none := by
    refine primaryField?_eq_none fun e he f hf => ?_
    have hek : e.kind = some .transaction :=
      kind_of_mem_ancestors hacyclic (by rwa [hname]) (mem_of_type? hc) hk (by rwa [hname])
    obtain ⟨m, hm⟩ := hmodels e he hek
    exact ((exists_model_iff.1 ⟨m, hm⟩).2.2.transaction rfl f hf).1
  rw [Wire.reference, hnone]

/-- Where a field is the one of its name on the wire, the member of its owner's object goes by the
mark of the field in the schema: at the place of a value that is marked as a reference stands the
reference to it, and at the place of any other no text. A transaction has no key, so an owner with
one where a reference is marked cannot be written. The map entry type is not checked when a schema
is made, so its model is asked for where it is on the line of the instance. -/
theorem marker_agrees_with_wire {parts : List Part} (h : r.reflect [] = .ok parts)
    {k : Kind} {d : TypeDecl} (hd : (k, d) ∈ r.reflectedTypes []) {f : Field}
    (hf : f ∈ d.markedFields) {t : TypeDecl} {l : Kind} (ht : t ∈ r.types) (hl : t.kind = some l)
    (hname : f.Mentions t.qualifiedName) {x : Resource} {c : TypeDecl} {kind : Kind}
    (hc : r.type? x.type = some c) (hkind : c.kind = some kind)
    (hreflected : kind.isReflected = true)
    (hassignable : r.isAssignable t.qualifiedName x.type = true)
    (hkey : ∀ p, r.primaryField? x.type = some p → (x.get p.name).isScalar = true)
    (hentry : ∀ e ∈ r.ancestors x.type, e.qualifiedName = entryName → e.kind = some kind →
      ∃ m, r.model kind e = .ok m)
    (owner : Resource) (howner : f ∈ r.wireFields owner.type) (place : Value.Place)
    {inPlace : Bool} {object : List (String × Json)}
    (hobject : Wire.encode r (owner.set f.name (place.fill .null)).toValue inPlace =
      .ok (.object object)) :
    ∃ (s : SchemaField) (q : Json.Place), r.schemaField d.qualifiedName f = .ok s ∧
      q.path = place.path ∧
      (f.name ≠ Wire.typeMember → object.lookup f.name = some (q.fill .null)) ∧
      ((∃ rest, s.line = "\t--> " ++ rest) →
        (l ≠ .transaction → ∃ p key, r.primaryField? x.type = some p ∧
          Wire.keyText x.type p.name (x.get p.name) = .ok key ∧
          Wire.encode r (owner.set f.name (place.fill x.toValue)).toValue inPlace =
            .ok (Wire.withMember object owner.type f.name
              (q.fill (.string (Wire.referenceText x.type key))))) ∧
        (l = .transaction →
          Wire.encode r (owner.set f.name (place.fill x.toValue)).toValue inPlace =
            .error (.noKeyField x.type))) ∧
      ((∃ rest, s.line = "\to " ++ rest) → ∀ node,
        Wire.encode r (owner.set f.name (place.fill x.toValue)).toValue inPlace = .ok node →
          ∃ n, node = Wire.withMember object owner.type f.name (q.fill n) ∧
            ∀ text, n ≠ .string text) := by
  have hacyclic := (reflect_eq_ok_iff.1 h).1
  have hself := qualifiedName_of_type? hc
  have hmodels : ∀ e ∈ r.ancestors x.type, e.kind = some kind → ∃ m, r.model kind e = .ok m := by
    intro e he hek
    by_cases hne : e.qualifiedName = entryName
    · exact hentry e he hne hek
    · exact exists_model_of_reflect h (mem_reflectedTypes_iff.2
        ⟨mem_of_type? (mem_ancestors_iff.1 he).1, hek, hreflected, by simp, hne⟩)
  obtain rfl : kind = l := kind_eq_of_isAssignable hacyclic (mem_of_type? hc) hkind
    (by rwa [hself]) ht hl (by rwa [hself])
  obtain ⟨m, hm⟩ := exists_model_of_reflect h hd
  obtain ⟨s, hs⟩ := exists_schemaField_of_model hm hf
  have hreference := isReference_iff hs hname (type?_qualifiedName.2 ht) hl
  obtain ⟨q, hpath, hlookup, hfill⟩ := Wire.exists_place_in_owner owner howner place hobject
  refine ⟨s, q, hs, hpath, hlookup, fun hline => ?_, fun hline node hnode => ?_⟩
  · obtain ⟨hconcept, hembedded⟩ := hreference.1 (s.exists_line_eq_iff.1.1 hline)
    have hencode : Wire.encode r x.toValue f.isEmbedded = (Wire.reference r x).map .string := by
      rw [Wire.encode_toValue hc hkind, hembedded]
      cases kind <;> simp_all [Kind.alwaysEmbedded, Kind.isReflected, Kind.reflected]
    rw [hfill, hencode]
    refine ⟨fun hne => ?_, ?_⟩
    · have hkeyed : kind = .asset ∨ kind = .participant := by
        cases kind <;> simp_all [Kind.isReflected, Kind.reflected]
      obtain ⟨p, key, hp, htext, href⟩ := exists_reference hacyclic hc hkind hkeyed hmodels hkey
      exact ⟨p, key, hp, htext, by rw [href]; rfl⟩
    · rintro rfl
      rw [reference_of_transaction hacyclic hc hkind hmodels]
      rfl
  · have hplain := s.exists_line_eq_iff.2.1 hline
    have hinPlace : (f.isEmbedded || kind.alwaysEmbedded) = true := by
      by_contra hnot
      rw [Bool.not_eq_true, Bool.or_eq_false_iff] at hnot
      rw [hreference.2 ⟨?_, hnot.1⟩] at hplain
      · cases hplain
      · rintro rfl
        cases hnot.2
    rw [hfill, Wire.encode_toValue hc hkind, if_pos hinPlace] at hnode
    obtain ⟨n, hn, rfl⟩ := map_eq_ok_iff.1 hnode
    refine ⟨n, rfl, fun text htext => ?_⟩
    exact Wire.encodeObject_ne_string text (htext ▸ hn)

/-! A crew refers to its members and carries its home. -/

namespace Crew

def person : TypeDecl where
  ns := "org.acme"
  name := "Person"
  kind := some .participant
  fields := [{ Field.data "id" (.primitive .string) with primary := true }]

def address : TypeDecl where
  ns := "org.acme"
  name := "Address"
  kind := some .concept

def members : Field := .pointer "members" (.array (.named "org.acme.Person"))

def home : Field := .data "home" (.named "org.acme.Address")

def crew : TypeDecl where
  ns := "org.acme"
  name := "Crew"
  kind := some .asset
  fields := [{ Field.data "id" (.primitive .string) with primary := true }, members, home]

def registry : Registry := ((standard.register person).register address).register crew

def empty : Resource :=
  ⟨"org.acme.Crew", [("home", .null), ("id", .string "c1"), ("members", .array [.null, .null])]⟩

def ann : Resource := ⟨"org.acme.Person", [("id", .string "p1")]⟩

end Crew

theorem marker_of_members : ∃ parts, Crew.registry.reflect [] = .ok parts ∧
    (∃ s, Crew.registry.schemaField "org.acme.Crew" Crew.members = .ok s ∧
      s.line = "\t--> Person[] members \n") ∧
    (∃ s, Crew.registry.schemaField "org.acme.Crew" Crew.home = .ok s ∧
      s.line = "\to Address home \n") ∧
    Wire.toJson Crew.registry
        (Crew.empty.set "members" (.array [.null, Crew.ann.toValue])).toValue =
      .ok (.object [("$class", .string "org.acme.Crew"), ("home", .null), ("id", .string "c1"),
        ("members", .array [.null, .string "resource:org.acme.Person#p1"])]) ∧
    ∃ n, Wire.toJson Crew.registry
        (Crew.empty.set "home" (.resource "org.acme.Address" [])).toValue =
      .ok (.object [("$class", .string "org.acme.Crew"), ("home", n), ("id", .string "c1"),
        ("members", .array [.null, .null])]) ∧ ∀ text, n ≠ .string text := by
  obtain ⟨parts, hparts⟩ : ∃ parts, Crew.registry.reflect [] = .ok parts :=
    ⟨_, reflect_eq_ok_iff.2 ⟨not_onCycle_of_rank (fun _ => 0) (by decide), rfl⟩⟩
  have hcrew : (.asset, Crew.crew) ∈ Crew.registry.reflectedTypes [] := by decide
  have hmarked : Crew.registry.markedFields "org.acme.Crew" = Crew.crew.fields :=
    markedFields_of_root (d := Crew.crew) rfl rfl
  have hobject (home : Value) {n : Json} (hn : Wire.encode Crew.registry home true = .ok n) :
      Wire.toJson Crew.registry (Crew.empty.set "home" home).toValue =
        .ok (.object (insertKey Wire.typeMember (.string "org.acme.Crew") (mapOfList
          [("id", .string "c1"), ("members", .array [.null, .null]), ("home", n)]))) := by
    exact Wire.toJson_of_root (d := Crew.crew) (k := .asset) rfl rfl rfl _
      (.cons ⟨rfl, rfl⟩ (.cons ⟨rfl, rfl⟩ (.cons ⟨rfl, hn⟩ .nil)))
  have hempty : Wire.toJson Crew.registry Crew.empty.toValue = _ := hobject .null rfl
  have hwire {f : Field} (hf : f ∈ firstOfEachName Crew.crew.fields) :
      f ∈ Crew.registry.wireFields Crew.empty.type := by
    rwa [wireFields, Crew.empty, hmarked]
  refine ⟨parts, hparts, ⟨_, rfl, rfl⟩, ⟨_, rfl, rfl⟩, ?_, ?_⟩
  · have hkey : Crew.registry.primaryField? "org.acme.Person" = Crew.person.fields.head? :=
      primaryField?_of_root (d := Crew.person) rfl rfl
    obtain ⟨s, q, hs, hpath, hlookup, hreference, -⟩ := marker_agrees_with_wire hparts hcrew
      (f := Crew.members) (by decide) (t := Crew.person) (by decide) rfl (.inr (.inl rfl))
      (x := Crew.ann) (c := Crew.person) rfl rfl rfl (isAssignable_self (d := Crew.person) rfl)
      (fun p hp => by cases hkey.symm.trans hp; rfl)
      (fun e he hname _ => by
        rw [Crew.ann, ancestors_of_root (d := Crew.person) rfl rfl, List.mem_singleton] at he
        exact absurd (he ▸ hname) (by decide))
      Crew.empty (hwire (by decide)) (.item .array [.null] .here []) hempty
    cases hs
    obtain ⟨p, key, hp, htext, hencode⟩ := (hreference ⟨"Person[] members \n", rfl⟩).1 (by decide)
    cases hkey.symm.trans hp
    cases htext
    refine hencode.trans ?_
    have hnull : q.fill .null = .array [.null, .null] :=
      (Option.some.inj (hlookup (by decide))).symm
    cases q with
    | here => cases hpath
    | item before q after =>
      obtain ⟨hlength, hhere⟩ := List.cons.inj hpath
      obtain ⟨n, rfl⟩ := List.length_eq_one_iff.1 hlength
      cases q with
      | here =>
        cases hnull
        rfl
      | item => cases hhere
  · obtain ⟨s, q, hs, hpath, hlookup, -, hplain⟩ := marker_agrees_with_wire hparts hcrew
      (f := Crew.home) (by decide) (t := Crew.address) (by decide) rfl (.inl rfl)
      (x := ⟨"org.acme.Address", []⟩) (c := Crew.address) rfl rfl rfl
      (isAssignable_self (d := Crew.address) rfl)
      (fun p hp => by
        rw [primaryField?_of_root (d := Crew.address) rfl rfl] at hp
        cases hp)
      (fun e he hname _ => by
        rw [ancestors_of_root (d := Crew.address) rfl rfl, List.mem_singleton] at he
        exact absurd (he ▸ hname) (by decide))
      Crew.empty (hwire (by decide)) .here hempty
    cases hs
    have haddress : Wire.encode Crew.registry (.resource "org.acme.Address" []) true =
        .ok (.object [("$class", .string "org.acme.Address")]) :=
      Wire.toJson_of_root (x := ⟨"org.acme.Address", []⟩) (d := Crew.address) (k := .concept) rfl
        rfl rfl [] .nil
    have hcrew := hobject _ haddress
    obtain ⟨n, hnode, hn⟩ := hplain ⟨"Address home \n", rfl⟩ _ hcrew
    cases q with
    | here => exact ⟨n, hcrew.trans (congrArg _ hnode), hn⟩
    | item => cases hpath

/-! Where mark and form differ: references to transactions, instances of a type that has its kind
from a map entry type of its own and not from its ancestors, and fields behind another of their
name. -/

namespace Shop

def sale : TypeDecl where
  ns := "org.acme"
  name := "Sale"
  kind := some .transaction

def saleOfHolder : Field := .pointer "sale" (.named "org.acme.Sale")

def holder : TypeDecl where
  ns := "org.acme"
  name := "Holder"
  kind := some .asset
  fields := [{ Field.data "id" (.primitive .string) with primary := true }, saleOfHolder]

def base : TypeDecl where
  ns := "org.acme"
  name := "Base"
  kind := some .concept

/-- Another type under the name of the map entry concept, of another kind than its parent. -/
def entry : TypeDecl where
  ns := entryNamespace
  name := "Entry"
  kind := some .asset
  parent := some "org.acme.Base"

def item : TypeDecl where
  ns := "org.acme"
  name := "Item"
  kind := some .asset
  parent := some entryName
  fields := [{ Field.data "id" (.primitive .string) with primary := true }]

def baseOfShelf : Field := .pointer "base" (.named "org.acme.Base")

def shelf : TypeDecl where
  ns := "org.acme"
  name := "Shelf"
  kind := some .concept
  fields := [baseOfShelf]

def part : TypeDecl where
  ns := "org.acme"
  name := "Part"
  kind := some .asset
  fields := [{ Field.data "id" (.primitive .string) with primary := true }]

def partInPlace : Field := .data "part" (.named "org.acme.Part")

def box : TypeDecl where
  ns := "org.acme"
  name := "Box"
  kind := some .concept
  fields := [.pointer "part" (.named "org.acme.Part"), partInPlace]

end Shop

def sales : Registry := (standard.register Shop.sale).register Shop.holder

def shelves : Registry :=
  (((standard.register Shop.base).register Shop.entry).register Shop.item).register Shop.shelf

def boxes : Registry := (standard.register Shop.part).register Shop.box

theorem not_onCycle_sales (name : String) : ¬ sales.OnCycle name :=
  not_onCycle_of_rank (fun _ => 0) (by decide) name

theorem not_onCycle_shelves (name : String) : ¬ shelves.OnCycle name :=
  not_onCycle_of_rank
    (fun n => if n = "org.acme.Item" then 2 else if n = entryName then 1 else 0) (by decide) name

theorem not_onCycle_boxes (name : String) : ¬ boxes.OnCycle name :=
  not_onCycle_of_rank (fun _ => 0) (by decide) name

theorem ancestors_item :
    shelves.ancestors "org.acme.Item" = [Shop.item, Shop.entry, Shop.base] := by
  have hbase : shelves.ancestors "org.acme.Base" = [Shop.base] := ancestors_of_root rfl rfl
  have hentry : shelves.ancestors entryName = [Shop.entry, Shop.base] := by
    rw [ancestors_of_parent (d := Shop.entry) rfl rfl (not_onCycle_shelves _), hbase]
  rw [ancestors_of_parent (d := Shop.item) rfl rfl (not_onCycle_shelves _), hentry]

theorem toJson_holder : Wire.toJson sales (.resource "org.acme.Holder"
    [("id", .string "h1"), ("sale", .resource "org.acme.Sale" [])]) =
      .error (.noKeyField "org.acme.Sale") := by
  have hmarked : sales.markedFields "org.acme.Holder" = Shop.holder.fields :=
    markedFields_of_root (d := Shop.holder) rfl rfl
  have hholder : Wire.toJson sales (.resource "org.acme.Holder"
      [("id", .string "h1"), ("sale", .null)]) =
        .ok (.object [("$class", .string "org.acme.Holder"), ("id", .string "h1"),
          ("sale", .null)]) :=
    Wire.toJson_of_root (x := ⟨"org.acme.Holder", _⟩) (d := Shop.holder) (k := .asset) rfl rfl rfl
      [("id", .string "h1"), ("sale", .null)] (.cons ⟨rfl, rfl⟩ (.cons ⟨rfl, rfl⟩ .nil))
  have hsale : Wire.encode sales (.resource "org.acme.Sale" []) Shop.saleOfHolder.isEmbedded =
      .error (.noKeyField "org.acme.Sale") := by
    refine (Wire.encode_toValue (x := ⟨"org.acme.Sale", []⟩) (c := Shop.sale) (k := .transaction)
      rfl rfl false).trans ?_
    rw [Wire.reference, primaryField?_of_root (d := Shop.sale) rfl rfl]
    rfl
  have hfield : Shop.saleOfHolder ∈ sales.wireFields "org.acme.Holder" := by
    rw [wireFields, hmarked]
    decide
  obtain ⟨q, -, -, hfill⟩ := Wire.exists_place_in_owner
    ⟨"org.acme.Holder", [("id", .string "h1"), ("sale", .null)]⟩ hfield .here hholder
  exact (hfill (.resource "org.acme.Sale" [])).trans (by rw [hsale]; rfl)

theorem toJson_shelf : Wire.toJson shelves (.resource "org.acme.Shelf"
    [("base", .resource "org.acme.Item" [("id", .string "i1")])]) =
      .ok (.object [("$class", .string "org.acme.Shelf"),
        ("base", .string "resource:org.acme.Item#i1")]) := by
  have hkey : shelves.primaryField? "org.acme.Item" = Shop.item.fields.head? := by
    rw [primaryField?, declaredFields, ancestors_item]
    rfl
  have hitem : Wire.encode shelves (.resource "org.acme.Item" [("id", .string "i1")]) false =
      .ok (.string "resource:org.acme.Item#i1") := by
    refine (Wire.encode_toValue (x := ⟨"org.acme.Item", _⟩) (c := Shop.item) (k := .asset) rfl rfl
      false).trans ?_
    rw [Wire.reference, hkey]
    rfl
  refine Wire.toJson_of_root (x := ⟨"org.acme.Shelf", _⟩) (d := Shop.shelf) (k := .concept) rfl rfl
    rfl [("base", .string "resource:org.acme.Item#i1")] (.cons ⟨rfl, ?_⟩ .nil)
  exact hitem

theorem toJson_box : Wire.toJson boxes (.resource "org.acme.Box"
    [("part", .resource "org.acme.Part" [("id", .string "p1")])]) =
      .ok (.object [("$class", .string "org.acme.Box"),
        ("part", .string "resource:org.acme.Part#p1")]) := by
  have hpart : Wire.encode boxes (.resource "org.acme.Part" [("id", .string "p1")]) false =
      .ok (.string "resource:org.acme.Part#p1") := by
    refine (Wire.encode_toValue (x := ⟨"org.acme.Part", _⟩) (c := Shop.part) (k := .asset) rfl rfl
      false).trans ?_
    rw [Wire.reference, primaryField?_of_root (d := Shop.part) rfl rfl]
    rfl
  refine Wire.toJson_of_root (x := ⟨"org.acme.Box", _⟩) (d := Shop.box) (k := .concept) rfl rfl rfl
    [("part", .string "resource:org.acme.Part#p1")] (.cons ⟨rfl, ?_⟩ .nil)
  exact hpart

/-- A pointer to a transaction is marked as a reference, but there is no reference to write. An
asset that is a concept by way of the map entry type is written as a reference where the field is
not marked as one. And so is one in a field behind a pointer of its name. -/
theorem marker_differs_from_wire :
    (∃ parts, sales.reflect [] = .ok parts ∧ (.asset, Shop.holder) ∈ sales.reflectedTypes [] ∧
      Shop.saleOfHolder ∈ Shop.holder.markedFields ∧
      sales.isAssignable "org.acme.Sale" "org.acme.Sale" = true ∧
      sales.primaryField? "org.acme.Sale" = none ∧
      (∃ s, sales.schemaField "org.acme.Holder" Shop.saleOfHolder = .ok s ∧
        s.line = "\t--> Sale sale \n") ∧
      Wire.toJson sales (.resource "org.acme.Holder"
        [("id", .string "h1"), ("sale", .resource "org.acme.Sale" [])]) =
          .error (.noKeyField "org.acme.Sale")) ∧
    (∃ parts, shelves.reflect [] = .ok parts ∧ (.concept, Shop.shelf) ∈ shelves.reflectedTypes [] ∧
      Shop.baseOfShelf ∈ Shop.shelf.markedFields ∧
      shelves.isAssignable "org.acme.Base" "org.acme.Item" = true ∧
      (∃ s, shelves.schemaField "org.acme.Shelf" Shop.baseOfShelf = .ok s ∧
        s.line = "\to Base base \n") ∧
      Wire.toJson shelves (.resource "org.acme.Shelf"
        [("base", .resource "org.acme.Item" [("id", .string "i1")])]) =
          .ok (.object [("$class", .string "org.acme.Shelf"),
            ("base", .string "resource:org.acme.Item#i1")])) ∧
    ∃ parts, boxes.reflect [] = .ok parts ∧ (.concept, Shop.box) ∈ boxes.reflectedTypes [] ∧
      Shop.partInPlace ∈ Shop.box.markedFields ∧
      boxes.isAssignable "org.acme.Part" "org.acme.Part" = true ∧
      (∃ s, boxes.schemaField "org.acme.Box" Shop.partInPlace = .ok s ∧
        s.line = "\to Part part \n") ∧
      Wire.toJson boxes (.resource "org.acme.Box"
        [("part", .resource "org.acme.Part" [("id", .string "p1")])]) =
          .ok (.object [("$class", .string "org.acme.Box"),
            ("part", .string "resource:org.acme.Part#p1")]) := by
  refine ⟨⟨_, reflect_eq_ok_iff.2 ⟨not_onCycle_sales, rfl⟩, by decide, by decide,
    isAssignable_self (d := Shop.sale) rfl, primaryField?_of_root (d := Shop.sale) rfl rfl,
    ⟨_, rfl, rfl⟩, toJson_holder⟩,
    ⟨_, reflect_eq_ok_iff.2 ⟨not_onCycle_shelves, rfl⟩, by decide, by decide, ?_, ⟨_, rfl, rfl⟩,
      toJson_shelf⟩,
    _, reflect_eq_ok_iff.2 ⟨not_onCycle_boxes, rfl⟩, by decide, by decide,
    isAssignable_self (d := Shop.part) rfl, ⟨_, rfl, rfl⟩, toJson_box⟩
  rw [isAssignable, ancestors_item]
  decide

end Registry

end LedgerSchema
