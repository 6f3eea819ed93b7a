import Mathlib
import LedgerSchema.Proofs.Schema.Rendering

/-!
The names that the text of a part has. The text is made of the outline of the part, and the names of
the outline have passed the checks of the document. The constants of enumerations have not: they are
written as the document declares them, whatever they are.
-/

set_option autoImplicit false

namespace LedgerSchema

namespace Registry

/-- The text of a part of the schema of a loaded registry is that of its outline, where namespaces
are proper ones and all other names are identifiers; the enumerations have the constants that the
document declares. -/
theorem names_of_part {doc : Document} {loaded : Document.Loaded} {excluded : List String}
    {parts : List Part} (hload : doc.load = .ok loaded)
    (h : loaded.registry.reflect excluded = .ok parts) {p : Part} (hp : p ∈ parts) :
    p.text = .ok p.outline.text ∧ p.outline.WellNamed ∧
      ∀ name constants, EntityOutline.enum name constants ∈ p.outline.entities →
        ⟨p.ns, name, constants⟩ ∈ doc.enums := by
  have hbuilt := Document.built_of_load hload
  refine ⟨text_eq_outline hbuilt h hp, wellNamed_outline hload h hp, ?_⟩
  intro name constants henum
  obtain ⟨e, he, heq⟩ := List.mem_map.1 henum
  cases e with
  | model m => cases heq
  | enum e =>
    obtain ⟨rfl, rfl⟩ := EntityOutline.enum.inj heq
    obtain ⟨hmem, hns⟩ := mem_enums_of_reflect hbuilt h hp he
    obtain ⟨-, rfl⟩ := Document.load_eq_ok_iff.1 hload
    rw [← hns]
    exact Document.mem_enums_toRegistry hmem

theorem names_of_garage_part : ∃ loaded parts, garageDocument.load = .ok loaded ∧
    loaded.registry.reflect [] = .ok parts ∧ ∃ p ∈ parts,
      .enum "Colour" ["RED", "BLUE"] ∈ p.outline.entities ∧ p.outline.WellNamed := by
  have hload : garageDocument.load = .ok ⟨garage, garageDocument.warnings⟩ :=
    Document.load_eq_ok_iff.2 ⟨by decide, rfl⟩
  obtain ⟨parts, hparts, p, hp, hcolour⟩ : ∃ parts, garage.reflect [] = .ok parts ∧
      ∃ p ∈ parts, .enum "Colour" ["RED", "BLUE"] ∈ p.outline.entities :=
    ⟨_, reflect_eq_ok_iff.2 ⟨not_onCycle_garage, rfl⟩, by decide⟩
  exact ⟨_, parts, hload, hparts, p, hp, hcolour, (names_of_part hload hparts hp).2.1⟩

namespace Forgery

def door : TypeDecl where
  ns := "org.acme"
  name := "Door"
  kind := some .concept
  fields := [.data "colour" (.named "org.acme.Colour")]

/-- A constant that ends its block and begins another one. -/
def constant : String := "RED\n\x7d\n\nconcept Forged \x7b"

def document : Document where
  types := [door]
  enums := [⟨"org.acme", "Colour", [constant]⟩]

end Forgery

theorem not_onCycle_forgery (name : String) : ¬ Forgery.document.toRegistry.OnCycle name :=
  not_onCycle_of_rank (fun _ => 0) (by decide) name

/-- The text of the part has the block of a concept that no document declares. -/
theorem constant_forges_block : ∃ loaded parts, Forgery.document.load = .ok loaded ∧
    loaded.registry.reflect [] = .ok parts ∧ isIdentifier Forgery.constant.toList = false ∧
    parts.map (·.text) = [.ok ("namespace org.acme\n\n" ++
      "enum Colour \x7b\n\to RED\n\x7d\n\n" ++ "concept Forged \x7b\n\x7d\n\n" ++
      "concept Door \x7b\n\to Colour colour \n\x7d\n")] := by
  refine ⟨_, _, Document.load_eq_ok_iff.2 ⟨by decide, rfl⟩,
    reflect_eq_ok_iff.2 ⟨not_onCycle_forgery, rfl⟩, by decide, ?_⟩
  decide

end Registry

end LedgerSchema
