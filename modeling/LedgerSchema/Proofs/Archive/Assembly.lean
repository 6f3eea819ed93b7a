import Mathlib
import LedgerSchema.Proofs.Archive.Writer
import LedgerSchema.Proofs.KeyMap
import LedgerSchema.Proofs.Schema.Exclusion
import LedgerSchema.Proofs.Schema.Queries
import LedgerSchema.Proofs.Schema.WrittenNames

/-!
Assembling the archive of a loaded registry. All parts are known before the first one is written,
and then nothing can fail any more: every part has a text, and the file names are short and differ.
-/

set_option autoImplicit false

namespace LedgerSchema

/-- The file of a part of an archive: its name and its text. -/
structure NetworkPart.FileOf (p : NetworkPart) (file : String × String) : Prop where
  name_eq : file.1 = p.fileName
  text_eq : p.text = .ok file.2

namespace ArchiveWriter

variable {σ : Type} {c : Container σ} {w : ArchiveWriter σ} {a : Archive}

theorem Represents.addPart (hc : c.Lawful) (h : Represents c w a) {p : NetworkPart}
    {file : String × String} (hfile : p.FileOf file) (hname : p.fileName ∉ a.names)
    (hbytes : p.fileName.utf8ByteSize ≤ Archive.maxNameBytes) :
    ∃ w', w.addPart c p.toArchivePart = (w', .ok ()) ∧ Represents c w' ⟨a.entries ++ [file]⟩ := by
  obtain ⟨name, text⟩ := file
  obtain rfl : name = p.fileName := hfile.name_eq
  have htext : p.toArchivePart.text = .ok text := by
    rw [NetworkPart.toArchivePart, hfile.text_eq]
    rfl
  have hadd := h.addEntry hc p.fileName text
  rw [Archive.add_eq_ok_iff.2 ⟨hname, hbytes, rfl⟩] at hadd
  obtain ⟨hresult, hnext⟩ := hadd
  refine ⟨_, ?_, hnext⟩
  rw [ArchiveWriter.addPart, htext]
  exact Prod.ext rfl hresult

theorem Represents.addParts (hc : c.Lawful) (h : Represents c w a) {parts : List NetworkPart}
    {files : List (String × String)} (hfiles : List.Forall₂ NetworkPart.FileOf parts files)
    (hnodup : (parts.map (·.fileName)).Nodup) (hnew : ∀ p ∈ parts, p.fileName ∉ a.names)
    (hbytes : ∀ p ∈ parts, p.fileName.utf8ByteSize ≤ Archive.maxNameBytes) :
    ∃ w', w.addParts c (parts.map (·.toArchivePart)) = (w', .ok ()) ∧
      Represents c w' ⟨a.entries ++ files⟩ := by
  induction hfiles generalizing w a with
  | nil => exact ⟨w, rfl, by rwa [List.append_nil]⟩
  | @cons p file parts files hfile _ ih =>
    rw [List.map_cons, List.nodup_cons] at hnodup
    obtain ⟨hname, hnames⟩ := List.forall_mem_cons.1 hnew
    obtain ⟨hshort, hbytes⟩ := List.forall_mem_cons.1 hbytes
    obtain ⟨w₁, hadd, hw₁⟩ := h.addPart hc hfile hname hshort
    have hnext : ∀ q ∈ parts, q.fileName ∉ (⟨a.entries ++ [file]⟩ : Archive).names := by
      intro q hq hmem
      rw [Archive.names, List.map_append, List.mem_append, List.map_singleton,
        List.mem_singleton, hfile.name_eq] at hmem
      rcases hmem with hmem | hmem
      · exact hnames q hq hmem
      · exact hnodup.1 (hmem ▸ List.mem_map_of_mem hq)
    obtain ⟨w₂, hrest, hw₂⟩ := ih hw₁ hnodup.2 hnext hbytes
    refine ⟨w₂, ?_, by rwa [List.append_assoc, List.singleton_append] at hw₂⟩
    rw [List.map_cons, ArchiveWriter.addParts, hadd]
    exact hrest

end ArchiveWriter

namespace Part

end Part

section Loaded

variable {doc : Document} {loaded : Document.Loaded} {excluded : List String} {schema : List Part}

theorem checkNamespace_of_reflect (hload : doc.load = .ok loaded)
    (h : loaded.registry.reflect excluded = .ok schema) {p : Part} (hp : p ∈ schema) :
    checkNamespace p.ns = .ok () := by
  obtain ⟨t, ht, hns | ⟨f, -, hdeclares⟩⟩ :=
    (Registry.mem_ns_reflect_iff h).1 (List.mem_map_of_mem hp)
  · rw [← hns]
    exact Document.checkNamespace_type_of_load hload (Registry.mem_reflectedTypes_iff.1 ht).1
  · rcases hdeclares with ⟨name, e, -, he, hns⟩ | ⟨hns, -⟩
    · rw [← hns]
      exact Document.checkNamespace_enum_of_load hload
        (List.mem_of_find?_eq_some (Registry.resolve_eq_enum_iff.1 he).2)
    · rw [hns]
      decide

end Loaded

end LedgerSchema
