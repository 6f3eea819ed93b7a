import Mathlib
import LedgerSchema.Identifier
import LedgerSchema.Proofs.Outcome
import LedgerSchema.Proofs.Text.Layout
import LedgerSchema.Schema.Text

/-!
What the text of a part says, apart from how it is laid out: an outline of its namespace, imports
and entities. Outlines have texts of their own, and a text determines its outline unless names hold
blanks or what stands at the end of a line goes on to the next one.
-/

set_option autoImplicit false

namespace LedgerSchema

/-- A field as the text has it, with its modifiers as one text. -/
structure FieldOutline where
  reference : Bool
  label : String
  name : String
  optional : Bool
  modifiers : String
  deriving DecidableEq

inductive EntityOutline where
  | model (kind : Kind) (name : String) (clause : IdentityClause) (fields : List FieldOutline)
  | enum (name : String) (constants : List String)
  deriving DecidableEq

structure PartOutline where
  ns : String
  imports : List String
  entities : List EntityOutline
  deriving DecidableEq

/-! The layout of outlines. -/

namespace FieldOutline

def mark (f : FieldOutline) : String := if f.reference then "\t-->" else "\to"

def ending (f : FieldOutline) : String := (if f.optional then "optional " else "") ++ f.modifiers

def line (f : FieldOutline) : String :=
  f.mark ++ " " ++ (f.label ++ " " ++ (f.name ++ " " ++ f.ending))

end FieldOutline

def IdentityClause.words : IdentityClause → List String
  | .absent => []
  | .ownKey name => ["identified", "by", name]
  | .parent name => ["extends", name]

namespace EntityOutline

def head : EntityOutline → List String
  | .model kind name clause _ => kind.keyword :: name :: (clause.words ++ ["\x7b"])
  | .enum name _ => ["enum", name, "\x7b"]

def body : EntityOutline → List String
  | .model _ _ _ fields => fields.map (·.line)
  | .enum _ constants => constants.map ("\to " ++ ·)

def lines (e : EntityOutline) : List String := unwords e.head :: (e.body ++ ["\x7d"])

end EntityOutline

namespace PartOutline

def header (p : PartOutline) : List String :=
  ("namespace " ++ p.ns) :: p.imports.map ("import " ++ ·)

def text (p : PartOutline) : String := unblocks (p.header :: p.entities.map (·.lines))

end PartOutline

/-! Outlines that can be read from their texts. -/

/-- The label and the name are words, and the modifiers cannot be taken for the optional mark. -/
structure FieldOutline.Legible (f : FieldOutline) : Prop where
  label : IsWord f.label
  name : IsWord f.name
  modifiers : '\n' ∉ f.modifiers.toList
  notOptional : ¬ "optional ".toList <+: f.modifiers.toList

namespace EntityOutline

/-- The words of the head are words, and each line of the body is one line. -/
def Legible : EntityOutline → Prop
  | .model _ name clause fields =>
    (∀ word ∈ name :: clause.words, IsWord word) ∧ ∀ f ∈ fields, f.Legible
  | .enum name constants => IsWord name ∧ ∀ c ∈ constants, '\n' ∉ c.toList

end EntityOutline

structure PartOutline.Legible (p : PartOutline) : Prop where
  ns : '\n' ∉ p.ns.toList
  imports : ∀ name ∈ p.imports, '\n' ∉ name.toList
  entities : ∀ e ∈ p.entities, e.Legible

/-! Outlines whose names are identifiers, apart from the constants of enumerations. -/

structure FieldOutline.WellNamed (f : FieldOutline) : Prop where
  label : ∃ type, isIdentifier type.toList = true ∧ (f.label = type ∨ f.label = arrayLabel type)
  name : isIdentifier f.name.toList = true

def IdentityClause.WellNamed : IdentityClause → Prop
  | .absent => True
  | .ownKey name | .parent name => isIdentifier name.toList = true

namespace EntityOutline

def WellNamed : EntityOutline → Prop
  | .model _ name clause fields =>
    isIdentifier name.toList = true ∧ clause.WellNamed ∧ ∀ f ∈ fields, f.WellNamed
  | .enum name _ => isIdentifier name.toList = true

end EntityOutline

structure PartOutline.WellNamed (p : PartOutline) : Prop where
  ns : checkNamespace p.ns = .ok ()
  imports : ∀ name ∈ p.imports, ∃ ns simple, name = qualifiedName ns simple ∧
    checkNamespace ns = .ok () ∧ isIdentifier simple.toList = true
  entities : ∀ e ∈ p.entities, e.WellNamed

namespace FieldOutline

theorem isWord_mark (f : FieldOutline) : IsWord f.mark := by
  unfold mark
  split <;> exact ⟨by decide, by decide⟩

/-- What follows the name tells whether the field is optional. -/
theorem ending_inj {f g : FieldOutline} (hf : f.Legible) (hg : g.Legible) :
    f.ending = g.ending ↔ f.optional = g.optional ∧ f.modifiers = g.modifiers := by
  have hne {f : FieldOutline} (hf : f.Legible) (s : String) : f.modifiers ≠ "optional " ++ s := by
    intro h
    refine hf.notOptional ?_
    rw [h, String.toList_append]
    exact List.prefix_append _ _
  unfold ending
  cases f.optional <;> cases g.optional <;> simp [hne hf, (hne hg _).symm]

theorem line_inj {f g : FieldOutline} (hf : f.Legible) (hg : g.Legible) :
    f.line = g.line ↔ f = g := by
  refine ⟨fun h => ?_, fun h => h ▸ rfl⟩
  obtain ⟨hmark, h⟩ := (append_blank_inj f.isWord_mark g.isWord_mark).1 h
  obtain ⟨hlabel, h⟩ := (append_blank_inj hf.label hg.label).1 h
  obtain ⟨hname, h⟩ := (append_blank_inj hf.name hg.name).1 h
  obtain ⟨hoptional, hmodifiers⟩ := (ending_inj hf hg).1 h
  have hreference : f.reference = g.reference := by
    unfold mark at hmark
    cases hf : f.reference <;> cases hg : g.reference <;> simp [hf, hg] at hmark ⊢
  cases f
  cases g
  simp_all

theorem isLine_line {f : FieldOutline} (h : f.Legible) : IsLine f.line := by
  have hmark : IsLine (f.mark ++ " ") := by
    unfold mark
    split <;> exact ⟨by decide, by decide⟩
  have hoptional : '\n' ∉ (if f.optional then "optional " else "").toList := by
    split <;> decide
  refine hmark.append ?_
  simp [ending, h.label.newline, h.name.newline, h.modifiers, hoptional]

end FieldOutline

theorem Kind.keyword_inj {k k' : Kind} : k.keyword = k'.keyword ↔ k = k' := by
  cases k <;> cases k' <;> decide

theorem Kind.isWord_keyword (k : Kind) : IsWord k.keyword := by
  cases k <;> exact ⟨by decide, by decide⟩

theorem Kind.keyword_ne_enum (k : Kind) : k.keyword ≠ "enum" := by
  cases k <;> decide

theorem IdentityClause.words_inj {c c' : IdentityClause} : c.words = c'.words ↔ c = c' := by
  cases c <;> cases c' <;> simp [words]

namespace EntityOutline

theorem isWord_head {e : EntityOutline} (h : e.Legible) : ∀ word ∈ e.head, IsWord word := by
  have hbrace : IsWord "\x7b" := ⟨by decide, by decide⟩
  cases e with
  | model kind name clause fields =>
    obtain ⟨hwords, -⟩ := h
    rw [List.forall_mem_cons] at hwords
    simp only [head, List.forall_mem_cons, List.forall_mem_append]
    exact ⟨kind.isWord_keyword, hwords.1, hwords.2, hbrace, by simp⟩
  | enum name constants =>
    simp only [head, List.forall_mem_cons]
    exact ⟨⟨by decide, by decide⟩, h.1, hbrace, by simp⟩

theorem head_ne_nil (e : EntityOutline) : e.head ≠ [] := by
  cases e <;> simp [head]

/-- The head tells models from enumerations. -/
theorem lines_inj {e e' : EntityOutline} (h : e.Legible) (h' : e'.Legible) :
    e.lines = e'.lines ↔ e = e' := by
  refine ⟨fun heq => ?_, fun heq => heq ▸ rfl⟩
  obtain ⟨hhead, hbody⟩ := List.cons.inj heq
  rw [unwords_inj (isWord_head h) (isWord_head h') e.head_ne_nil e'.head_ne_nil] at hhead
  rw [List.append_cancel_right_eq] at hbody
  cases e with
  | model kind name clause fields =>
    cases e' with
    | model kind' name' clause' fields' =>
      simp only [head, List.cons.injEq, List.append_cancel_right_eq, Kind.keyword_inj,
        IdentityClause.words_inj] at hhead
      obtain ⟨rfl, rfl, rfl⟩ := hhead
      rw [(map_inj_on fun f hf g hg => (FieldOutline.line_inj (h.2 f hf) (h'.2 g hg)).1).1 hbody]
    | enum name' constants' => exact absurd (List.cons.inj hhead).1 kind.keyword_ne_enum
  | enum name constants =>
    cases e' with
    | model kind' name' clause' fields' =>
      exact absurd (List.cons.inj hhead).1.symm kind'.keyword_ne_enum
    | enum name' constants' =>
      simp only [head, List.cons.injEq, and_true, true_and] at hhead
      obtain rfl := hhead
      rw [(map_inj_on fun c _ d _ => (String.append_right_inj "\to ").1).1 hbody]

theorem isLine_head {e : EntityOutline} (h : e.Legible) : IsLine (unwords e.head) := by
  refine ⟨?_, newline_not_mem_unwords (isWord_head h)⟩
  cases e <;> simp [head, unwords_cons_cons]

theorem isLine_body {e : EntityOutline} (h : e.Legible) : ∀ line ∈ e.body, IsLine line := by
  cases e with
  | model kind name clause fields =>
    exact List.forall_mem_map.2 fun f hf => FieldOutline.isLine_line (h.2 f hf)
  | enum name constants =>
    have hmark : IsLine "\to " := ⟨by decide, by decide⟩
    exact List.forall_mem_map.2 fun c hc => hmark.append (h.2 c hc)

theorem isLine_lines {e : EntityOutline} (h : e.Legible) : ∀ line ∈ e.lines, IsLine line := by
  have hbrace : IsLine "\x7d" := ⟨by decide, by decide⟩
  simp only [lines, List.forall_mem_cons, List.forall_mem_append]
  exact ⟨isLine_head h, isLine_body h, hbrace, by simp⟩

end EntityOutline

namespace PartOutline

theorem isLine_header {p : PartOutline} (h : p.Legible) : ∀ line ∈ p.header, IsLine line := by
  have hnamespace : IsLine "namespace " := ⟨by decide, by decide⟩
  have himport : IsLine "import " := ⟨by decide, by decide⟩
  rw [header, List.forall_mem_cons]
  exact ⟨hnamespace.append h.ns,
    List.forall_mem_map.2 fun name hname => himport.append (h.imports name hname)⟩

theorem isLine_blocks {p : PartOutline} (h : p.Legible) :
    ∀ block ∈ p.header :: p.entities.map (·.lines), ∀ line ∈ block, IsLine line :=
  List.forall_mem_cons.2 ⟨isLine_header h,
    List.forall_mem_map.2 fun e he => EntityOutline.isLine_lines (h.entities e he)⟩

theorem text_inj {p q : PartOutline} (hp : p.Legible) (hq : q.Legible) :
    p.text = q.text ↔ p = q := by
  refine ⟨fun h => ?_, fun h => h ▸ rfl⟩
  rw [text, text, unblocks_inj (isLine_blocks hp) (isLine_blocks hq) (by simp) (by simp)] at h
  obtain ⟨hheader, hentities⟩ := List.cons.inj h
  obtain ⟨hns, himports⟩ := List.cons.inj hheader
  rw [map_inj_on fun e he e' he' =>
    (EntityOutline.lines_inj (hp.entities e he) (hq.entities e' he')).1] at hentities
  rw [map_inj_on fun a _ b _ => (String.append_right_inj "import ").1] at himports
  rw [String.append_right_inj] at hns
  cases p
  cases q
  simp_all

end PartOutline

end LedgerSchema
