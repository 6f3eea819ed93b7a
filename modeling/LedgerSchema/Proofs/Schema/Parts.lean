import Mathlib
import LedgerSchema.Schema.Reflection

/-!
Parts as one list of entities: whatever the order in which parts are made and changed, each holds
the entities of its namespace in the order in which they were added.
-/

set_option autoImplicit false

namespace LedgerSchema

namespace SchemaEntity

def ns : SchemaEntity → String
  | .model m => m.ns
  | .enum e => e.ns

def key (e : SchemaEntity) : String × String := (e.ns, e.name)

def qualifiedName (e : SchemaEntity) : String := LedgerSchema.qualifiedName e.ns e.name

theorem qualifiedName_eq_of_key_eq {e e' : SchemaEntity} (h : e.key = e'.key) :
    e.qualifiedName = e'.qualifiedName := by
  obtain ⟨hns, hname⟩ := Prod.mk.inj h
  rw [qualifiedName, qualifiedName, hns, hname]

theorem model?_eq_some_iff {e : SchemaEntity} {m : Model} : e.model? = some m ↔ e = .model m := by
  cases e <;> simp [model?]

theorem enum?_eq_some_iff {e : SchemaEntity} {x : EnumDecl} : e.enum? = some x ↔ e = .enum x := by
  cases e <;> simp [enum?]

theorem mem_filterMap_model?_iff {entities : List SchemaEntity} {m : Model} :
    m ∈ entities.filterMap (·.model?) ↔ .model m ∈ entities := by
  simp [model?_eq_some_iff]

end SchemaEntity

/-- The parts hold exactly the given entities, each in the part of its namespace. -/
structure PartsHold (parts : List Part) (entities : List SchemaEntity) : Prop where
  nodup : (parts.map (·.ns)).Nodup
  entities_eq : ∀ p ∈ parts, p.entities = entities.filter (·.ns = p.ns)
  covered : ∀ e ∈ entities, ∃ p ∈ parts, p.ns = e.ns

theorem part?_eq_none_iff {parts : List Part} {ns : String} :
    part? parts ns = none ↔ ∀ p ∈ parts, p.ns ≠ ns := by
  simp [part?, List.find?_eq_none]

theorem part?_eq_some {parts : List Part} {ns : String} {p : Part} (h : part? parts ns = some p) :
    p ∈ parts ∧ p.ns = ns :=
  ⟨List.mem_of_find?_eq_some h, by simpa using List.find?_some h⟩

theorem map_ns_updatePart {ns : String} {change : Part → Part}
    (hchange : ∀ p, p.ns = ns → (change p).ns = ns) (parts : List Part) :
    (updatePart ns change parts).map (·.ns) =
      if ns ∈ parts.map (·.ns) then parts.map (·.ns) else parts.map (·.ns) ++ [ns] := by
  induction parts with
  | nil => simp [updatePart, hchange (.empty ns) rfl]
  | cons p rest ih =>
    rw [updatePart]
    by_cases hp : p.ns = ns
    · simp [hp, hchange p hp]
    · have hmem : ns ∈ p.ns :: rest.map (·.ns) ↔ ns ∈ rest.map (·.ns) := by
        rw [List.mem_cons, or_iff_right (Ne.symm hp)]
      rw [if_neg hp, List.map_cons, ih]
      simp only [List.map_cons, hmem, apply_ite (p.ns :: ·), List.cons_append]

theorem mem_updatePart_iff {ns : String} {change : Part → Part} {parts : List Part}
    (hnodup : (parts.map (·.ns)).Nodup) {p : Part} :
    p ∈ updatePart ns change parts ↔
      p ∈ parts ∧ p.ns ≠ ns ∨ p = change ((part? parts ns).getD (.empty ns)) := by
  induction parts with
  | nil => simp [updatePart, part?]
  | cons q rest ih =>
    rw [List.map_cons, List.nodup_cons] at hnodup
    rw [updatePart]
    by_cases hq : q.ns = ns
    · have hrest : ∀ p ∈ rest, p.ns ≠ ns := by
        rintro p hp rfl
        exact hnodup.1 (hq ▸ List.mem_map_of_mem hp)
      have hfind : part? (q :: rest) ns = some q := List.find?_cons_of_pos (by simpa using hq)
      rw [if_pos hq, hfind, Option.getD_some, List.mem_cons, List.mem_cons]
      constructor
      · rintro (rfl | hp)
        · exact .inr rfl
        · exact .inl ⟨.inr hp, hrest p hp⟩
      · rintro (⟨rfl | hp, hne⟩ | rfl)
        · exact absurd hq hne
        · exact .inr hp
        · exact .inl rfl
    · have hfind : part? (q :: rest) ns = part? rest ns :=
        List.find?_cons_of_neg (by simpa using hq)
      rw [if_neg hq, List.mem_cons, ih hnodup.2, hfind, List.mem_cons]
      constructor
      · rintro (rfl | ⟨hp, hne⟩ | rfl)
        · exact .inl ⟨.inl rfl, hq⟩
        · exact .inl ⟨.inr hp, hne⟩
        · exact .inr rfl
      · rintro (⟨rfl | hp, hne⟩ | rfl)
        · exact .inl rfl
        · exact .inr (.inl ⟨hp, hne⟩)
        · exact .inr (.inr rfl)

theorem mem_map_ns_updatePart_iff {ns : String} {change : Part → Part}
    (hchange : ∀ p, p.ns = ns → (change p).ns = ns) {parts : List Part} {other : String} :
    other ∈ (updatePart ns change parts).map (·.ns) ↔
      other ∈ parts.map (·.ns) ∨ other = ns := by
  rw [map_ns_updatePart hchange]
  split
  · rename_i hmem
    refine (or_iff_left_of_imp ?_).symm
    rintro rfl
    exact hmem
  · rw [List.mem_append, List.mem_singleton]

theorem forall_updatePart {P : Part → Prop} {ns : String} {change : Part → Part}
    (hempty : P (.empty ns)) (hchange : ∀ p, p.ns = ns → P p → P (change p)) {parts : List Part}
    (h : ∀ p ∈ parts, P p) : ∀ p ∈ updatePart ns change parts, P p := by
  induction parts with
  | nil => exact List.forall_mem_singleton.2 (hchange _ rfl hempty)
  | cons q rest ih =>
    obtain ⟨hq, hrest⟩ := List.forall_mem_cons.1 h
    rw [updatePart]
    split
    · rename_i hns
      exact List.forall_mem_cons.2 ⟨hchange q hns hq, hrest⟩
    · exact List.forall_mem_cons.2 ⟨hq, ih hrest⟩

namespace PartsHold

variable {parts : List Part} {entities : List SchemaEntity}

theorem nil : PartsHold [] [] := ⟨List.nodup_nil, by simp, by simp⟩

theorem entities_getD (h : PartsHold parts entities) (ns : String) :
    ((part? parts ns).getD (.empty ns)).ns = ns ∧
      ((part? parts ns).getD (.empty ns)).entities = entities.filter (·.ns = ns) := by
  cases hpart : part? parts ns with
  | some p =>
    obtain ⟨hp, rfl⟩ := part?_eq_some hpart
    exact ⟨rfl, h.entities_eq p hp⟩
  | none =>
    refine ⟨rfl, (List.filter_eq_nil_iff.2 fun e he => ?_).symm⟩
    obtain ⟨p, hp, hns⟩ := h.covered e he
    rw [decide_eq_true_eq, ← hns]
    exact part?_eq_none_iff.1 hpart p hp

/-- Adding entities to the part of their namespace. -/
theorem update (h : PartsHold parts entities) {ns : String} {change : Part → Part}
    {added : List SchemaEntity} (hadded : ∀ e ∈ added, e.ns = ns)
    (hns : ∀ p, p.ns = ns → (change p).ns = ns)
    (hchange : ∀ p, p.ns = ns → p.entities = entities.filter (·.ns = ns) →
      (change p).entities = p.entities ++ added) :
    PartsHold (updatePart ns change parts) (entities ++ added) := by
  obtain ⟨hown, hentities⟩ := h.entities_getD ns
  have hsame : added.filter (·.ns = ns) = added :=
    List.filter_eq_self.2 fun e he => decide_eq_true (hadded e he)
  refine ⟨?_, fun p hp => ?_, fun e he => ?_⟩
  · rw [map_ns_updatePart hns]
    split
    · exact h.nodup
    · rename_i hmem
      exact (List.nodup_append_comm).1 (List.nodup_cons.2 ⟨hmem, h.nodup⟩)
  · rcases (mem_updatePart_iff h.nodup).1 hp with ⟨hp, hne⟩ | rfl
    · have hnone : added.filter (·.ns = p.ns) = [] :=
        List.filter_eq_nil_iff.2 fun e he => by simpa [hadded e he] using hne.symm
      rw [List.filter_append, hnone, List.append_nil, h.entities_eq p hp]
    · rw [hchange _ hown hentities, hns _ hown, List.filter_append, hsame, hentities]
  · rcases List.mem_append.1 he with he | he
    · obtain ⟨p, hp, hpe⟩ := h.covered e he
      by_cases hne : p.ns = ns
      · refine ⟨_, (mem_updatePart_iff h.nodup).2 (.inr rfl), ?_⟩
        rw [hns _ hown, ← hne, hpe]
      · exact ⟨p, (mem_updatePart_iff h.nodup).2 (.inl ⟨hp, hne⟩), hpe⟩
    · refine ⟨_, (mem_updatePart_iff h.nodup).2 (.inr rfl), ?_⟩
      rw [hns _ hown, hadded e he]

theorem any_contains (h : PartsHold parts entities) (ns name : String) :
    (part? parts ns).any (·.contains name) = true ↔
      ∃ e ∈ entities, e.ns = ns ∧ e.name = name := by
  cases hpart : part? parts ns with
  | some p =>
    obtain ⟨hp, rfl⟩ := part?_eq_some hpart
    simp [Part.contains, h.entities_eq p hp]
  | none =>
    have hnone := part?_eq_none_iff.1 hpart
    simp only [Option.any_none, Bool.false_eq_true, false_iff, not_exists, not_and]
    intro e he hns
    obtain ⟨p, hp, hpe⟩ := h.covered e he
    exact absurd (hpe.trans hns) (hnone p hp)

theorem mem_iff (h : PartsHold parts entities) {e : SchemaEntity} :
    (∃ p ∈ parts, e ∈ p.entities) ↔ e ∈ entities := by
  constructor
  · rintro ⟨p, hp, he⟩
    rw [h.entities_eq p hp] at he
    exact List.mem_of_mem_filter he
  · intro he
    obtain ⟨p, hp, hns⟩ := h.covered e he
    exact ⟨p, hp, by simp [h.entities_eq p hp, he, hns]⟩

theorem ns_eq (h : PartsHold parts entities) {p : Part} (hp : p ∈ parts) {e : SchemaEntity}
    (he : e ∈ p.entities) : e.ns = p.ns := by
  rw [h.entities_eq p hp] at he
  simpa using List.of_mem_filter he

theorem nodup_names (h : PartsHold parts entities)
    (hnodup : (entities.map SchemaEntity.key).Nodup) {p : Part} (hp : p ∈ parts) :
    (p.entities.map (·.name)).Nodup := by
  have hkeys : (p.entities.map SchemaEntity.key).Nodup := by
    rw [h.entities_eq p hp]
    exact hnodup.sublist (List.filter_sublist.map _)
  refine List.Nodup.map_on (fun e he e' he' hname => ?_) (.of_map _ hkeys)
  have hkey : e.key = e'.key := by
    rw [SchemaEntity.key, SchemaEntity.key, h.ns_eq hp he, h.ns_eq hp he', hname]
  exact List.inj_on_of_nodup_map hkeys he he' hkey

/-- Taken together, the parts are the list of entities in another order. -/
theorem perm (h : PartsHold parts entities) (hnodup : entities.Nodup) :
    (parts.flatMap (·.entities)).Perm entities := by
  refine (List.perm_ext_iff_of_nodup (List.nodup_flatMap.2 ⟨fun p hp => ?_, ?_⟩) hnodup).2
    fun e => List.mem_flatMap.trans h.mem_iff
  · rw [h.entities_eq p hp]
    exact hnodup.filter _
  · refine (List.pairwise_map.1 h.nodup).imp_of_mem fun {p q} hp hq hne e he he' => ?_
    exact hne ((h.ns_eq hp he).symm.trans (h.ns_eq hq he'))

end PartsHold

end LedgerSchema
