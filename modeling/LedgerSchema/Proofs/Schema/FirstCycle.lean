import Mathlib
import LedgerSchema.Proofs.Registry.Agreement
import LedgerSchema.Proofs.Registry.Components
import LedgerSchema.Proofs.Schema.Legality

/-!
Which cycle is reported first. Cycles are reported in the order of the earliest types whose walks
enter them, so a registry without a schema for that reason gets the path of the cycle that the
earliest type enters of those whose walks enter any.
-/

set_option autoImplicit false

namespace LedgerSchema

open Relation

universe u v

theorem pairwise_eraseDups_filterMap {α : Type u} {β : Type v} [BEq β] [LawfulBEq β]
    (f : α → Option β) (l : List α) :
    (l.filterMap f).eraseDups.Pairwise fun p q => ∃ before a after,
      l = before ++ a :: after ∧ f a = some p ∧ ∀ b ∈ before ++ [a], f b ≠ some q := by
  induction l using List.reverseRecOn with
  | nil => simp
  | append_singleton l a ih =>
    rw [List.filterMap_append, List.eraseDups_append, List.pairwise_append]
    refine ⟨ih.imp ?_, ?_, ?_⟩
    · rintro p q ⟨before, b, after, rfl, hb, hbefore⟩
      exact ⟨before, b, after ++ [a], by simp, hb, hbefore⟩
    · cases hfa : f a with
      | none => simp [hfa]
      | some p =>
        simp only [List.filterMap_cons, hfa, List.filterMap_nil, List.cons_removeAll,
          List.nil_removeAll]
        split <;> simp [List.eraseDups_cons]
    · intro p hp q hq
      obtain ⟨b, hb, hfb⟩ := List.mem_filterMap.1 (List.mem_eraseDups.1 hp)
      obtain ⟨before, after, rfl⟩ := List.append_of_mem hb
      refine ⟨before, b, after ++ [a], by simp, hfb, ?_⟩
      intro c hc hfc
      have hnew : q ∉ (before ++ b :: after).filterMap f := by
        have hq := List.mem_eraseDups.1 hq
        rw [List.removeAll, List.mem_filter] at hq
        simpa using hq.2
      refine hnew (List.mem_filterMap.2 ⟨c, ?_, hfc⟩)
      simp only [List.mem_append, List.mem_cons, List.not_mem_nil, or_false] at hc ⊢
      tauto

/-! Errors about cycles come from the check for cycles only. -/

def NoCycleError {α : Type} (x : Except SchemaError α) : Prop :=
  ∀ path, x ≠ .error (.inheritanceCycle path)

namespace NoCycleError

variable {α β : Type}

theorem ok (a : α) : NoCycleError (.ok a) := fun _ h => by cases h

theorem error {e : SchemaError} (he : ∀ path, e ≠ .inheritanceCycle path) :
    NoCycleError (.error e : Except SchemaError α) := by
  intro path h
  exact he path (Except.error.inj h)

theorem map {x : Except SchemaError α} (hx : NoCycleError x) (f : α → β) :
    NoCycleError (x.map f) := by
  intro path h
  cases x with
  | error e => exact hx path (congrArg Except.error (Except.error.inj h))
  | ok a => cases h

theorem bind {x : Except SchemaError α} (hx : NoCycleError x) {f : α → Except SchemaError β}
    (hf : ∀ a, NoCycleError (f a)) : NoCycleError (x >>= f) := by
  intro path h
  cases x with
  | error e => exact hx path (congrArg Except.error (Except.error.inj h))
  | ok a => exact hf a path h

theorem foldlM {step : β → α → Except SchemaError β} (hstep : ∀ b a, NoCycleError (step b a))
    (l : List α) (b : β) : NoCycleError (l.foldlM step b) := by
  induction l generalizing b with
  | nil => exact .ok b
  | cons a l ih =>
    rw [List.foldlM_cons]
    exact (hstep b a).bind ih

end NoCycleError

theorem Model.noCycleError_withField (m : Model) (f : SchemaField) (primary : Bool) :
    NoCycleError (m.withField f primary) := by
  unfold withField addField
  split_ifs
  · exact .error (by simp)
  · exact .error (by simp)
  · cases m.key with
    | none => exact .ok _
    | some key => exact .error (by simp)
  · exact .ok _

theorem Model.noCycleError_validate (m : Model) : NoCycleError m.validate := by
  unfold validate
  split_ifs
  · exact .error (by simp)
  · exact .ok _

namespace Registry

variable {r : Registry}

theorem noCycleError_target (r : Registry) (field name : String) :
    NoCycleError (r.target field name) := by
  unfold target
  split
  · exact .ok _
  · split
    · split_ifs
      · exact .ok _
      · exact .error (by simp)
    · exact .error (by simp)
  · exact .error (by simp)

theorem noCycleError_fieldShape (r : Registry) (field : String) (type : FieldType)
    (element : Option FieldType) : NoCycleError (r.fieldShape field type element) := by
  have hnamed (name : String) (label : String) : NoCycleError
      ((r.target field name).map fun t => (label, some t)) :=
    (r.noCycleError_target field name).map _
  unfold fieldShape
  split
  · exact .ok _
  · exact .ok _
  · exact hnamed _ _
  · exact .error (by simp)
  · exact .ok _
  · exact hnamed _ _
  · split
    · exact .error (by simp)
    · exact .error (by simp)
    · exact .ok _
    · exact hnamed _ _
    · exact .error (by simp)

theorem noCycleError_modelParent (r : Registry) (d : TypeDecl) (kind : Kind) :
    NoCycleError (r.modelParent d kind) := by
  unfold modelParent
  split
  · exact .ok _
  · split
    · split_ifs
      · exact .ok _
      · exact .error (by simp)
    · exact .error (by simp)

theorem noCycleError_model (r : Registry) (kind : Kind) (d : TypeDecl) :
    NoCycleError (r.model kind d) := by
  refine (r.noCycleError_modelParent d kind).bind fun parent => ?_
  refine (NoCycleError.foldlM (fun m f => ?_) _ _).bind fun m => ?_
  · refine ((r.noCycleError_fieldShape _ _ _).map _).bind fun field => ?_
    exact m.noCycleError_withField field f.isPrimary
  · exact m.noCycleError_validate.bind fun _ => .ok m

theorem reflect_eq_cycle_iff {excluded : List String} {path : List String} :
    r.reflect excluded = .error (.inheritanceCycle path) ↔
      r.checkCycles = .error (.inheritanceCycle path) := by
  unfold reflect
  cases r.checkCycles with
  | error e => simp [Bind.bind, Except.bind]
  | ok _ =>
    have hrun : NoCycleError ((r.reflectedTypes excluded).foldlM
        (fun parts t => r.reflectType parts t.1 t.2) []) := by
      refine .foldlM (fun parts t => ?_) _ _
      exact (r.noCycleError_model t.1 t.2).bind fun m => .ok _
    simp [Bind.bind, Except.bind, hrun path]

/-- The earliest type whose walk enters the first cycle comes before all that enter the second. -/
def EnteredBefore (r : Registry) (path path' : List String) : Prop :=
  ∃ before d after, r.types = before ++ d :: after ∧ r.Enters d.qualifiedName path ∧
    ∀ e ∈ before ++ [d], ¬ r.Enters e.qualifiedName path'

/-- The path of the cycle that the earliest type enters of those whose walks enter any. -/
structure FirstEntered (r : Registry) (path : List String) : Prop where
  isCyclePath : r.IsCyclePath path
  first : ∃ before d after, r.types = before ++ d :: after ∧ r.Enters d.qualifiedName path ∧
    ∀ e ∈ before, ∀ path', r.IsCyclePath path' → ¬ r.Enters e.qualifiedName path'

theorem pairwise_cycles (r : Registry) : r.cycles.Pairwise r.EnteredBefore := by
  have hpairwise := pairwise_eraseDups_filterMap (fun d => r.cycleFrom? d.qualifiedName) r.types
  refine List.Pairwise.imp_of_mem ?_ hpairwise
  rintro path path' - hpath' ⟨before, d, after, htypes, hd, hbefore⟩
  refine ⟨before, d, after, htypes, (cycleFrom?_eq_some_iff.1 hd).2, ?_⟩
  intro e he henters
  exact hbefore e he (cycleFrom?_eq_some_iff.2 ⟨mem_cycles_iff.1 hpath', henters⟩)

theorem cycleFrom?_eq_none_iff {name : String} :
    r.cycleFrom? name = none ↔ ∀ path, r.IsCyclePath path → ¬ r.Enters name path := by
  rw [Option.eq_none_iff_forall_ne_some]
  simp only [ne_eq, cycleFrom?_eq_some_iff, not_and]

theorem head?_cycles_eq_some_iff {path : List String} :
    r.cycles.head? = some path ↔ r.FirstEntered path := by
  have hhead (l : List (List String)) : l.eraseDups.head? = l.head? := by
    cases l with
    | nil => rfl
    | cons path rest => rw [List.eraseDups_cons]; rfl
  rw [cycles, hhead, List.head?_filterMap, List.findSome?_eq_some_iff]
  simp only [cycleFrom?_eq_some_iff, cycleFrom?_eq_none_iff]
  constructor
  · rintro ⟨before, d, after, htypes, ⟨hpath, henters⟩, hbefore⟩
    exact ⟨hpath, before, d, after, htypes, henters, hbefore⟩
  · rintro ⟨hpath, before, d, after, htypes, henters, hbefore⟩
    exact ⟨before, d, after, htypes, ⟨hpath, henters⟩, hbefore⟩

theorem checkCycles_eq_error_iff {path : List String} :
    r.checkCycles = .error (.inheritanceCycle path) ↔ r.FirstEntered path := by
  rw [← head?_cycles_eq_some_iff, checkCycles]
  cases r.cycles.head? with
  | none => simp
  | some first => simp

theorem exists_firstEntered_iff : (∃ path, r.FirstEntered path) ↔
    ∃ d ∈ r.types, ∃ n, r.OnCycle n ∧ ReflTransGen r.ParentLink d.qualifiedName n := by
  constructor
  · rintro ⟨path, hpath, before, d, after, htypes, ⟨n, hn, hreach⟩, -⟩
    exact ⟨d, htypes ▸ List.mem_append_right _ List.mem_cons_self, n, hpath.onCycle hn, hreach⟩
  · rintro ⟨d, -, n, hcycle, -⟩
    obtain ⟨path, hpath, -⟩ := onCycle_iff.1 hcycle
    obtain ⟨first, hfirst⟩ : ∃ first, r.cycles.head? = some first := by
      rw [← Option.isSome_iff_exists, List.isSome_head?]
      exact List.ne_nil_of_mem hpath
    exact ⟨first, head?_cycles_eq_some_iff.1 hfirst⟩

/-- The same types have the same cycles, in whatever order they are registered. -/
theorem mem_cycles_iff_of_perm {r' : Registry} (h : r.types.Perm r'.types) {path : List String} :
    path ∈ r.cycles ↔ path ∈ r'.cycles := by
  have hlinks := parentLink_eq_of_type?_eq (type?_eq_of_perm h)
  rw [mem_cycles_iff, mem_cycles_iff]
  constructor
  · rintro ⟨hchain, hclosed⟩
    exact ⟨hlinks ▸ hchain, hclosed⟩
  · rintro ⟨hchain, hclosed⟩
    exact ⟨hlinks ▸ hchain, hclosed⟩

/-- The cycles that a search for components finds come in the order of the earliest types whose
walks enter them. The check for cycles, and the schema with it, fails with the path of the cycle
that the earliest type enters of those whose walks enter any, and it passes exactly if no walk
enters one. The order of registration does not matter to which paths are reported. -/
theorem cycles_in_order_of_entry (r : Registry) :
    (∃ components, r.Searched components) ∧
    (∀ components, r.Searched components → r.cyclePaths components = r.cycles) ∧
    r.cycles.Pairwise r.EnteredBefore ∧
    (∀ path, r.checkCycles = .error (.inheritanceCycle path) ↔ r.FirstEntered path) ∧
    (∀ excluded path, r.reflect excluded = .error (.inheritanceCycle path) ↔
      r.FirstEntered path) ∧
    ((∃ path, r.FirstEntered path) ↔
      ∃ d ∈ r.types, ∃ n, r.OnCycle n ∧ ReflTransGen r.ParentLink d.qualifiedName n) ∧
    ∀ r' : Registry, r.types.Perm r'.types → ∀ path, path ∈ r.cycles ↔ path ∈ r'.cycles := by
  refine ⟨r.exists_componentSearch _, fun _ => cyclePaths_eq_cycles, r.pairwise_cycles,
    fun _ => checkCycles_eq_error_iff, fun _ _ => ?_, exists_firstEntered_iff,
    fun _ h _ => mem_cycles_iff_of_perm h⟩
  rw [reflect_eq_cycle_iff, checkCycles_eq_error_iff]

/-- The cycle of two types is reported, though the other cycle is registered before it; in another
order that one comes first. -/
theorem cycles_in_order_of_entry_of_loops :
    Loops.registry.reflect [] = .error (.inheritanceCycle ["a.A", "a.B", "a.A"]) ∧
    Loops.reordered.reflect [] = .error (.inheritanceCycle ["a.D", "a.D"]) ∧
    ["a.D", "a.D"] ∈ Loops.registry.cycles ∧
    ∃ components, Loops.registry.Searched components ∧
      Loops.registry.cyclePaths components = Loops.registry.cycles := by
  obtain ⟨⟨components, hsearched⟩, hpaths, -, -, hreflect, -, hperm⟩ :=
    cycles_in_order_of_entry Loops.registry
  obtain ⟨-, -, -, -, hreflect', -, -⟩ := cycles_in_order_of_entry Loops.reordered
  refine ⟨(hreflect [] _).2 ⟨isCyclePath_pair, ?_⟩, (hreflect' [] _).2 ⟨isCyclePath_single, ?_⟩,
    (hperm Loops.reordered (by decide) _).2 (mem_cycles_iff.2 isCyclePath_single),
    components, hsearched, hpaths components hsearched⟩
  · exact ⟨[], Loops.child "C" "a.A", _, rfl, ⟨"a.A", by decide, .single rfl⟩, by simp⟩
  · exact ⟨[], Loops.child "D" "a.D", _, rfl, ⟨"a.D", by decide, .refl⟩, by simp⟩

end Registry

end LedgerSchema
