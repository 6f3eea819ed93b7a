import Mathlib
import LedgerSchema.Registry.Lineage

/-!
Lines of ancestors as walks along parent links. A walk stops at a name that is not registered, at a
type without parent, and before a type that it has passed; there is exactly one walk from a name.
-/

set_option autoImplicit false

namespace LedgerSchema

open Relation

namespace Registry

variable {r : Registry}

def ParentLink (r : Registry) (child parent : String) : Prop := r.parentName? child = some parent

theorem ParentLink.unique {child p q : String} (hp : r.ParentLink child p)
    (hq : r.ParentLink child q) : p = q :=
  Option.some.inj (hp.symm.trans hq)

theorem parentLink_iff {child parent : String} :
    r.ParentLink child parent ↔ ∃ d, r.type? child = some d ∧ d.parent = some parent := by
  simp [ParentLink, parentName?, Option.bind_eq_some_iff]

/-- The walk from a name by parent links, past the types that are given. -/
inductive Walk (r : Registry) : List String → String → List TypeDecl → Prop
  | unregistered {passed : List String} {name : String} (h : r.type? name = none) :
      Walk r passed name []
  | passed {passed : List String} {name : String} (h : name ∈ passed) : Walk r passed name []
  | root {passed : List String} {name : String} {d : TypeDecl} (hname : name ∉ passed)
      (hd : r.type? name = some d) (hroot : d.parent = none) : Walk r passed name [d]
  | step {passed : List String} {name parent : String} {d : TypeDecl} {rest : List TypeDecl}
      (hname : name ∉ passed) (hd : r.type? name = some d) (hparent : d.parent = some parent)
      (hrest : Walk r (name :: passed) parent rest) : Walk r passed name (d :: rest)

theorem Walk.unique {passed : List String} {name : String} {l m : List TypeDecl}
    (hl : r.Walk passed name l) (hm : r.Walk passed name m) : l = m := by
  induction hl generalizing m with
  | unregistered h => cases hm <;> simp_all
  | passed h => cases hm <;> simp_all
  | root hname hd hroot => cases hm <;> simp_all
  | step hname hd hparent hrest ih =>
    cases hm with
    | unregistered h => simp_all
    | passed h => exact absurd h hname
    | root _ hd' hroot => simp_all
    | step _ hd' hparent' hrest' =>
      obtain rfl := Option.some.inj (hd.symm.trans hd')
      obtain rfl := Option.some.inj (hparent.symm.trans hparent')
      rw [ih hrest']

end Registry

namespace TypePool

theorem get?_without (pool : TypePool) (name other : String) :
    (pool.without name).get? other = if other = name then none else pool.get? other := by
  unfold get? without
  rw [List.find?_filter]
  by_cases h : other = name
  · rw [if_pos h, Option.map_eq_none_iff, List.find?_eq_none]
    intro e he
    simp_all
  · rw [if_neg h]
    congr 2
    funext e
    by_cases he : e.1 = other <;> simp_all

end TypePool

namespace Registry

variable {r : Registry} {name : String}

theorem Walk.eq_cons {passed : List String} {d : TypeDecl} {line : List TypeDecl}
    (h : r.Walk passed name line) (hname : name ∉ passed) (hd : r.type? name = some d) :
    ∃ rest, line = d :: rest := by
  cases h <;> simp_all

theorem Walk.type?_of_mem {passed : List String} {line : List TypeDecl}
    (h : r.Walk passed name line) {d : TypeDecl} (hd : d ∈ line) :
    r.type? d.qualifiedName = some d ∧ d.qualifiedName ∉ passed := by
  induction h with
  | unregistered => simp at hd
  | passed => simp at hd
  | root hname hroot =>
    obtain rfl := List.mem_singleton.1 hd
    rw [qualifiedName_of_type? hroot]
    exact ⟨hroot, hname⟩
  | step hname hhead _ _ ih =>
    rcases List.mem_cons.1 hd with rfl | hd
    · rw [qualifiedName_of_type? hhead]
      exact ⟨hhead, hname⟩
    · exact ⟨(ih hd).1, fun hmem => (ih hd).2 (List.mem_cons_of_mem _ hmem)⟩

theorem Walk.nodup {passed : List String} {line : List TypeDecl} (h : r.Walk passed name line) :
    (line.map TypeDecl.qualifiedName).Nodup := by
  induction h with
  | unregistered => simp
  | passed => simp
  | root => simp
  | step _ hhead _ hrest ih =>
    rw [List.map_cons, List.nodup_cons]
    refine ⟨fun hmem => ?_, ih⟩
    obtain ⟨d, hd, hname⟩ := List.mem_map.1 hmem
    refine (hrest.type?_of_mem hd).2 ?_
    rw [hname, qualifiedName_of_type? hhead]
    exact List.mem_cons_self

theorem Walk.isChain {passed : List String} {line : List TypeDecl} (h : r.Walk passed name line) :
    (line.map TypeDecl.qualifiedName).IsChain r.ParentLink := by
  induction h with
  | unregistered => simp
  | passed => simp
  | root => simp
  | @step passed name parent d rest _ hhead hparent hrest ih =>
    rw [List.map_cons, List.isChain_cons]
    refine ⟨fun n hn => ?_, ih⟩
    have hnext : n = parent := by
      cases hrest with
      | unregistered => simp at hn
      | passed => simp at hn
      | root _ hd => simpa [qualifiedName_of_type? hd, eq_comm] using hn
      | step _ hd => simpa [qualifiedName_of_type? hd, eq_comm] using hn
    rw [hnext, qualifiedName_of_type? hhead]
    exact parentLink_iff.2 ⟨d, hhead, hparent⟩

/-- A walk has no registered parent behind its end but those it has passed. -/
theorem Walk.parent_mem {passed : List String} {line : List TypeDecl} (h : r.Walk passed name line)
    {d : TypeDecl} (hd : d ∈ line) {parent : String} (hparent : d.parent = some parent)
    (hregistered : r.type? parent ≠ none) :
    parent ∈ passed ∨ parent ∈ line.map TypeDecl.qualifiedName := by
  induction h with
  | unregistered => simp at hd
  | passed => simp at hd
  | root => simp_all
  | @step passed name next head rest _ hhead hnext hrest ih =>
    have hself : head.qualifiedName = name := qualifiedName_of_type? hhead
    rcases List.mem_cons.1 hd with rfl | hd
    · obtain rfl := Option.some.inj (hparent.symm.trans hnext)
      by_cases hpassed : parent ∈ name :: passed
      · rcases List.mem_cons.1 hpassed with rfl | hpassed
        · exact .inr (by simp [hself])
        · exact .inl hpassed
      · obtain ⟨e, he⟩ := Option.ne_none_iff_exists'.1 hregistered
        obtain ⟨rest, rfl⟩ := hrest.eq_cons hpassed he
        exact .inr (by simp [qualifiedName_of_type? he])
    · rcases ih hd with hpassed | hmem
      · rcases List.mem_cons.1 hpassed with rfl | hpassed
        · exact .inr (by simp [hself])
        · exact .inl hpassed
      · exact .inr (List.mem_cons_of_mem _ hmem)

theorem Walk.reaches {passed : List String} {line : List TypeDecl} (h : r.Walk passed name line)
    {d : TypeDecl} (hd : d ∈ line) : ReflTransGen r.ParentLink name d.qualifiedName := by
  induction h with
  | unregistered => simp at hd
  | passed => simp at hd
  | root _ hroot =>
    obtain rfl := List.mem_singleton.1 hd
    rw [qualifiedName_of_type? hroot]
  | step _ hhead hparent _ ih =>
    rcases List.mem_cons.1 hd with rfl | hd
    · rw [qualifiedName_of_type? hhead]
    · exact .head (parentLink_iff.2 ⟨_, hhead, hparent⟩) (ih hd)

/-- Only the passed types that a walk can meet matter to it. -/
theorem Walk.congr {passed passed' : List String} {line : List TypeDecl}
    (h : r.Walk passed name line)
    (hpassed : ∀ n, ReflTransGen r.ParentLink name n → (n ∈ passed ↔ n ∈ passed')) :
    r.Walk passed' name line := by
  induction h generalizing passed' with
  | unregistered h => exact .unregistered h
  | passed h => exact .passed ((hpassed _ .refl).1 h)
  | root hname hd hroot => exact .root (fun h => hname ((hpassed _ .refl).2 h)) hd hroot
  | step hname hd hparent _ ih =>
    refine .step (fun h => hname ((hpassed _ .refl).2 h)) hd hparent (ih fun n hn => ?_)
    rw [List.mem_cons, List.mem_cons, hpassed n (.head (parentLink_iff.2 ⟨_, hd, hparent⟩) hn)]

theorem walk_lineage {pool : TypePool} {passed : List String}
    (hpool : ∀ n, pool.get? n = if n ∈ passed then none else r.type? n) :
    r.Walk passed name (pool.lineage name) := by
  induction pool, name using TypePool.lineage.induct generalizing passed with
  | case1 pool name h =>
    rw [TypePool.lineage, h]
    by_cases hname : name ∈ passed
    · exact .passed hname
    · refine .unregistered ?_
      rw [← h, hpool, if_neg hname]
  | case2 pool name d h ih =>
    have hname : name ∉ passed := by
      intro hmem
      rw [hpool, if_pos hmem] at h
      cases h
    have hd : r.type? name = some d := by rw [← h, hpool, if_neg hname]
    have hrest (n : String) : (pool.without name).get? n =
        if n ∈ name :: passed then none else r.type? n := by
      rw [TypePool.get?_without, hpool]
      by_cases hn : n = name <;> simp [hn]
    rw [TypePool.lineage, h]
    dsimp only
    split
    · rename_i hroot
      exact .root hname hd hroot
    · rename_i parent hparent
      exact .step hname hd hparent (ih parent hrest)

theorem walk_ancestors (r : Registry) (name : String) : r.Walk [] name (r.ancestors name) :=
  walk_lineage fun n => by simp [get?_pool]

theorem ancestors_eq_nil_iff : r.ancestors name = [] ↔ r.type? name = none := by
  constructor
  · intro h
    cases hd : r.type? name with
    | none => rfl
    | some d =>
      obtain ⟨rest, hrest⟩ := (r.walk_ancestors name).eq_cons List.not_mem_nil hd
      rw [h] at hrest
      cases hrest
  · intro h
    exact (r.walk_ancestors name).unique (.unregistered h)

theorem nodup_ancestors (r : Registry) (name : String) :
    ((r.ancestors name).map TypeDecl.qualifiedName).Nodup := (r.walk_ancestors name).nodup

/-- The ancestors of a type are the registered types that parent links lead to. -/
theorem mem_ancestors_iff {d : TypeDecl} : d ∈ r.ancestors name ↔
    r.type? d.qualifiedName = some d ∧ ReflTransGen r.ParentLink name d.qualifiedName := by
  constructor
  · intro h
    exact ⟨((r.walk_ancestors name).type?_of_mem h).1, (r.walk_ancestors name).reaches h⟩
  · rintro ⟨hd, hreach⟩
    generalize hn : d.qualifiedName = n at hd hreach
    induction hreach generalizing d with
    | refl =>
      obtain ⟨rest, hrest⟩ := (r.walk_ancestors name).eq_cons List.not_mem_nil hd
      rw [hrest]
      exact List.mem_cons_self
    | @tail child n _ hlink ih =>
      obtain ⟨e, he, hparent⟩ := parentLink_iff.1 hlink
      have hmem : e ∈ r.ancestors name := ih (qualifiedName_of_type? he) he
      have hn := (r.walk_ancestors name).parent_mem hmem hparent (by simp [hd])
      obtain ⟨d', hd', hname⟩ := List.mem_map.1 (hn.resolve_left List.not_mem_nil)
      have htype := ((r.walk_ancestors name).type?_of_mem hd').1
      rw [hname, hd] at htype
      obtain rfl := Option.some.inj htype
      exact hd'

theorem isAssignable_iff {target candidate : String} : r.isAssignable target candidate = true ↔
    (∃ d, r.type? target = some d) ∧ ReflTransGen r.ParentLink candidate target := by
  rw [isAssignable, List.any_eq_true]
  simp only [decide_eq_true_eq, mem_ancestors_iff]
  constructor
  · rintro ⟨d, ⟨hd, hreach⟩, rfl⟩
    exact ⟨⟨d, hd⟩, hreach⟩
  · rintro ⟨⟨d, hd⟩, hreach⟩
    obtain rfl := qualifiedName_of_type? hd
    exact ⟨d, ⟨hd, hreach⟩, rfl⟩

theorem isAssignable_self {type : String} {d : TypeDecl} (hd : r.type? type = some d) :
    r.isAssignable type type = true := isAssignable_iff.2 ⟨⟨d, hd⟩, .refl⟩

theorem ancestors_of_root {d : TypeDecl} (hd : r.type? name = some d) (hroot : d.parent = none) :
    r.ancestors name = [d] :=
  (r.walk_ancestors name).unique (.root List.not_mem_nil hd hroot)

theorem primaryField?_of_root {d : TypeDecl} (hd : r.type? name = some d)
    (hroot : d.parent = none) : r.primaryField? name = d.fields.find? (·.isPrimary) := by
  rw [primaryField?, declaredFields, ancestors_of_root hd hroot, List.flatMap_singleton]

theorem markedFields_of_root {d : TypeDecl} (hd : r.type? name = some d) (hroot : d.parent = none) :
    r.markedFields name = d.markedFields := by
  rw [markedFields, declaredFields, ancestors_of_root hd hroot, List.flatMap_singleton,
    TypeDecl.markedFields]

def OnCycle (r : Registry) (name : String) : Prop := TransGen r.ParentLink name name

/-- There are no cycles if parents come before their children in some order. -/
theorem not_onCycle_of_rank (rank : String → Nat)
    (h : ∀ d ∈ r.types, ∀ parent ∈ d.parent, rank parent < rank d.qualifiedName) (name : String) :
    ¬ r.OnCycle name := by
  have hrank {a b : String} (hab : TransGen r.ParentLink a b) : rank b < rank a := by
    have hlink {a b : String} (hab : r.ParentLink a b) : rank b < rank a := by
      obtain ⟨d, hd, hparent⟩ := parentLink_iff.1 hab
      rw [← qualifiedName_of_type? hd]
      exact h d (mem_of_type? hd) b hparent
    induction hab with
    | single hab => exact hlink hab
    | tail _ hbc ih => exact (hlink hbc).trans ih
  exact fun hcycle => (hrank hcycle).ne rfl

/-- Off the cycles, the line of a type is the type and the line of its parent. -/
theorem ancestors_of_parent {d : TypeDecl} {parent : String} (hd : r.type? name = some d)
    (hparent : d.parent = some parent) (hcycle : ¬ r.OnCycle name) :
    r.ancestors name = d :: r.ancestors parent := by
  refine (r.walk_ancestors name).unique (.step List.not_mem_nil hd hparent ?_)
  refine (r.walk_ancestors parent).congr fun n hn => ?_
  rw [List.mem_singleton]
  refine ⟨fun h => absurd h List.not_mem_nil, ?_⟩
  rintro rfl
  exact absurd (.head' (parentLink_iff.2 ⟨d, hd, hparent⟩) hn) hcycle

theorem markedFields_of_parent {d : TypeDecl} (hd : r.type? name = some d) {parent : String}
    (hparent : d.parent = some parent) (hcycle : ¬ r.OnCycle name) :
    r.markedFields name = d.markedFields ++ r.markedFields parent := by
  rw [markedFields, declaredFields, ancestors_of_parent hd hparent hcycle, List.flatMap_cons,
    List.filter_append]
  rfl

/-- Along the lines of a registry: what holds of the names on cycles, and of a name if it holds of
its parent, holds of every name. -/
theorem line_induction_of_cycle {motive : String → Prop} (cycle : ∀ n, r.OnCycle n → motive n)
    (step : ∀ n, ¬ r.OnCycle n → (∀ parent, r.ParentLink n parent → motive parent) → motive n)
    (name : String) : motive name := by
  generalize hlength : (r.ancestors name).length = length
  induction length using Nat.strong_induction_on generalizing name with
  | _ length ih =>
    by_cases hcycle : r.OnCycle name
    · exact cycle name hcycle
    · refine step name hcycle fun parent hlink => ?_
      obtain ⟨d, hd, hparent⟩ := parentLink_iff.1 hlink
      refine ih (r.ancestors parent).length ?_ parent rfl
      rw [← hlength, ancestors_of_parent hd hparent hcycle]
      exact Nat.lt_succ_self _

theorem line_induction {motive : String → Prop} (hacyclic : ∀ n, ¬ r.OnCycle n)
    (step : ∀ n, (∀ parent, r.ParentLink n parent → motive parent) → motive n) (name : String) :
    motive name :=
  line_induction_of_cycle (fun n hcycle => absurd hcycle (hacyclic n)) (fun n _ => step n) name

end Registry

end LedgerSchema
