import Mathlib
import LedgerSchema.Proofs.Registry.Components

/-!
Assignability as an order on names. A type is assignable to what parent links lead to from it, so
the relation is a preorder, and two names are assignable to each other exactly if they lie on one
cycle. Main statement: lines of ancestors are the walks along parent links, assignability is
reachability, and it is antisymmetric if the only cycles are types that are their own parents.
-/

set_option autoImplicit false

namespace LedgerSchema

open Relation

namespace Registry

variable {r : Registry} {name : String}

/-- A list of types that starts with a name and goes on with the parent of each type, as far as it
can: to a type without parent, to a parent that is not registered, or back into the list. -/
structure IsLine (r : Registry) (name : String) (line : List TypeDecl) : Prop where
  head : line.head? = r.type? name
  registered : ∀ d ∈ line, r.type? d.qualifiedName = some d
  links : line.IsChain fun d e => d.parent = some e.qualifiedName
  once : (line.map TypeDecl.qualifiedName).Nodup
  ends : ∀ last ∈ line.getLast?, ∀ parent ∈ last.parent,
    r.type? parent = none ∨ parent ∈ line.map TypeDecl.qualifiedName

theorem Walk.isLine {line : List TypeDecl} (h : r.Walk [] name line) : r.IsLine name line := by
  have hregistered (d : TypeDecl) (hd : d ∈ line) : r.type? d.qualifiedName = some d :=
    (h.type?_of_mem hd).1
  refine ⟨?_, hregistered, ?_, h.nodup, fun last hlast parent hparent => ?_⟩
  · cases h with
    | unregistered hname => rw [hname]; rfl
    | passed hname => cases hname
    | root _ hd => rw [hd]; rfl
    | step _ hd => rw [hd]; rfl
  · refine ((List.isChain_map _).1 h.isChain).imp_of_mem_imp fun d e hd _ hlink => ?_
    obtain ⟨d', hd', hparent⟩ := parentLink_iff.1 hlink
    rwa [Option.some.inj ((hregistered d hd).symm.trans hd')]
  · by_cases hnone : r.type? parent = none
    · exact .inl hnone
    · exact .inr ((h.parent_mem (List.mem_of_getLast? hlast) hparent hnone).resolve_left
        List.not_mem_nil)

theorem walk_of_isLine {passed : List String} {line : List TypeDecl}
    (hhead : line.head? = if name ∈ passed then none else r.type? name)
    (hregistered : ∀ d ∈ line, r.type? d.qualifiedName = some d)
    (hlinks : line.IsChain fun d e => d.parent = some e.qualifiedName)
    (honce : (passed.reverse ++ line.map TypeDecl.qualifiedName).Nodup)
    (hends : ∀ last ∈ line.getLast?, ∀ parent ∈ last.parent,
      r.type? parent = none ∨ parent ∈ passed.reverse ++ line.map TypeDecl.qualifiedName) :
    r.Walk passed name line := by
  induction line generalizing passed name with
  | nil =>
    by_cases hname : name ∈ passed
    · exact .passed hname
    · rw [if_neg hname] at hhead
      exact .unregistered hhead.symm
  | cons d rest ih =>
    have hname : name ∉ passed := by
      intro hmem
      rw [if_pos hmem] at hhead
      cases hhead
    rw [if_neg hname] at hhead
    have hd : r.type? name = some d := hhead.symm
    have hself : d.qualifiedName = name := qualifiedName_of_type? hd
    have hsplit : (name :: passed).reverse ++ rest.map TypeDecl.qualifiedName =
        passed.reverse ++ (d :: rest).map TypeDecl.qualifiedName := by simp [hself]
    cases hparent : d.parent with
    | none =>
      cases rest with
      | nil => exact .root hname hd hparent
      | cons e rest =>
        have hlink := (List.isChain_cons_cons.1 hlinks).1
        rw [hparent] at hlink
        cases hlink
    | some parent =>
      refine .step hname hd hparent (ih ?_ (fun e he => hregistered e (List.mem_cons_of_mem _ he))
        hlinks.tail (by rwa [hsplit]) fun last hlast => ?_)
      · cases rest with
        | nil =>
          rcases hends d rfl parent hparent with hnone | hmem
          · rw [hnone, ite_self]
            rfl
          · rw [if_pos]
            · rfl
            · simpa [hself, or_comm] using hmem
        | cons e rest =>
          have hlink := (List.isChain_cons_cons.1 hlinks).1
          obtain rfl := Option.some.inj (hparent.symm.trans hlink)
          have hfresh : e.qualifiedName ∉ name :: passed := by
            rw [← hsplit] at honce
            intro hmem
            exact (List.nodup_append.1 honce).2.2 _ (List.mem_reverse.2 hmem) _
              List.mem_cons_self rfl
          rw [if_neg hfresh, hregistered e (by simp)]
          rfl
      · rw [hsplit]
        refine hends last ?_
        cases rest with
        | nil => cases hlast
        | cons e rest => rwa [List.getLast?_cons_cons]

/-- There is exactly one such list from each name: the line of ancestors. -/
theorem isLine_iff {line : List TypeDecl} : r.IsLine name line ↔ line = r.ancestors name := by
  constructor
  · intro h
    refine Walk.unique (walk_of_isLine ?_ h.registered h.links ?_ ?_) (r.walk_ancestors name)
    · simpa using h.head
    · simpa using h.once
    · simpa using h.ends
  · rintro rfl
    exact (r.walk_ancestors name).isLine

def RegisteredLink (r : Registry) (child parent : String) : Prop :=
  r.ParentLink child parent ∧ ∃ d, r.type? parent = some d

/-- A name that links lead from is registered, so only their end has to be asked for. -/
theorem reaches_registered_iff {target : String} :
    (∃ d, r.type? name = some d) ∧ ReflTransGen r.RegisteredLink name target ↔
      (∃ d, r.type? target = some d) ∧ ReflTransGen r.ParentLink name target := by
  constructor
  · rintro ⟨hname, hreach⟩
    refine ⟨?_, ReflTransGen.mono (fun _ _ hlink => hlink.1) _ _ hreach⟩
    rcases ReflTransGen.cases_tail hreach with rfl | ⟨_, -, hlink⟩
    · exact hname
    · exact hlink.2
  · rintro ⟨htarget, hreach⟩
    induction hreach using ReflTransGen.head_induction_on with
    | refl => exact ⟨htarget, .refl⟩
    | head hlink _ ih =>
      obtain ⟨hparent, hrest⟩ := ih
      obtain ⟨d, hd, -⟩ := parentLink_iff.1 hlink
      exact ⟨⟨d, hd⟩, .head ⟨hlink, hparent⟩ hrest⟩

theorem isAssignable_trans {a b c : String} (hab : r.isAssignable a b = true)
    (hbc : r.isAssignable b c = true) : r.isAssignable a c = true := by
  obtain ⟨ha, hba⟩ := isAssignable_iff.1 hab
  obtain ⟨-, hcb⟩ := isAssignable_iff.1 hbc
  exact isAssignable_iff.2 ⟨ha, hcb.trans hba⟩

/-- Two names are assignable to each other if and only if they are one registered name or lie on one
cycle. -/
theorem isAssignable_both_iff {a b : String} :
    r.isAssignable a b = true ∧ r.isAssignable b a = true ↔
      (∃ d, r.type? a = some d) ∧ a = b ∨ ∃ path ∈ r.cycles, a ∈ path ∧ b ∈ path := by
  simp only [isAssignable_iff, mem_cycles_iff]
  constructor
  · rintro ⟨⟨ha, hba⟩, -, hab⟩
    rcases reflTransGen_iff_eq_or_transGen.1 hab with rfl | hab
    · exact .inl ⟨ha, rfl⟩
    · have hcycle : r.OnCycle a := hab.trans_left hba
      obtain ⟨path, hpath, hmem⟩ := hcycle.exists_mem_cycles
      have hpath := mem_cycles_iff.1 hpath
      exact .inr ⟨path, hpath, hmem, (hpath.mem_iff hmem).2 hab⟩
  · rintro (⟨ha, rfl⟩ | ⟨path, hpath, ha, hb⟩)
    · exact ⟨⟨ha, .refl⟩, ha, .refl⟩
    · have hregistered {n : String} (hn : n ∈ path) : ∃ d, r.type? n = some d :=
        Option.ne_none_iff_exists'.1 (hpath.onCycle hn).type?_ne_none
      exact ⟨⟨hregistered ha, ((hpath.mem_iff hb).1 ha).to_reflTransGen⟩,
        hregistered hb, ((hpath.mem_iff ha).1 hb).to_reflTransGen⟩

/-- The path of a cycle has one name, twice, exactly if it has no two different names. -/
theorem IsCyclePath.eq_pair_iff {path : List String} (h : r.IsCyclePath path) :
    (∃ n, path = [n, n]) ↔ ∀ a ∈ path, ∀ b ∈ path, a = b := by
  constructor
  · rintro ⟨n, rfl⟩
    simp
  · intro hsame
    obtain ⟨start, inner, rfl, hloop, -⟩ := h.exists_loop
    cases inner with
    | nil => exact ⟨start, rfl⟩
    | cons n inner =>
      have heq : start = n := hsame start (by simp) n (by simp)
      have hne : start ∉ n :: inner := (List.nodup_cons.1 hloop.nodup).1
      exact absurd (heq ▸ List.mem_cons_self) hne

/-- Assignability for every registry, with cycles or without. The line of ancestors of a name is the
walk along parent links, each type once, which stops nowhere but where it has to; it is no longer
than the list of registered types. A target is assignable from a registered candidate exactly if
links to registered parents lead to it, so the relation is reflexive on registered names and
transitive. It is antisymmetric exactly if every reported cycle is a type that is its own parent. -/
theorem isAssignable_preorder (r : Registry) :
    (∀ name line, r.IsLine name line ↔ line = r.ancestors name) ∧
      (∀ name, (r.ancestors name).length ≤ r.types.length) ∧
      (∀ target candidate, r.isAssignable target candidate = true ↔
        (∃ d, r.type? candidate = some d) ∧ ReflTransGen r.RegisteredLink candidate target) ∧
      (∀ name, (∃ d, r.type? name = some d) → r.isAssignable name name = true) ∧
      (∀ a b c, r.isAssignable a b = true → r.isAssignable b c = true →
        r.isAssignable a c = true) ∧
      (∃ components, r.ListsComponents components) ∧
      ∀ components, r.ListsComponents components →
        ((∀ a b, (∃ d, r.type? a = some d) → (∃ d, r.type? b = some d) →
            r.isAssignable a b = true → r.isAssignable b a = true → a = b) ↔
          ∀ path ∈ r.cyclePaths components, ∃ name, path = [name, name]) := by
  refine ⟨fun _ _ => isLine_iff, fun name => ?_, fun _ _ => ?_, ?_,
    fun _ _ _ => isAssignable_trans, ?_, fun components hlists => ?_⟩
  · refine (List.Nodup.of_map _ (r.nodup_ancestors name)).subperm ?_ |>.length_le
    intro d hd
    exact mem_of_type? (mem_ancestors_iff.1 hd).1
  · rw [isAssignable_iff, reaches_registered_iff]
  · rintro name ⟨d, hd⟩
    exact isAssignable_self hd
  · obtain ⟨components, hsearched⟩ := r.exists_componentSearch (r.types.map TypeDecl.qualifiedName)
    exact ⟨components, listsComponents_of_searched hsearched⟩
  · simp only [hlists.mem_cyclePaths_iff, ← mem_cycles_iff]
    constructor
    · intro hanti path hpath
      have hcycle := mem_cycles_iff.1 hpath
      refine hcycle.eq_pair_iff.2 fun a ha b hb => ?_
      obtain ⟨hab, hba⟩ := isAssignable_both_iff.2 (.inr ⟨path, hpath, ha, hb⟩)
      exact hanti a b (isAssignable_iff.1 hab).1 (isAssignable_iff.1 hba).1 hab hba
    · intro hcycles a b _ _ hab hba
      rcases isAssignable_both_iff.1 ⟨hab, hba⟩ with ⟨-, heq⟩ | ⟨path, hpath, ha, hb⟩
      · exact heq
      · exact (mem_cycles_iff.1 hpath).eq_pair_iff.1 (hcycles path hpath) a ha b hb

end Registry

end LedgerSchema
