import Mathlib
import LedgerSchema.Proofs.Registry.Cycles
import LedgerSchema.Proofs.Registry.Registration

/-!
The strongly connected components of the parent links. Main statements: in whatever order they are
listed, those with a cycle have the cycles as their paths; and a search that starts at the
registered types one after the other, and reports a component as soon as all that it leads into is
reported, finds the cycles in the order in which walks along parent links lead into them.
-/

set_option autoImplicit false

namespace LedgerSchema

open Relation

universe u

section Search

variable {α : Type u} {edge : α → α → Prop} {done new components : List (List α)} {start : α}

/-- Strongly connected components, the nodes of each in any order. -/
structure ConnectedComponents (edge : α → α → Prop) (components : List (List α)) : Prop where
  nonempty : ∀ c ∈ components, c ≠ []
  nodup : ∀ c ∈ components, c.Nodup
  connected : ∀ c ∈ components, ∀ n ∈ c, ∀ m,
    m ∈ c ↔ ReflTransGen edge n m ∧ ReflTransGen edge m n

/-- The strongly connected components of some nodes, each once, in any order. -/
structure ComponentListing (node : α → Prop) (edge : α → α → Prop) (components : List (List α)) :
    Prop extends ConnectedComponents edge components where
  disjoint : components.Pairwise List.Disjoint
  covers : ∀ n, n ∈ components.flatten ↔ node n

/-- Strongly connected components in an order in which they can be completed, each after those that
it leads into. -/
structure CompletedComponents (edge : α → α → Prop) (components : List (List α)) : Prop extends
    ConnectedComponents edge components where
  order : components.Pairwise fun c c' => ∀ n ∈ c, ∀ m ∈ c', ¬ ReflTransGen edge n m

/-- What the search reports from one start: the components, as they are completed, of all that is
reached and was not reported before. -/
structure SearchStep (edge : α → α → Prop) (done : List (List α)) (start : α)
    (new : List (List α)) : Prop where
  completed : CompletedComponents edge new
  reached : ∀ n, n ∈ new.flatten ↔ ReflTransGen edge start n ∧ n ∉ done.flatten

/-- The components in the order in which the search reports them, from the given starts in turn. -/
inductive ComponentSearch (edge : α → α → Prop) : List α → List (List α) → Prop
  | nil : ComponentSearch edge [] []
  | snoc {starts : List α} {done : List (List α)} {start : α} {new : List (List α)}
    (before : ComponentSearch edge starts done) (step : SearchStep edge done start new) :
    ComponentSearch edge (starts ++ [start]) (done ++ new)

theorem ComponentSearch.mem_flatten_iff {starts : List α}
    (h : ComponentSearch edge starts components) {n : α} :
    n ∈ components.flatten ↔ ∃ s ∈ starts, ReflTransGen edge s n := by
  induction h with
  | nil => simp
  | @snoc starts done start new _ step ih =>
    rw [List.flatten_append, List.mem_append, step.reached]
    constructor
    · rintro (hdone | ⟨hreach, -⟩)
      · obtain ⟨s, hs, hreach⟩ := ih.1 hdone
        exact ⟨s, List.mem_append_left _ hs, hreach⟩
      · exact ⟨start, List.mem_append_right _ List.mem_cons_self, hreach⟩
    · rintro ⟨s, hs, hreach⟩
      by_cases hdone : n ∈ done.flatten
      · exact .inl hdone
      · rcases List.mem_append.1 hs with hs | hs
        · exact .inl (ih.2 ⟨s, hs, hreach⟩)
        · obtain rfl := List.mem_singleton.1 hs
          exact .inr ⟨hreach, hdone⟩

/-- What a search has reported is closed under edges. -/
theorem ComponentSearch.closed {starts : List α} (h : ComponentSearch edge starts done) {n m : α}
    (hn : n ∈ done.flatten) (hreach : ReflTransGen edge n m) : m ∈ done.flatten := by
  obtain ⟨s, hs, hsn⟩ := h.mem_flatten_iff.1 hn
  exact h.mem_flatten_iff.2 ⟨s, hs, hsn.trans hreach⟩

theorem CompletedComponents.disjoint (h : CompletedComponents edge components) :
    components.Pairwise List.Disjoint :=
  h.order.imp fun horder n hn hn' => horder n hn n hn' .refl

theorem CompletedComponents.nil : CompletedComponents edge [] where
  nonempty := by simp
  nodup := by simp
  connected := by simp
  order := .nil

theorem CompletedComponents.singleton {c : List α} (hne : c ≠ []) (hnodup : c.Nodup)
    (hconnected : ∀ n ∈ c, ∀ m, m ∈ c ↔ ReflTransGen edge n m ∧ ReflTransGen edge m n) :
    CompletedComponents edge [c] where
  nonempty := List.forall_mem_singleton.2 hne
  nodup := List.forall_mem_singleton.2 hnodup
  connected := List.forall_mem_singleton.2 hconnected
  order := List.pairwise_singleton _ _

theorem CompletedComponents.append (h : CompletedComponents edge components)
    (h' : CompletedComponents edge new)
    (horder : ∀ n ∈ components.flatten, ∀ m ∈ new.flatten, ¬ ReflTransGen edge n m) :
    CompletedComponents edge (components ++ new) where
  nonempty := List.forall_mem_append.2 ⟨h.nonempty, h'.nonempty⟩
  nodup := List.forall_mem_append.2 ⟨h.nodup, h'.nodup⟩
  connected := List.forall_mem_append.2 ⟨h.connected, h'.connected⟩
  order := by
    refine List.pairwise_append.2 ⟨h.order, h'.order, ?_⟩
    intro c hc c' hc' n hn m hm
    exact horder n (List.mem_flatten_of_mem hc hn) m (List.mem_flatten_of_mem hc' hm)

/-- A search lists the components of all that is reached from its starts. -/
theorem ComponentSearch.listing {starts : List α} (h : ComponentSearch edge starts components) :
    ComponentListing (fun n => ∃ s ∈ starts, ReflTransGen edge s n) edge components where
  covers _ := h.mem_flatten_iff
  toConnectedComponents := by
    induction h with
    | nil => exact CompletedComponents.nil.toConnectedComponents
    | snoc _ step ih =>
      have hnew := step.completed.toConnectedComponents
      exact ⟨List.forall_mem_append.2 ⟨ih.nonempty, hnew.nonempty⟩,
        List.forall_mem_append.2 ⟨ih.nodup, hnew.nodup⟩,
        List.forall_mem_append.2 ⟨ih.connected, hnew.connected⟩⟩
  disjoint := by
    induction h with
    | nil => exact .nil
    | snoc _ step ih =>
      refine List.pairwise_append.2 ⟨ih, step.completed.disjoint, fun c hc c' hc' n hn hn' => ?_⟩
      exact ((step.reached n).1 (List.mem_flatten_of_mem hc' hn')).2 (List.mem_flatten_of_mem hc hn)

namespace SearchStep

/-- Nothing is new where the search has been. -/
theorem of_mem (hclosed : ∀ n ∈ done.flatten, ∀ m, ReflTransGen edge n m → m ∈ done.flatten)
    (hstart : start ∈ done.flatten) : SearchStep edge done start [] where
  completed := .nil
  reached n := by
    have hdone : ReflTransGen edge start n → n ∈ done.flatten := hclosed start hstart n
    simpa using hdone

/-- A start on no cycle is a component of its own, completed after all that it leads into. -/
theorem snoc (hloop : ¬ TransGen edge start start) (hstart : start ∉ done.flatten)
    (hcompleted : CompletedComponents edge new)
    (hreached : ∀ n, n ∈ new.flatten ↔ TransGen edge start n ∧ n ∉ done.flatten) :
    SearchStep edge done start (new ++ [[start]]) where
  completed := by
    refine hcompleted.append (.singleton (by simp) (by simp) ?_) ?_
    · rw [List.forall_mem_singleton]
      intro m
      rw [List.mem_singleton]
      constructor
      · rintro rfl
        exact ⟨.refl, .refl⟩
      · rintro ⟨hto, hback⟩
        rcases reflTransGen_iff_eq_or_transGen.1 hto with hself | htrans
        · exact hself
        · exact absurd (htrans.trans_left hback) hloop
    · intro n hn m hm hreach
      obtain rfl : m = start := by simpa using hm
      exact hloop (((hreached n).1 hn).1.trans_left hreach)
  reached n := by
    rw [List.flatten_append, List.mem_append, hreached, reflTransGen_iff_eq_or_transGen]
    constructor
    · rintro (⟨htrans, hn⟩ | hself)
      · exact ⟨.inr htrans, hn⟩
      · obtain rfl : n = start := by simpa using hself
        exact ⟨.inl rfl, hstart⟩
    · rintro ⟨rfl | htrans, hn⟩
      · exact .inr (by simp)
      · exact .inl ⟨htrans, hn⟩

end SearchStep

end Search

namespace Registry

variable {r : Registry}

def Edge (r : Registry) (child parent : String) : Prop :=
  r.ParentLink child parent ∧ r.type? parent ≠ none

/-- The strongly connected components of the registered types. -/
def ListsComponents (r : Registry) (components : List (List String)) : Prop :=
  ComponentListing (· ∈ r.types.map TypeDecl.qualifiedName) r.Edge components

/-- The components that the search reports from the types in the order of registration. -/
def Searched (r : Registry) (components : List (List String)) : Prop :=
  ComponentSearch r.Edge (r.types.map TypeDecl.qualifiedName) components

/-- A walk along parent links meets the cycle of the path. -/
def Enters (r : Registry) (name : String) (path : List String) : Prop :=
  ∃ n ∈ path, ReflTransGen r.ParentLink name n

theorem edge_le_parentLink (r : Registry) : r.Edge ≤ r.ParentLink := fun _ _ h => h.1

theorem reaches_edge_iff {n m : String} (hm : r.type? m ≠ none) :
    ReflTransGen r.Edge n m ↔ ReflTransGen r.ParentLink n m := by
  constructor
  · exact ReflTransGen.mono r.edge_le_parentLink n m
  · intro h
    induction h using ReflTransGen.head_induction_on with
    | refl => exact .refl
    | head hlink hrest ih => exact .head ⟨hlink, type?_ne_none_of_reaches hrest hm⟩ ih

theorem cycleFrom?_eq_some_iff {name : String} {path : List String} :
    r.cycleFrom? name = some path ↔ r.IsCyclePath path ∧ r.Enters name path := by
  constructor
  · intro h
    obtain ⟨loop, hloop, rfl, hreach⟩ := cycleFrom?_eq_some h
    obtain ⟨hpath, hmem⟩ := hloop.isCyclePath_cyclePath (fun _ => Iff.rfl) hloop.nodup
    obtain ⟨first, hfirst, -⟩ := hloop.links
    have hin : first ∈ loop := List.mem_of_head? hfirst
    exact ⟨hpath, first, (hmem first).2 hin, hreach first hin⟩
  · rintro ⟨hpath, n, hn, hreach⟩
    obtain ⟨loop, hloop, hin, hcycle⟩ := (hpath.onCycle hn).cycleFrom?_of_reaches hreach
    obtain ⟨hpath', hmem⟩ := hloop.isCyclePath_cyclePath (fun _ => Iff.rfl) hloop.nodup
    rw [hcycle, hpath.eq_of_mem hpath' hn ((hmem n).2 hin)]

/-- A walk that enters a cycle comes to all of its members. -/
theorem enters_iff {name n : String} {path : List String} (hpath : r.IsCyclePath path)
    (hn : n ∈ path) : r.Enters name path ↔ ReflTransGen r.ParentLink name n := by
  constructor
  · rintro ⟨m, hm, hreach⟩
    exact hreach.trans ((hpath.mem_iff hm).1 hn).to_reflTransGen
  · intro hreach
    exact ⟨n, hn, hreach⟩

/-! There is such a search: it goes along the line of a type, and ends at a cycle or a type whose
parent is not registered. -/

theorem searchStep_of_onCycle {done : List (List String)} {start : String}
    (hclosed : ∀ n ∈ done.flatten, ∀ m, ReflTransGen r.Edge n m → m ∈ done.flatten)
    (hstart : start ∉ done.flatten) (hcycle : r.OnCycle start) :
    ∃ new, SearchStep r.Edge done start new := by
  obtain ⟨loop, hloop, hmem, -⟩ := hcycle.cycleFrom?_of_reaches .refl
  have hreach {n m : String} (hn : n ∈ loop) : m ∈ loop ↔ ReflTransGen r.Edge n m := by
    constructor
    · intro hm
      rw [reaches_edge_iff (hloop.onCycle hm).type?_ne_none]
      exact ((hloop.mem_iff hn).1 hm).to_reflTransGen
    · intro hm
      rw [hloop.mem_iff hn]
      exact (hloop.onCycle hn).trans_left (ReflTransGen.mono r.edge_le_parentLink n m hm)
  refine ⟨[loop], .singleton (List.ne_nil_of_mem hmem) hloop.nodup ?_, ?_⟩
  · intro n hn m
    constructor
    · intro hm
      exact ⟨(hreach hn).1 hm, (hreach hm).1 hn⟩
    · rintro ⟨hm, -⟩
      exact (hreach hn).2 hm
  · intro n
    rw [List.flatten_singleton, ← hreach hmem]
    constructor
    · intro hn
      exact ⟨hn, fun hdone => hstart (hclosed n hdone start ((hreach hn).1 hmem))⟩
    · exact And.left

theorem exists_searchStep {done : List (List String)}
    (hclosed : ∀ n ∈ done.flatten, ∀ m, ReflTransGen r.Edge n m → m ∈ done.flatten)
    (start : String) : ∃ new, SearchStep r.Edge done start new := by
  induction start using line_induction_of_cycle (r := r) with
  | cycle start hcycle =>
    by_cases hstart : start ∈ done.flatten
    · exact ⟨[], .of_mem hclosed hstart⟩
    · exact searchStep_of_onCycle hclosed hstart hcycle
  | step start hcycle ih =>
    by_cases hstart : start ∈ done.flatten
    · exact ⟨[], .of_mem hclosed hstart⟩
    · have hloop : ¬ TransGen r.Edge start start :=
        mt (TransGen.mono r.edge_le_parentLink start start) hcycle
      by_cases hedge : ∃ parent, r.Edge start parent
      · obtain ⟨parent, hparent⟩ := hedge
        obtain ⟨new, hnew⟩ := ih parent hparent.1
        refine ⟨new ++ [[start]], .snoc hloop hstart hnew.completed fun n => ?_⟩
        have hnext : TransGen r.Edge start n ↔ ReflTransGen r.Edge parent n := by
          rw [TransGen.head'_iff]
          constructor
          · rintro ⟨next, hlink, hreach⟩
            rwa [hparent.1.unique hlink.1]
          · intro hreach
            exact ⟨parent, hparent, hreach⟩
        rw [hnew.reached, hnext]
      · refine ⟨[] ++ [[start]], .snoc hloop hstart .nil fun n => ?_⟩
        have hnext : ¬ TransGen r.Edge start n := by
          intro htrans
          obtain ⟨parent, hlink, -⟩ := TransGen.head'_iff.1 htrans
          exact hedge ⟨parent, hlink⟩
        simp [hnext]

theorem exists_componentSearch (r : Registry) (starts : List String) :
    ∃ components, ComponentSearch r.Edge starts components := by
  induction starts using List.reverseRecOn with
  | nil => exact ⟨[], .nil⟩
  | append_singleton starts start ih =>
    obtain ⟨done, hdone⟩ := ih
    obtain ⟨new, hnew⟩ := exists_searchStep (fun _ hn _ => hdone.closed hn) start
    exact ⟨done ++ new, .snoc hdone hnew⟩

/-! What the search finds. -/

section

variable {components : List (List String)} {c : List String}

theorem onCycle_singleton_iff (h : ConnectedComponents r.Edge components) {n : String}
    (hc : [n] ∈ components) : r.OnCycle n ↔ r.ParentLink n n := by
  constructor
  · intro hcycle
    obtain ⟨parent, hlink, hback⟩ := TransGen.head'_iff.1 hcycle
    have hregistered := type?_ne_none_of_reaches hback hcycle.type?_ne_none
    have hparent : parent ∈ [n] := by
      rw [h.connected [n] hc n List.mem_cons_self]
      exact ⟨.single ⟨hlink, hregistered⟩, (reaches_edge_iff hcycle.type?_ne_none).2 hback⟩
    rwa [List.mem_singleton.1 hparent] at hlink
  · exact .single

/-- The test for cycles is right about components. -/
theorem isCyclic_iff (h : ConnectedComponents r.Edge components) (hc : c ∈ components) :
    r.isCyclic c = true ↔ ∃ n ∈ c, r.OnCycle n := by
  match c with
  | [] => simp [isCyclic]
  | [n] =>
    have hcycle := onCycle_singleton_iff h hc
    simp [isCyclic, hcycle, ParentLink]
  | a :: b :: rest =>
    have hne : b ≠ a := by
      rintro rfl
      exact (List.nodup_cons.1 (h.nodup _ hc)).1 List.mem_cons_self
    obtain ⟨hto, hback⟩ := (h.connected _ hc a List.mem_cons_self b).1 (by simp)
    have hloop := ((reflTransGen_iff_eq_or_transGen.1 hto).resolve_left hne).trans_left hback
    have hcycle : r.OnCycle a := TransGen.mono r.edge_le_parentLink a a hloop
    simp only [isCyclic, List.length_cons]
    exact ⟨fun _ => ⟨a, List.mem_cons_self, hcycle⟩, fun _ => by simp⟩

theorem isComponent (h : ConnectedComponents r.Edge components) (hc : c ∈ components)
    (hcyclic : r.isCyclic c = true) : r.IsComponent c where
  nodup := h.nodup c hc
  cyclic := (isCyclic_iff h hc).1 hcyclic
  connected n hn m := by
    obtain ⟨k, hk, hcycle⟩ := (isCyclic_iff h hc).1 hcyclic
    have hreach := ((h.connected c hc k hk n).1 hn).1
    have hn' : r.OnCycle n := hcycle.of_reaches (ReflTransGen.mono r.edge_le_parentLink k n hreach)
    rw [h.connected c hc n hn, reaches_edge_iff hn'.type?_ne_none]
    refine and_congr_left fun hback => reaches_edge_iff ?_
    exact type?_ne_none_of_reaches hback hn'.type?_ne_none

/-- The paths are those of the cycles that have a type in the components. -/
theorem mem_cyclePaths_iff (h : ConnectedComponents r.Edge components) {path : List String} :
    path ∈ r.cyclePaths components ↔
      r.IsCyclePath path ∧ ∃ n ∈ path, n ∈ components.flatten := by
  rw [cyclePaths, List.mem_map]
  constructor
  · rintro ⟨c, hc, rfl⟩
    obtain ⟨hmem, hcyclic⟩ := List.mem_filter.1 hc
    obtain ⟨n, hn, -⟩ := (isCyclic_iff h hmem).1 hcyclic
    obtain ⟨hpath, hsame, -⟩ := (isComponent h hmem hcyclic).cyclePath_mem
    exact ⟨mem_cycles_iff.1 hpath, n, (hsame n).2 hn, List.mem_flatten.2 ⟨c, hmem, hn⟩⟩
  · rintro ⟨hpath, n, hn, hflat⟩
    obtain ⟨c, hc, hnc⟩ := List.mem_flatten.1 hflat
    have hcyclic : r.isCyclic c = true := (isCyclic_iff h hc).2 ⟨n, hnc, hpath.onCycle hn⟩
    obtain ⟨hpath', hsame, -⟩ := (isComponent h hc hcyclic).cyclePath_mem
    exact ⟨c, List.mem_filter.2 ⟨hc, hcyclic⟩,
      (mem_cycles_iff.1 hpath').eq_of_mem hpath ((hsame n).2 hnc) hn⟩

/-- A cycle has one path, as its members are all in one component. -/
theorem nodup_cyclePaths (h : ConnectedComponents r.Edge components)
    (hdisjoint : components.Pairwise List.Disjoint) : (r.cyclePaths components).Nodup := by
  rw [cyclePaths, List.Nodup, List.pairwise_map]
  refine (hdisjoint.filter _).imp_of_mem ?_
  intro c c' hc hc' hdisjoint hsame
  obtain ⟨hmem, hcyclic⟩ := List.mem_filter.1 hc
  obtain ⟨hmem', hcyclic'⟩ := List.mem_filter.1 hc'
  obtain ⟨n, hn, -⟩ := (isCyclic_iff h hmem).1 hcyclic
  have hpath := (isComponent h hmem hcyclic).cyclePath_mem.2.1 n
  have hpath' := (isComponent h hmem' hcyclic').cyclePath_mem.2.1 n
  rw [hsame] at hpath
  exact hdisjoint hn (hpath'.1 (hpath.2 hn))

theorem mem_names_iff {name : String} :
    name ∈ r.types.map TypeDecl.qualifiedName ↔ r.type? name ≠ none := by
  rw [List.mem_map, ← Option.isSome_iff_ne_none, Option.isSome_iff_exists]
  constructor
  · rintro ⟨d, hd, rfl⟩
    exact ⟨d, type?_qualifiedName.2 hd⟩
  · rintro ⟨d, hd⟩
    exact ⟨d, mem_of_type? hd, qualifiedName_of_type? hd⟩

theorem ListsComponents.mem_cyclePaths_iff (h : r.ListsComponents components)
    {path : List String} : path ∈ r.cyclePaths components ↔ r.IsCyclePath path := by
  rw [Registry.mem_cyclePaths_iff h.toConnectedComponents]
  refine and_iff_left_of_imp fun hpath => ?_
  obtain ⟨start, inner, rfl, -⟩ := hpath.exists_loop
  refine ⟨start, List.mem_cons_self, (h.covers start).2 (mem_names_iff.2 ?_)⟩
  exact (hpath.onCycle List.mem_cons_self).type?_ne_none

theorem listsComponents_of_searched (h : r.Searched components) : r.ListsComponents components where
  toConnectedComponents := h.listing.toConnectedComponents
  disjoint := h.listing.disjoint
  covers n := by
    rw [h.listing.covers, mem_names_iff]
    constructor
    · rintro ⟨s, hs, hreach⟩
      rcases ReflTransGen.cases_tail hreach with rfl | ⟨_, -, hlink⟩
      · exact mem_names_iff.1 hs
      · exact hlink.2
    · intro hn
      exact ⟨n, mem_names_iff.2 hn, .refl⟩

/-- What is reported of the parent links of a registry, from its strongly connected components in
whatever order they are listed: every cycle, as one closed walk from its least name, and nothing
else; every type on a cycle lies on exactly one path, and no other type on any. The walk through a
component always gets back to its start, so its limit changes nothing. Each missing parent is
reported with its type, in the order of registration. -/
theorem inheritance_report (r : Registry) {components : List (List String)}
    (h : r.ListsComponents components) :
    (∀ path, path ∈ r.cyclePaths components ↔ r.IsCyclePath path) ∧
      (r.cyclePaths components).Nodup ∧
      (∀ name, r.OnCycle name ↔ ∃ path ∈ r.cyclePaths components, name ∈ path) ∧
      (∀ path ∈ r.cyclePaths components, ∀ path' ∈ r.cyclePaths components, ∀ name,
        name ∈ path → name ∈ path' → path = path') ∧
      (∀ members ∈ components, r.isCyclic members = true →
        r.cyclePath members ∈ r.cyclePaths components ∧
        (∀ n, n ∈ r.cyclePath members ↔ n ∈ members) ∧
        ∃ start, leastName members = some start ∧ ∀ limit, members.length ≤ limit →
          r.cyclePath members = start :: r.walkBack start limit start) ∧
      (∀ name parent, (name, parent) ∈ r.missingParents ↔
        ∃ d ∈ r.types, d.qualifiedName = name ∧ d.parent = some parent ∧ r.type? parent = none) ∧
      (r.missingParents.map Prod.fst).Sublist (r.types.map TypeDecl.qualifiedName) := by
  have hmem {path : List String} : path ∈ r.cyclePaths components ↔ r.IsCyclePath path :=
    h.mem_cyclePaths_iff
  refine ⟨fun _ => hmem, nodup_cyclePaths h.toConnectedComponents h.disjoint, fun name => ?_, ?_,
    fun members hmembers hcyclic => ?_, fun _ _ => mem_missingParents_iff,
    r.map_fst_missingParents_sublist⟩
  · simp only [hmem, onCycle_iff, mem_cycles_iff]
  · intro path hpath path' hpath' name hname hname'
    exact (hmem.1 hpath).eq_of_mem (hmem.1 hpath') hname hname'
  · obtain ⟨-, hsame, hwalk⟩ :=
      (isComponent h.toConnectedComponents hmembers hcyclic).cyclePath_mem
    exact ⟨List.mem_map_of_mem (List.mem_filter.2 ⟨hmembers, hcyclic⟩), hsame, hwalk⟩

end

namespace Loops

def child (name parent : String) : TypeDecl where
  ns := "a"
  name := name
  parent := some parent

/-- The first type leads into a cycle of two types, the second is a cycle of its own. -/
def registry : Registry :=
  (((empty.register (child "C" "a.A")).register (child "D" "a.D")).register
    (child "A" "a.B")).register (child "B" "a.A")

def reordered : Registry :=
  (((empty.register (child "D" "a.D")).register (child "B" "a.A")).register
    (child "A" "a.B")).register (child "C" "a.A")

end Loops

theorem isCyclePath_pair : Loops.registry.IsCyclePath ["a.A", "a.B", "a.A"] where
  links := by
    refine List.isChain_cons_cons.2 ⟨rfl, List.isChain_cons_cons.2 ⟨rfl, ?_⟩⟩
    exact List.isChain_singleton _
  closed := ⟨"a.A", ["a.B"], rfl, by decide, by decide⟩

theorem isCyclePath_single : Loops.reordered.IsCyclePath ["a.D", "a.D"] where
  links := List.isChain_cons_cons.2 ⟨rfl, List.isChain_singleton _⟩
  closed := ⟨"a.D", [], rfl, by decide, by decide⟩

/-- Both cycles are reported once, in some order, and no path goes through the type that only leads
into one. -/
theorem inheritance_report_of_loops : ∃ components, Loops.registry.ListsComponents components ∧
    (Loops.registry.cyclePaths components).Perm [["a.A", "a.B", "a.A"], ["a.D", "a.D"]] ∧
    ¬ Loops.registry.OnCycle "a.C" := by
  obtain ⟨components, hsearched⟩ := Loops.registry.exists_componentSearch
    (Loops.registry.types.map TypeDecl.qualifiedName)
  have hlists : Loops.registry.ListsComponents components := listsComponents_of_searched hsearched
  obtain ⟨hpaths, hnodup, hcycle, -⟩ := inheritance_report Loops.registry hlists
  have hcycles : Loops.registry.cycles = [["a.A", "a.B", "a.A"], ["a.D", "a.D"]] := by
    decide +kernel
  have hmem (path : List String) : path ∈ Loops.registry.cyclePaths components ↔
      path ∈ [["a.A", "a.B", "a.A"], ["a.D", "a.D"]] := by
    rw [hpaths, ← mem_cycles_iff, hcycles]
  refine ⟨components, hlists, (List.perm_ext_iff_of_nodup hnodup (by decide)).2 hmem, ?_⟩
  rw [hcycle]
  rintro ⟨path, hpath, hc⟩
  rw [hmem] at hpath
  revert path
  decide

variable {starts : List String} {done new : List (List String)} {start : String}

/-- One start reports the cycle that its walk enters, if no walk before has entered it. -/
theorem mem_cyclePaths_of_searchStep (hdone : ComponentSearch r.Edge starts done)
    (h : SearchStep r.Edge done start new) {path : List String} :
    path ∈ r.cyclePaths new ↔
      r.cycleFrom? start = some path ∧ path ∉ starts.filterMap r.cycleFrom? := by
  have hentered {n : String} (hpath : r.IsCyclePath path) (hn : n ∈ path) :
      n ∈ done.flatten ↔ path ∈ starts.filterMap r.cycleFrom? := by
    rw [hdone.mem_flatten_iff, List.mem_filterMap]
    refine exists_congr fun s => and_congr_right fun _ => ?_
    rw [reaches_edge_iff (hpath.onCycle hn).type?_ne_none, cycleFrom?_eq_some_iff,
      and_iff_right hpath, enters_iff hpath hn]
  rw [mem_cyclePaths_iff h.completed.toConnectedComponents, cycleFrom?_eq_some_iff, and_assoc]
  refine and_congr_right fun hpath => ?_
  constructor
  · rintro ⟨n, hn, hflat⟩
    obtain ⟨hreach, hnew⟩ := (h.reached n).1 hflat
    exact ⟨⟨n, hn, ReflTransGen.mono r.edge_le_parentLink start n hreach⟩,
      mt (hentered hpath hn).2 hnew⟩
  · rintro ⟨⟨n, hn, hreach⟩, hnew⟩
    refine ⟨n, hn, (h.reached n).2 ⟨?_, mt (hentered hpath hn).1 hnew⟩⟩
    exact (reaches_edge_iff (hpath.onCycle hn).type?_ne_none).2 hreach

theorem cyclePaths_of_searchStep (hdone : ComponentSearch r.Edge starts done)
    (h : SearchStep r.Edge done start new) : r.cyclePaths new =
      (([start].filterMap r.cycleFrom?).removeAll (starts.filterMap r.cycleFrom?)).eraseDups := by
  have hperm : (r.cyclePaths new).Perm
      (([start].filterMap r.cycleFrom?).removeAll (starts.filterMap r.cycleFrom?)).eraseDups := by
    rw [List.perm_ext_iff_of_nodup
      (nodup_cyclePaths h.completed.toConnectedComponents h.completed.disjoint) (nodup_eraseDups _)]
    intro path
    rw [mem_cyclePaths_of_searchStep hdone h, List.mem_eraseDups, List.removeAll, List.mem_filter]
    simp
  -- There is at most one path on either side.
  cases hcycle : r.cycleFrom? start with
  | none =>
    simp only [List.filterMap_cons, hcycle, List.filterMap_nil] at hperm ⊢
    exact List.perm_nil.1 hperm
  | some path =>
    simp only [List.filterMap_cons, hcycle, List.filterMap_nil, List.cons_removeAll,
      List.nil_removeAll] at hperm ⊢
    by_cases hbefore : (starts.filterMap r.cycleFrom?).contains path = false
    · rw [if_pos hbefore] at hperm ⊢
      exact List.perm_singleton.1 hperm
    · rw [if_neg hbefore] at hperm ⊢
      exact List.perm_nil.1 hperm

/-- The cycles come in the order in which walks from the starts enter them for the first time. -/
theorem cyclePaths_of_search {components : List (List String)}
    (h : ComponentSearch r.Edge starts components) :
    r.cyclePaths components = (starts.filterMap r.cycleFrom?).eraseDups := by
  induction h with
  | nil => rfl
  | @snoc starts done start new before step ih =>
    have happend : r.cyclePaths (done ++ new) = r.cyclePaths done ++ r.cyclePaths new := by
      rw [cyclePaths, List.filter_append, List.map_append]
      rfl
    rw [happend, ih, cyclePaths_of_searchStep before step, List.filterMap_append,
      List.eraseDups_append]

theorem cyclePaths_eq_cycles {components : List (List String)} (h : r.Searched components) :
    r.cyclePaths components = r.cycles := by
  rw [cyclePaths_of_search h, List.filterMap_map]
  rfl

end Registry

end LedgerSchema
