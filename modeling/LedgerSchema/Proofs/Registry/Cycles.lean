import Mathlib
import LedgerSchema.Proofs.Registry.Lineage
import LedgerSchema.Registry.Inheritance

/-!
Cycles of parent links. A type has at most one parent, so whatever is reached from a cycle lies on
it, and the walk from its least name runs once through all of it. Main statement: the reported paths
are exactly these walks, each once, whatever the order in which the members of a cycle are listed.
-/

set_option autoImplicit false

namespace LedgerSchema

open Relation

theorem leastName_eq_none_iff {names : List String} : leastName names = none ↔ names = [] := by
  cases names with
  | nil => simp [leastName]
  | cons n rest =>
    rw [leastName]
    split
    · simp
    · split <;> simp

theorem leastName_eq_some_iff {names : List String} {m : String} :
    leastName names = some m ↔ m ∈ names ∧ ∀ n ∈ names, m ≤ n := by
  induction names generalizing m with
  | nil => simp [leastName]
  | cons n rest ih =>
    rw [leastName]
    split
    · rename_i hrest
      obtain rfl := leastName_eq_none_iff.1 hrest
      simp +contextual [eq_comm]
    · rename_i k hrest
      obtain ⟨hmem, hle⟩ := ih.1 hrest
      split
      · rename_i hlt
        rw [Option.some.injEq]
        constructor
        · rintro rfl
          exact ⟨List.mem_cons_of_mem _ hmem, List.forall_mem_cons.2 ⟨hlt.le, hle⟩⟩
        · rintro ⟨hm, hall⟩
          have hk := hall k (List.mem_cons_of_mem _ hmem)
          rcases List.mem_cons.1 hm with rfl | hm
          · exact absurd hlt (not_lt.2 hk)
          · exact le_antisymm (hle m hm) hk
      · rename_i hge
        have hnk : n ≤ k := not_lt.1 hge
        rw [Option.some.injEq]
        constructor
        · rintro rfl
          refine ⟨List.mem_cons_self, List.forall_mem_cons.2 ⟨le_rfl, fun x hx => ?_⟩⟩
          exact hnk.trans (hle x hx)
        · rintro ⟨hm, hall⟩
          refine le_antisymm ?_ (hall n List.mem_cons_self)
          rcases List.mem_cons.1 hm with rfl | hm
          · exact le_rfl
          · exact hnk.trans (hle m hm)

theorem transGen_of_isChain {R : String → String → Prop} {a b : String} {l : List String}
    (h : (a :: l).IsChain R) (hb : b ∈ l) : TransGen R a b := by
  induction l generalizing a with
  | nil => simp at hb
  | cons c l ih =>
    obtain ⟨hac, hrest⟩ := List.isChain_cons_cons.1 h
    rcases List.mem_cons.1 hb with rfl | hb
    · exact .single hac
    · exact .head hac (ih hrest hb)

theorem nodup_eraseDups {α : Type} [BEq α] [LawfulBEq α] (l : List α) : l.eraseDups.Nodup := by
  induction hlength : l.length using Nat.strong_induction_on generalizing l with
  | _ length ih =>
    cases l with
    | nil => simp
    | cons a rest =>
      rw [List.eraseDups_cons, List.nodup_cons]
      refine ⟨by simp, ih _ ?_ _ rfl⟩
      rw [← hlength]
      exact Nat.lt_succ_of_le (List.length_filter_le _ _)

namespace Registry

variable {r : Registry}

/-- The members of a cycle in the order of the links, starting anywhere. -/
structure IsLoop (r : Registry) (members : List String) : Prop where
  nodup : members.Nodup
  links : ∃ first ∈ members.head?, (members ++ [first]).IsChain r.ParentLink

theorem IsLoop.rotate {before after : List String} {name : String}
    (h : r.IsLoop (before ++ name :: after)) : r.IsLoop (name :: (after ++ before)) := by
  obtain ⟨hnodup, first, hfirst, hlinks⟩ := h
  refine ⟨List.perm_append_comm.nodup_iff.1 hnodup, name, rfl, ?_⟩
  cases before with
  | nil =>
    obtain rfl : name = first := by simpa using hfirst
    simpa using hlinks
  | cons a before =>
    obtain rfl : a = first := by simpa using hfirst
    have hsplit : (a :: before ++ name :: (after ++ [a])).IsChain r.ParentLink := by
      simpa using hlinks
    obtain ⟨hfront, hback⟩ := List.isChain_split.1 hsplit
    have hjoined : (name :: after ++ a :: (before ++ [name])).IsChain r.ParentLink :=
      List.isChain_split.2 ⟨hback, hfront⟩
    simpa using hjoined

theorem IsLoop.exists_rotation {members : List String} (h : r.IsLoop members) {name : String}
    (hname : name ∈ members) :
    ∃ rest, r.IsLoop (name :: rest) ∧ (name :: rest).Perm members := by
  obtain ⟨before, after, rfl⟩ := List.append_of_mem hname
  have hperm : (name :: after ++ before).Perm (before ++ name :: after) := List.perm_append_comm
  exact ⟨after ++ before, h.rotate, hperm⟩

theorem IsLoop.isChain {first : String} {rest : List String} (h : r.IsLoop (first :: rest)) :
    (first :: (rest ++ [first])).IsChain r.ParentLink := by
  obtain ⟨-, first', hfirst, hlinks⟩ := h
  obtain rfl : first = first' := by simpa using hfirst
  exact hlinks

theorem IsLoop.mem_iff {members : List String} (h : r.IsLoop members) {n m : String}
    (hn : n ∈ members) : m ∈ members ↔ TransGen r.ParentLink n m := by
  constructor
  · intro hm
    obtain ⟨rest, hloop, hperm⟩ := h.exists_rotation hn
    refine transGen_of_isChain hloop.isChain ?_
    rw [← hperm.mem_iff] at hm
    simpa [or_comm] using hm
  · have hnext {a b : String} (ha : a ∈ members) (hab : r.ParentLink a b) : b ∈ members := by
      obtain ⟨rest, hloop, hperm⟩ := h.exists_rotation ha
      have hlinks := hloop.isChain
      rw [← hperm.mem_iff]
      cases rest with
      | nil =>
        rw [hab.unique (List.isChain_cons_cons.1 hlinks).1]
        exact List.mem_cons_self
      | cons c rest =>
        rw [hab.unique (List.isChain_cons_cons.1 hlinks).1]
        simp
    intro hnm
    induction hnm with
    | single hlink => exact hnext hn hlink
    | tail _ hlink ih => exact hnext ih hlink

theorem IsLoop.onCycle {members : List String} (h : r.IsLoop members) {n : String}
    (hn : n ∈ members) : r.OnCycle n := (h.mem_iff hn).1 hn

/-- As it is reported, a cycle starts and ends at its least name. -/
structure IsCyclePath (r : Registry) (path : List String) : Prop where
  links : path.IsChain r.ParentLink
  closed : ∃ start inner, path = start :: (inner ++ [start]) ∧ (start :: inner).Nodup ∧
    ∀ n ∈ inner, start ≤ n

theorem IsCyclePath.exists_loop {path : List String} (h : r.IsCyclePath path) :
    ∃ start inner, path = start :: (inner ++ [start]) ∧ r.IsLoop (start :: inner) ∧
      ∀ n ∈ inner, start ≤ n := by
  obtain ⟨hlinks, start, inner, rfl, hnodup, hleast⟩ := h
  exact ⟨start, inner, rfl, ⟨hnodup, start, rfl, hlinks⟩, hleast⟩

/-- The walk along a cycle stops where it started, for every limit that lets it get there. -/
theorem walkBack_of_isChain {start name : String} {inner : List String} {limit : Nat}
    (hlinks : (name :: (inner ++ [start])).IsChain r.ParentLink) (hstart : start ∉ inner)
    (hlimit : inner.length < limit) : r.walkBack start limit name = inner ++ [start] := by
  induction inner generalizing name limit with
  | nil =>
    obtain ⟨limit, rfl⟩ := Nat.exists_eq_add_of_lt hlimit
    have hlink : r.parentName? name = some start := (List.isChain_cons_cons.1 hlinks).1
    simp [walkBack, hlink]
  | cons next inner ih =>
    obtain ⟨limit, rfl⟩ : ∃ k, limit = k + 1 := ⟨limit - 1, by omega⟩
    obtain ⟨hlink, hrest⟩ := List.isChain_cons_cons.1 hlinks
    change r.parentName? name = some next at hlink
    have hne : next ≠ start := by
      rintro rfl
      exact hstart List.mem_cons_self
    simp only [walkBack, hlink, if_neg hne]
    rw [ih hrest (fun hmem => hstart (List.mem_cons_of_mem _ hmem)) (by simpa using hlimit)]
    rfl

/-- The path of a cycle does not depend on the order in which its members are listed, and a greater
limit would not have made it longer. -/
theorem IsLoop.exists_walk {loop members : List String} (hloop : r.IsLoop loop)
    (hmem : ∀ n, n ∈ members ↔ n ∈ loop) (hnodup : members.Nodup) :
    ∃ start inner, leastName members = some start ∧ r.IsLoop (start :: inner) ∧
      (∀ n, n ∈ start :: inner ↔ n ∈ members) ∧ (∀ n ∈ inner, start ≤ n) ∧
      ∀ limit, members.length ≤ limit → r.walkBack start limit start = inner ++ [start] := by
  obtain ⟨first, hfirst, -⟩ := hloop.links
  have hne : members ≠ [] :=
    List.ne_nil_of_mem ((hmem first).2 (List.mem_of_head? hfirst))
  obtain ⟨start, hstart⟩ := Option.ne_none_iff_exists'.1 (mt leastName_eq_none_iff.1 hne)
  obtain ⟨hin, hleast⟩ := leastName_eq_some_iff.1 hstart
  obtain ⟨inner, hrotated, hperm⟩ := hloop.exists_rotation ((hmem start).1 hin)
  have hsame (n : String) : n ∈ start :: inner ↔ n ∈ members := by rw [hperm.mem_iff, hmem]
  have hlength : members.length = inner.length + 1 :=
    ((List.perm_ext_iff_of_nodup hnodup hrotated.nodup).2 fun n => (hsame n).symm).length_eq
  refine ⟨start, inner, hstart, hrotated, hsame, fun n hn => ?_, fun limit hlimit => ?_⟩
  · exact hleast n ((hsame n).1 (List.mem_cons_of_mem _ hn))
  · refine walkBack_of_isChain hrotated.isChain (List.nodup_cons.1 hrotated.nodup).1 ?_
    omega

theorem IsLoop.isCyclePath_cyclePath {loop members : List String} (hloop : r.IsLoop loop)
    (hmem : ∀ n, n ∈ members ↔ n ∈ loop) (hnodup : members.Nodup) :
    r.IsCyclePath (r.cyclePath members) ∧ ∀ n, n ∈ r.cyclePath members ↔ n ∈ members := by
  obtain ⟨start, inner, hstart, hrotated, hsame, hleast, hwalk⟩ := hloop.exists_walk hmem hnodup
  have hpath : r.cyclePath members = start :: (inner ++ [start]) := by
    rw [cyclePath, hstart]
    dsimp only
    rw [hwalk _ le_rfl]
  rw [hpath]
  refine ⟨⟨hrotated.isChain, start, inner, rfl, hrotated.nodup, hleast⟩, fun n => ?_⟩
  rw [← hsame n]
  simp [or_comm]

theorem IsCyclePath.mem_iff {path : List String} (h : r.IsCyclePath path) {n m : String}
    (hn : n ∈ path) : m ∈ path ↔ TransGen r.ParentLink n m := by
  obtain ⟨start, inner, rfl, hloop, -⟩ := h.exists_loop
  have hmem (x : String) : x ∈ start :: (inner ++ [start]) ↔ x ∈ start :: inner := by
    simp [or_comm]
  rw [hmem] at hn ⊢
  exact hloop.mem_iff hn

theorem IsCyclePath.onCycle {path : List String} (h : r.IsCyclePath path) {n : String}
    (hn : n ∈ path) : r.OnCycle n := (h.mem_iff hn).1 hn

theorem IsCyclePath.eq_of_mem {path path' : List String} (h : r.IsCyclePath path)
    (h' : r.IsCyclePath path') {n : String} (hn : n ∈ path) (hn' : n ∈ path') : path = path' := by
  have hmem (m : String) : m ∈ path ↔ m ∈ path' := by rw [h.mem_iff hn, h'.mem_iff hn']
  obtain ⟨start, inner, rfl, hloop, hleast⟩ := h.exists_loop
  obtain ⟨start', inner', rfl, hloop', hleast'⟩ := h'.exists_loop
  have hstart : start = start' := by
    have hone : start ∈ start' :: (inner' ++ [start']) := (hmem start).1 (by simp)
    have htwo : start' ∈ start :: (inner ++ [start]) := (hmem start').2 (by simp)
    simp only [List.mem_cons, List.mem_append, List.not_mem_nil, or_false] at hone htwo
    have hle : start' ≤ start := by
      rcases hone with rfl | hone | rfl
      · exact le_rfl
      · exact hleast' _ hone
      · exact le_rfl
    have hge : start ≤ start' := by
      rcases htwo with rfl | htwo | rfl
      · exact le_rfl
      · exact hleast _ htwo
      · exact le_rfl
    exact le_antisymm hge hle
  subst hstart
  have hfits : inner.length < inner.length + inner'.length + 1 := by omega
  have hfits' : inner'.length < inner.length + inner'.length + 1 := by omega
  have hwalk := walkBack_of_isChain hloop.isChain (List.nodup_cons.1 hloop.nodup).1 hfits
  have hwalk' := walkBack_of_isChain hloop'.isChain (List.nodup_cons.1 hloop'.nodup).1 hfits'
  rw [← hwalk, ← hwalk']

/-- Parent links lead back from everything that is reached from a cycle. -/
theorem OnCycle.reaches_back {n m : String} (h : r.OnCycle n)
    (hm : ReflTransGen r.ParentLink n m) : ReflTransGen r.ParentLink m n := by
  induction hm with
  | refl => exact .refl
  | tail _ hlink ih =>
    rcases ReflTransGen.cases_head ih with rfl | ⟨next, hnext, hback⟩
    · obtain ⟨next, hnext, hback⟩ := TransGen.head'_iff.1 h
      rwa [hlink.unique hnext]
    · rwa [hlink.unique hnext]

theorem type?_ne_none_of_reaches {n m : String} (h : ReflTransGen r.ParentLink n m)
    (hm : r.type? m ≠ none) : r.type? n ≠ none := by
  rcases ReflTransGen.cases_head h with rfl | ⟨next, hlink, -⟩
  · exact hm
  · obtain ⟨d, hd, -⟩ := parentLink_iff.1 hlink
    simp [hd]

theorem OnCycle.type?_ne_none {n : String} (h : r.OnCycle n) : r.type? n ≠ none := by
  obtain ⟨next, hnext, -⟩ := TransGen.head'_iff.1 h
  obtain ⟨d, hd, -⟩ := parentLink_iff.1 hnext
  simp [hd]

theorem OnCycle.of_reaches {n m : String} (h : r.OnCycle n)
    (hm : ReflTransGen r.ParentLink n m) : r.OnCycle m :=
  (TransGen.trans_right (h.reaches_back hm) h).trans_left hm

theorem dropWhile_ne_of_mem {entry : String} {names : List String} (h : entry ∈ names) :
    ∃ before after, names = before ++ entry :: after ∧
      names.dropWhile (· ≠ entry) = entry :: after := by
  obtain ⟨before, after, rfl, hbefore⟩ := List.eq_append_cons_of_mem h
  refine ⟨before, after, rfl, ?_⟩
  rw [List.dropWhile_append_of_pos]
  · simp
  · intro n hn
    rw [decide_eq_true_eq]
    rintro rfl
    exact hbefore hn

/-- A line that leads back into itself ends with a cycle. -/
theorem isLoop_of_walk {line : List TypeDecl} {name entry : String} (h : r.Walk [] name line)
    {last : TypeDecl} (hlast : line.getLast? = some last) (hparent : last.parent = some entry)
    (hentry : entry ∈ line.map TypeDecl.qualifiedName) :
    r.IsLoop ((line.map TypeDecl.qualifiedName).dropWhile (· ≠ entry)) := by
  have hlink : r.ParentLink last.qualifiedName entry :=
    parentLink_iff.2 ⟨last, (h.type?_of_mem (List.mem_of_getLast? hlast)).1, hparent⟩
  have hend : (line.map TypeDecl.qualifiedName).getLast? = some last.qualifiedName := by
    rw [List.getLast?_map, hlast]
    rfl
  obtain ⟨before, after, hnames, hdrop⟩ := dropWhile_ne_of_mem hentry
  have hsuffix : entry :: after <:+ line.map TypeDecl.qualifiedName := ⟨before, hnames.symm⟩
  rw [hnames, List.getLast?_append_cons] at hend
  rw [hdrop]
  refine ⟨h.nodup.sublist hsuffix.sublist, entry, rfl, ?_⟩
  refine List.isChain_append.2 ⟨h.isChain.suffix hsuffix, by simp, fun a ha b hb => ?_⟩
  obtain rfl : last.qualifiedName = a := Option.some.inj (hend.symm.trans ha)
  obtain rfl : entry = b := by simpa using hb
  exact hlink

theorem cycleFrom?_eq_some {name : String} {path : List String}
    (h : r.cycleFrom? name = some path) :
    ∃ loop, r.IsLoop loop ∧ path = r.cyclePath loop ∧
      ∀ n ∈ loop, ReflTransGen r.ParentLink name n := by
  unfold cycleFrom? at h
  dsimp only at h
  split at h
  · cases h
  · rename_i entry hentry
    obtain ⟨last, hlast, hparent⟩ := Option.bind_eq_some_iff.1 hentry
    split at h
    · rename_i hmem
      obtain rfl := Option.some.inj h
      refine ⟨_, isLoop_of_walk (r.walk_ancestors name) hlast hparent hmem, rfl, ?_⟩
      intro n hn
      obtain ⟨d, hd, rfl⟩ := List.mem_map.1 ((List.dropWhile_suffix _).subset hn)
      exact (r.walk_ancestors name).reaches hd
    · cases h

/-- A line that meets a cycle leads into it. -/
theorem OnCycle.cycleFrom?_of_reaches {name n : String} (h : r.OnCycle n)
    (hreach : ReflTransGen r.ParentLink name n) :
    ∃ loop, r.IsLoop loop ∧ n ∈ loop ∧ r.cycleFrom? name = some (r.cyclePath loop) := by
  have hwalk := r.walk_ancestors name
  have hne : r.ancestors name ≠ [] :=
    mt ancestors_eq_nil_iff.1 (type?_ne_none_of_reaches hreach h.type?_ne_none)
  obtain ⟨last, hlast⟩ : ∃ last, (r.ancestors name).getLast? = some last :=
    ⟨_, List.getLast?_eq_some_getLast hne⟩
  have hmem : last ∈ r.ancestors name := List.mem_of_getLast? hlast
  -- The line is one chain, so its last type lies before the cycle or on it.
  have hback : ReflTransGen r.ParentLink last.qualifiedName n := by
    rcases ReflTransGen.total_of_right_unique (fun _ _ _ hp hq => hp.unique hq) hreach
      (hwalk.reaches hmem) with hto | hfrom
    · exact h.reaches_back hto
    · exact hfrom
  obtain ⟨entry, hlink, hentryReach⟩ := TransGen.head'_iff.1 (TransGen.trans_right hback h)
  obtain ⟨d, hd, hparent⟩ := parentLink_iff.1 hlink
  obtain rfl := Option.some.inj (hd.symm.trans (hwalk.type?_of_mem hmem).1)
  have hentry : entry ∈ (r.ancestors name).map TypeDecl.qualifiedName :=
    (hwalk.parent_mem hmem hparent
      (type?_ne_none_of_reaches hentryReach h.type?_ne_none)).resolve_left List.not_mem_nil
  have hloop := isLoop_of_walk hwalk hlast hparent hentry
  refine ⟨_, hloop, ?_, ?_⟩
  · obtain ⟨before, after, -, hdrop⟩ := dropWhile_ne_of_mem hentry
    rw [hdrop] at hloop ⊢
    rw [hloop.mem_iff List.mem_cons_self]
    exact TransGen.trans_right hentryReach h
  · simp only [Registry.cycleFrom?, hlast, Option.bind_some, hparent, if_pos hentry]

theorem isCyclePath_of_mem_cycles {path : List String} (h : path ∈ r.cycles) :
    r.IsCyclePath path := by
  rw [cycles, List.mem_eraseDups, List.mem_filterMap] at h
  obtain ⟨d, -, hd⟩ := h
  obtain ⟨loop, hloop, rfl, -⟩ := cycleFrom?_eq_some hd
  exact (hloop.isCyclePath_cyclePath (fun _ => Iff.rfl) hloop.nodup).1

theorem OnCycle.exists_mem_cycles {name : String} (h : r.OnCycle name) :
    ∃ path ∈ r.cycles, name ∈ path := by
  obtain ⟨loop, hloop, hname, hcycle⟩ := h.cycleFrom?_of_reaches .refl
  obtain ⟨d, hd⟩ := Option.ne_none_iff_exists'.1 h.type?_ne_none
  refine ⟨r.cyclePath loop, ?_, ?_⟩
  · rw [cycles, List.mem_eraseDups, List.mem_filterMap]
    exact ⟨d, mem_of_type? hd, by rw [qualifiedName_of_type? hd, hcycle]⟩
  · exact ((hloop.isCyclePath_cyclePath (fun _ => Iff.rfl) hloop.nodup).2 name).2 hname

theorem mem_cycles_iff {path : List String} : path ∈ r.cycles ↔ r.IsCyclePath path := by
  constructor
  · exact isCyclePath_of_mem_cycles
  · intro h
    obtain ⟨start, inner, hpath, -, -⟩ := h.exists_loop
    have hstart : start ∈ path := by simp [hpath]
    obtain ⟨path', hpath', hmem⟩ := (h.onCycle hstart).exists_mem_cycles
    rwa [h.eq_of_mem (isCyclePath_of_mem_cycles hpath') hstart hmem]

theorem onCycle_iff {name : String} : r.OnCycle name ↔ ∃ path ∈ r.cycles, name ∈ path := by
  constructor
  · exact OnCycle.exists_mem_cycles
  · rintro ⟨path, hpath, hname⟩
    exact (isCyclePath_of_mem_cycles hpath).onCycle hname

theorem cycles_eq_nil_iff : r.cycles = [] ↔ ∀ name, ¬ r.OnCycle name := by
  constructor
  · intro h name hname
    obtain ⟨path, hpath, -⟩ := onCycle_iff.1 hname
    rw [h] at hpath
    cases hpath
  · intro h
    refine List.eq_nil_iff_forall_not_mem.2 fun path hpath => ?_
    obtain ⟨start, inner, rfl, hloop, -⟩ := (isCyclePath_of_mem_cycles hpath).exists_loop
    exact h start (hloop.onCycle List.mem_cons_self)

theorem missingParent_eq_some_iff {d : TypeDecl} {name parent : String} :
    (match d.parent with
      | none => none
      | some p => if (r.type? p).isNone then some (d.qualifiedName, p) else none) =
        some (name, parent) ↔
      d.qualifiedName = name ∧ d.parent = some parent ∧ r.type? parent = none := by
  cases d.parent with
  | none => simp
  | some p =>
    simp only [Option.isNone_iff_eq_none, Option.ite_none_right_eq_some, Option.some.injEq,
      Prod.mk.injEq]
    constructor
    · rintro ⟨htype, hname, rfl⟩
      exact ⟨hname, rfl, htype⟩
    · rintro ⟨hname, rfl, htype⟩
      exact ⟨htype, hname, rfl⟩

theorem mem_missingParents_iff {name parent : String} :
    (name, parent) ∈ r.missingParents ↔
      ∃ d ∈ r.types, d.qualifiedName = name ∧ d.parent = some parent ∧ r.type? parent = none := by
  rw [missingParents, List.mem_filterMap]
  exact exists_congr fun d => and_congr_right fun _ => missingParent_eq_some_iff

theorem map_fst_missingParents_sublist (r : Registry) :
    (r.missingParents.map Prod.fst).Sublist (r.types.map TypeDecl.qualifiedName) := by
  unfold missingParents
  induction r.types with
  | nil => simp
  | cons d rest ih =>
    rw [List.filterMap_cons, List.map_cons]
    split
    · exact ih.cons _
    · rename_i entry hentry
      obtain ⟨name, parent⟩ := entry
      obtain ⟨rfl, -, -⟩ := missingParent_eq_some_iff.1 hentry
      exact ih.cons_cons _

/-- A strongly connected part of the parent links that has a cycle, its members in any order. -/
structure IsComponent (r : Registry) (members : List String) : Prop where
  nodup : members.Nodup
  cyclic : ∃ n ∈ members, r.OnCycle n
  connected : ∀ n ∈ members, ∀ m, m ∈ members ↔
    ReflTransGen r.ParentLink n m ∧ ReflTransGen r.ParentLink m n

theorem IsComponent.exists_loop {members : List String} (h : r.IsComponent members) :
    ∃ loop, r.IsLoop loop ∧ ∀ n, n ∈ members ↔ n ∈ loop := by
  obtain ⟨n, hn, hcycle⟩ := h.cyclic
  obtain ⟨loop, hloop, hmem, -⟩ := hcycle.cycleFrom?_of_reaches .refl
  refine ⟨loop, hloop, fun m => ?_⟩
  rw [h.connected n hn, hloop.mem_iff hmem]
  constructor
  · rintro ⟨hnm, -⟩
    exact TransGen.trans_left hcycle hnm
  · intro hnm
    exact ⟨hnm.to_reflTransGen, hcycle.reaches_back hnm.to_reflTransGen⟩

/-- Whatever the order of its members, a component gives a reported path, and the walk along it is
not cut short by its limit. -/
theorem IsComponent.cyclePath_mem {members : List String} (h : r.IsComponent members) :
    r.cyclePath members ∈ r.cycles ∧ (∀ n, n ∈ r.cyclePath members ↔ n ∈ members) ∧
      ∃ start, leastName members = some start ∧ ∀ limit, members.length ≤ limit →
        r.cyclePath members = start :: r.walkBack start limit start := by
  obtain ⟨loop, hloop, hmem⟩ := h.exists_loop
  obtain ⟨hpath, hsame⟩ := hloop.isCyclePath_cyclePath hmem h.nodup
  obtain ⟨start, inner, hstart, -, -, -, hwalk⟩ := hloop.exists_walk hmem h.nodup
  refine ⟨mem_cycles_iff.2 hpath, hsame, start, hstart, fun limit hlimit => ?_⟩
  rw [cyclePath, hstart]
  dsimp only
  rw [hwalk _ le_rfl, hwalk _ hlimit]

end Registry

end LedgerSchema
