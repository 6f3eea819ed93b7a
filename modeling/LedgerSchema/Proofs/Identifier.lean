import Mathlib
import LedgerSchema.Identifier
import LedgerSchema.Name
import LedgerSchema.Proofs.Outcome
import LedgerSchema.Proofs.Text.Layout

/-!
The grammar of names. The checks of names accept the texts of the grammar that are neither empty,
nor too long, nor reserved, and refuse every other text for the first of these reasons that applies.
An identifier has no dot, so the last dot of a qualified name is the one between the namespace and
the simple name, and two qualified names are the same only if both of their halves are.
-/

set_option autoImplicit false

namespace LedgerSchema

/-! Segments. -/

theorem splitAt_append_cons {c : Char} {before : List Char} (h : c ∉ before) (after : List Char) :
    splitAt c (before ++ c :: after) = before :: splitAt c after := by
  induction before with
  | nil => simp [splitAt]
  | cons d before ih =>
    rw [List.mem_cons, not_or] at h
    rw [List.cons_append, splitAt, if_neg (Ne.symm h.1), ih h.2]

theorem splitAt_cons_of_ne {c d : Char} (h : d ≠ c) (s : List Char) :
    ∃ first rest, splitAt c (d :: s) = (d :: first) :: rest := by
  rw [splitAt, if_neg h]
  cases splitAt c s with
  | nil => exact ⟨[], [], rfl⟩
  | cons first rest => exact ⟨first, rest, rfl⟩

theorem splitAt_eq_splitOn (c : Char) (s : List Char) : splitAt c s = s.splitOn c := by
  induction s with
  | nil => rw [splitAt, List.splitOn_nil]
  | cons d rest ih =>
    rw [splitAt, List.splitOn_cons_eq_if_modifyHead, ← ih]
    by_cases hd : d = c
    · simp [hd]
    · cases hrest : splitAt c rest with
      | nil => exact absurd (ih.symm.trans hrest) (List.splitOn_ne_nil c rest)
      | cons first others => simp [hd]

theorem not_mem_of_mem_splitAt {c : Char} {s segment : List Char} (h : segment ∈ splitAt c s) :
    c ∉ segment := by
  induction s generalizing segment with
  | nil =>
    rw [splitAt, List.mem_singleton] at h
    rw [h]
    exact List.not_mem_nil
  | cons d rest ih =>
    rw [splitAt] at h
    split at h
    · rcases List.mem_cons.1 h with rfl | h
      · exact List.not_mem_nil
      · exact ih h
    · rename_i hd
      split at h
      · rw [List.mem_singleton.1 h, List.mem_singleton]
        exact Ne.symm hd
      · rename_i first others hsplit
        rw [hsplit] at ih
        rcases List.mem_cons.1 h with rfl | h
        · rw [List.mem_cons, not_or]
          exact ⟨Ne.symm hd, ih List.mem_cons_self⟩
        · exact ih (List.mem_cons_of_mem _ h)

def segmentsOf (name : String) : List String := (splitAt '.' name.toList).map .ofList

theorem map_toList_segmentsOf (name : String) :
    (segmentsOf name).map String.toList = splitAt '.' name.toList := by
  rw [segmentsOf, List.map_map]
  exact (List.map_congr_left fun _ _ => String.toList_ofList).trans (List.map_id _)

theorem segmentsOf_eq_iff {name : String} {segments : List String} :
    segmentsOf name = segments ↔ segments ≠ [] ∧ (∀ s ∈ segments, '.' ∉ s.toList) ∧
      name = ".".intercalate segments := by
  have hdot : ".".toList = ['.'] := by simp
  rw [← toList_inj_on, map_toList_segmentsOf, splitAt_eq_splitOn]
  constructor
  · intro h
    refine ⟨?_, ?_, ?_⟩
    · rintro rfl
      exact List.splitOn_ne_nil '.' name.toList h
    · intro s hs
      apply not_mem_of_mem_splitAt (s := name.toList)
      rw [splitAt_eq_splitOn, h]
      exact List.mem_map_of_mem hs
    · rw [← String.toList_inj, String.toList_intercalate, hdot, ← h]
      exact (List.intercalate_splitOn '.').symm
  · rintro ⟨hne, hdots, rfl⟩
    rw [String.toList_intercalate, hdot]
    apply List.splitOn_intercalate
    · simpa using hdots
    · simpa using hne

/-! The grammar. -/

/-- The letters of ASCII, `_` and `$`. -/
def IsNameLetter (c : Char) : Prop :=
  ('A' ≤ c ∧ c ≤ 'Z') ∨ ('a' ≤ c ∧ c ≤ 'z') ∨ c = '_' ∨ c = '$'

def IsNameLetterOrDigit (c : Char) : Prop := IsNameLetter c ∨ ('0' ≤ c ∧ c ≤ '9')

/-- A letter, and any number of letters and digits after it. -/
def IsIdentifier (name : String) : Prop :=
  ∃ first rest, name.toList = first :: rest ∧ IsNameLetter first ∧
    ∀ c ∈ rest, IsNameLetterOrDigit c

/-- One or more identifiers with single dots between them. -/
def IsNamespace (name : String) : Prop :=
  ∃ segments : List String, segments ≠ [] ∧ (∀ s ∈ segments, IsIdentifier s) ∧
    name = ".".intercalate segments

theorem isIdentifierStart_iff {c : Char} : isIdentifierStart c = true ↔ IsNameLetter c := by
  simp [isIdentifierStart, IsNameLetter, Char.isAlpha, Char.isUpper, Char.isLower, Char.le_def,
    or_assoc]

theorem isIdentifierChar_iff {c : Char} : isIdentifierChar c = true ↔ IsNameLetterOrDigit c := by
  simp [isIdentifierChar, IsNameLetterOrDigit, isIdentifierStart_iff, Char.isDigit, Char.le_def]

theorem isIdentifier_iff {name : String} : isIdentifier name.toList = true ↔ IsIdentifier name := by
  unfold IsIdentifier
  cases name.toList with
  | nil => simp [isIdentifier]
  | cons first rest => simp [isIdentifier, isIdentifierStart_iff, isIdentifierChar_iff]

theorem not_mem_of_isIdentifier {s : List Char} (h : isIdentifier s = true) {c : Char}
    (hc : isIdentifierChar c = false) : c ∉ s := by
  cases s with
  | nil => simp
  | cons first rest =>
    simp only [isIdentifier, Bool.and_eq_true, List.all_eq_true] at h
    simp only [isIdentifierChar, Bool.or_eq_false_iff] at hc
    rw [List.mem_cons, not_or]
    constructor
    · rintro rfl
      rw [hc.1] at h
      cases h.1
    · intro hmem
      have := h.2 c hmem
      simp [isIdentifierChar, hc] at this

theorem IsIdentifier.not_mem {name : String} (h : IsIdentifier name) {c : Char}
    (hc : isIdentifierChar c = false) : c ∉ name.toList :=
  not_mem_of_isIdentifier (isIdentifier_iff.2 h) hc

theorem isNamespace_iff {name : String} :
    IsNamespace name ↔ ∀ s ∈ segmentsOf name, IsIdentifier s := by
  constructor
  · rintro ⟨segments, hne, hsegments, rfl⟩
    have hdots (s : String) (hs : s ∈ segments) : '.' ∉ s.toList :=
      (hsegments s hs).not_mem (by decide)
    rw [segmentsOf_eq_iff.2 ⟨hne, hdots, rfl⟩]
    exact hsegments
  · intro h
    obtain ⟨hne, -, hname⟩ := segmentsOf_eq_iff.1 (Eq.refl (segmentsOf name))
    exact ⟨segmentsOf name, hne, h, hname⟩

def IsFirstBadSegment (name segment : String) : Prop :=
  ∃ before after, name = ".".intercalate (before ++ segment :: after) ∧
    (∀ s ∈ before ++ segment :: after, '.' ∉ s.toList) ∧
    (∀ s ∈ before, IsIdentifier s) ∧ ¬ IsIdentifier segment

theorem find?_segment_eq_some_iff {name segment : String} :
    (splitAt '.' name.toList).find? (!isIdentifier ·) = some segment.toList ↔
      IsFirstBadSegment name segment := by
  have hsegment : (splitAt '.' name.toList).find? (!isIdentifier ·) = some segment.toList ↔
      (segmentsOf name).find? (!isIdentifier ·.toList) = some segment := by
    rw [← map_toList_segmentsOf, List.find?_map, Option.map_eq_some_iff]
    simp [String.toList_inj]
  rw [hsegment, List.find?_eq_some_iff_append]
  constructor
  · rintro ⟨hbad, before, after, hsegments, hbefore⟩
    obtain ⟨-, hdots, hname⟩ := segmentsOf_eq_iff.1 hsegments
    refine ⟨before, after, hname, hdots, ?_, ?_⟩
    · intro s hs
      exact isIdentifier_iff.1 (by simpa using hbefore s hs)
    · intro h
      rw [isIdentifier_iff.2 h] at hbad
      cases hbad
  · rintro ⟨before, after, hname, hdots, hbefore, hbad⟩
    refine ⟨?_, before, after, segmentsOf_eq_iff.2 ⟨by simp, hdots, hname⟩, ?_⟩
    · rw [← isIdentifier_iff] at hbad
      simpa using hbad
    · intro s hs
      simpa using isIdentifier_iff.2 (hbefore s hs)

theorem find?_segment_eq_none_iff {name : String} :
    (splitAt '.' name.toList).find? (!isIdentifier ·) = none ↔ IsNamespace name := by
  rw [isNamespace_iff, ← map_toList_segmentsOf, List.find?_eq_none]
  simp [isIdentifier_iff]

/-! The checks. -/

/-- The length of a name is counted in bytes. -/
def HasNameLength (name : String) : Prop := 1 ≤ name.utf8ByteSize ∧ name.utf8ByteSize ≤ 255

theorem hasNameLength_iff {name : String} :
    HasNameLength name ↔ name ≠ "" ∧ name.utf8ByteSize ≤ 255 := by
  rw [HasNameLength, Nat.one_le_iff_ne_zero, Ne, String.utf8ByteSize_eq_zero_iff]

/-- Why a name is refused that has to be of a form and must not be a reserved word. Each of the
reasons goes before the ones below it. -/
inductive Refusal (role : NameRole) (Form : String → Prop)
    (mismatch : String → IdentifierError → Prop) (reserved : List String) (name : String) :
    IdentifierError → Prop
  | empty (h : name = "") : Refusal role Form mismatch reserved name (.empty role)
  | tooLong (h : 255 < name.utf8ByteSize) :
      Refusal role Form mismatch reserved name (.tooLong role name.utf8ByteSize)
  | badForm {e : IdentifierError} (hlength : HasNameLength name) (h : ¬ Form name)
      (he : mismatch name e) : Refusal role Form mismatch reserved name e
  | reservedWord (hlength : HasNameLength name) (hform : Form name) (h : name ∈ reserved) :
      Refusal role Form mismatch reserved name (.reservedWord role name)

abbrev IdentifierRefusal (role : NameRole) : String → IdentifierError → Prop :=
  Refusal role IsIdentifier (fun name e => e = .badIdentifier role name) reservedWords

abbrev NamespaceRefusal : String → IdentifierError → Prop :=
  Refusal .namespaceName IsNamespace
    (fun name e => ∃ segment, IsFirstBadSegment name segment ∧ e = .badSegment name segment) []

theorem checkLength_eq_ok_iff {role : NameRole} {name : String} :
    checkLength role name = .ok () ↔ HasNameLength name := by
  rw [hasNameLength_iff, checkLength, maxIdentifierBytes]
  split
  · simp [*]
  · split <;> simp_all

theorem checkLength_eq_error_iff {role : NameRole} {name : String} {e : IdentifierError} :
    checkLength role name = .error e ↔ (name = "" ∧ e = .empty role) ∨
      (255 < name.utf8ByteSize ∧ e = .tooLong role name.utf8ByteSize) := by
  rw [checkLength, maxIdentifierBytes]
  split
  · simp [*, eq_comm]
  · split <;> simp [*, eq_comm]

/-- A check that looks at the length of a name first, and then at its form. -/
theorem check_eq_error_iff {role : NameRole} {Form : String → Prop}
    {mismatch : String → IdentifierError → Prop} {reserved : List String} {name : String}
    {rest : Except IdentifierError Unit} {e : IdentifierError}
    (hrest : rest = .error e ↔ (¬ Form name ∧ mismatch name e) ∨
      (Form name ∧ name ∈ reserved ∧ e = .reservedWord role name)) :
    (checkLength role name >>= fun _ => rest) = .error e ↔
      Refusal role Form mismatch reserved name e := by
  rw [bind_eq_error_iff, checkLength_eq_error_iff]
  constructor
  · rintro ((⟨h, rfl⟩ | ⟨h, rfl⟩) | ⟨⟨⟩, hlength, h⟩)
    · exact .empty h
    · exact .tooLong h
    · rw [checkLength_eq_ok_iff] at hlength
      rcases hrest.1 h with ⟨hform, he⟩ | ⟨hform, hword, rfl⟩
      · exact .badForm hlength hform he
      · exact .reservedWord hlength hform hword
  · intro h
    cases h with
    | empty h => exact .inl (.inl ⟨h, rfl⟩)
    | tooLong h => exact .inl (.inr ⟨h, rfl⟩)
    | badForm hlength hform he =>
      exact .inr ⟨(), checkLength_eq_ok_iff.2 hlength, hrest.2 (.inl ⟨hform, he⟩)⟩
    | reservedWord hlength hform hword =>
      exact .inr ⟨(), checkLength_eq_ok_iff.2 hlength, hrest.2 (.inr ⟨hform, hword, rfl⟩)⟩

theorem checkIdentifier_eq_ok_iff {role : NameRole} {name : String} :
    checkIdentifier role name = .ok () ↔
      HasNameLength name ∧ IsIdentifier name ∧ name ∉ reservedWords := by
  rw [checkIdentifier, bind_eq_ok_iff, Unique.exists_iff, checkLength_eq_ok_iff, ← isIdentifier_iff]
  cases isIdentifier name.toList <;> simp

theorem checkIdentifier_eq_error_iff {role : NameRole} {name : String} {e : IdentifierError} :
    checkIdentifier role name = .error e ↔ IdentifierRefusal role name e := by
  apply check_eq_error_iff
  rw [← isIdentifier_iff]
  cases isIdentifier name.toList with
  | false => simp [eq_comm]
  | true => by_cases hword : name ∈ reservedWords <;> simp [hword, eq_comm]

theorem checkNamespace_eq_ok_iff {name : String} :
    checkNamespace name = .ok () ↔ HasNameLength name ∧ IsNamespace name := by
  rw [checkNamespace, bind_eq_ok_iff, Unique.exists_iff, checkLength_eq_ok_iff,
    ← find?_segment_eq_none_iff]
  cases (splitAt '.' name.toList).find? (!isIdentifier ·) <;> simp

theorem checkNamespace_eq_error_iff {name : String} {e : IdentifierError} :
    checkNamespace name = .error e ↔ NamespaceRefusal name e := by
  apply check_eq_error_iff
  simp only [← find?_segment_eq_none_iff, ← find?_segment_eq_some_iff]
  cases (splitAt '.' name.toList).find? (!isIdentifier ·) with
  | none => simp
  | some segment =>
    constructor
    · rintro ⟨⟩
      exact .inl ⟨by simp, .ofList segment, by simp, rfl⟩
    · rintro (⟨-, s, hs, rfl⟩ | ⟨h, -⟩)
      · obtain rfl := Option.some.inj hs
        simp
      · cases h

theorem isIdentifier_of_checkIdentifier {role : NameRole} {name : String}
    (h : checkIdentifier role name = .ok ()) : isIdentifier name.toList = true :=
  isIdentifier_iff.2 (checkIdentifier_eq_ok_iff.1 h).2.1

theorem not_mem_of_checkNamespace {ns : String} (h : checkNamespace ns = .ok ()) {c : Char}
    (hc : isIdentifierChar c = false) (hdot : c ≠ '.') : c ∉ ns.toList := by
  obtain ⟨segments, -, hsegments, rfl⟩ := (checkNamespace_eq_ok_iff.1 h).2
  rw [String.toList_intercalate]
  intro hmem
  rcases mem_of_mem_intercalate hmem with hmem | ⟨_, hsegment, hmem⟩
  · exact hdot (by simpa using hmem)
  · obtain ⟨segment, hs, rfl⟩ := List.mem_map.1 hsegment
    exact (hsegments segment hs).not_mem hc hmem

/-! Qualified names. -/

theorem not_mem_qualifiedName {ns name : String} (hns : checkNamespace ns = .ok ())
    (hname : isIdentifier name.toList = true) {c : Char} (hc : isIdentifierChar c = false)
    (hdot : c ≠ '.') : c ∉ (qualifiedName ns name).toList := by
  have hname := not_mem_of_isIdentifier hname hc
  have hns := not_mem_of_checkNamespace hns hc hdot
  rw [qualifiedName]
  split
  · exact hname
  · simp [hns, hname, hdot]

theorem splitDots?_qualifiedName {ns name : String} (hns : ns ≠ "") (hname : '.' ∉ name.toList) :
    splitDots? (qualifiedName ns name) = some (ns, name) := by
  have hdot : ".".toList = ['.'] := by simp
  have hlist : (qualifiedName ns name).toList = ns.toList ++ '.' :: name.toList := by
    rw [qualifiedName, if_neg hns, String.toList_append, String.toList_append, hdot]
    simp
  rw [splitDots?, hlist, splitLast?_append_cons _ hname]
  simp

theorem splitDots?_of_dot_not_mem {name : String} (hname : '.' ∉ name.toList) :
    splitDots? name = none := by
  rw [splitDots?, splitLast?_eq_none_iff.2 hname]
  rfl

theorem splitName_qualifiedName {ns name : String} (hname : '.' ∉ name.toList) :
    splitName (qualifiedName ns name) = (ns, name) := by
  by_cases hns : ns = ""
  · rw [splitName, qualifiedName, if_pos hns, splitDots?_of_dot_not_mem hname, hns]
    rfl
  · rw [splitName, splitDots?_qualifiedName hns hname]
    rfl

theorem splitName_of_checkTypeName {ns name : String} (h : checkTypeName name = .ok ()) :
    splitName (qualifiedName ns name) = (ns, name) := by
  have hidentifier := (checkIdentifier_eq_ok_iff.1 h).2.1
  exact splitName_qualifiedName (hidentifier.not_mem (by decide))

/-- Each check accepts the texts of its grammar, and refuses another text for the first reason that
applies. Qualified names of accepted names are split into these, so no two pairs of accepted names
share one. -/
theorem grammar_of_names :
    (∀ name, (checkTypeName name = .ok () ↔
        HasNameLength name ∧ IsIdentifier name ∧ name ∉ reservedWords) ∧
      (checkFieldName name = .ok () ↔
        HasNameLength name ∧ IsIdentifier name ∧ name ∉ reservedWords) ∧
      (checkNamespace name = .ok () ↔ HasNameLength name ∧ IsNamespace name)) ∧
    (∀ name e, (checkTypeName name = .error e ↔ IdentifierRefusal .typeName name e) ∧
      (checkFieldName name = .error e ↔ IdentifierRefusal .fieldName name e) ∧
      (checkNamespace name = .error e ↔ NamespaceRefusal name e)) ∧
    (∀ ns name, checkNamespace ns = .ok () → checkTypeName name = .ok () →
      splitName (qualifiedName ns name) = (ns, name)) ∧
    ∀ ns name ns' name', checkNamespace ns = .ok () → checkTypeName name = .ok () →
      checkNamespace ns' = .ok () → checkTypeName name' = .ok () → (ns, name) ≠ (ns', name') →
      qualifiedName ns name ≠ qualifiedName ns' name' := by
  refine ⟨?_, ?_, ?_, ?_⟩
  · intro name
    exact ⟨checkIdentifier_eq_ok_iff, checkIdentifier_eq_ok_iff, checkNamespace_eq_ok_iff⟩
  · intro name e
    exact ⟨checkIdentifier_eq_error_iff, checkIdentifier_eq_error_iff, checkNamespace_eq_error_iff⟩
  · intro ns name _ hname
    exact splitName_of_checkTypeName hname
  · intro ns name ns' name' _ hname _ hname' hne heq
    apply hne
    rw [← splitName_of_checkTypeName hname, heq, splitName_of_checkTypeName hname']

theorem grammar_of_names_of_fleet :
    checkNamespace "org.acme.fleet" = .ok () ∧ checkTypeName "Car" = .ok () ∧
    splitName (qualifiedName "org.acme.fleet" "Car") = ("org.acme.fleet", "Car") ∧
    qualifiedName "org.acme.fleet" "Car" ≠ qualifiedName "org.acme" "Car" := by
  obtain ⟨-, -, hsplit, hdiffer⟩ := grammar_of_names
  have hfleet : checkNamespace "org.acme.fleet" = .ok () := by decide
  have hacme : checkNamespace "org.acme" = .ok () := by decide
  have hcar : checkTypeName "Car" = .ok () := by decide
  exact ⟨hfleet, hcar, hsplit _ _ hfleet hcar, hdiffer _ _ _ _ hfleet hcar hacme hcar (by decide)⟩

/-- A namespace may have reserved words for segments, but no empty segment. -/
example : checkNamespace "asset.enum" = .ok () ∧
    checkNamespace "org." = .error (.badSegment "org." "") ∧
    checkTypeName "asset" = .error (.reservedWord .typeName "asset") := by decide

end LedgerSchema
