import Mathlib
import LedgerSchema.Proofs.Number.Digits
import LedgerSchema.Proofs.Outcome
import LedgerSchema.Proofs.Text.Layout
import LedgerSchema.Schema.Reflection
import LedgerSchema.Schema.Text

/-!
The query file. Descriptions and statements are written as they are, so a description can end itself
and begin the statement, and a statement can end its block and begin the next one. The file tells
the queries apart as long as none of them does.
-/

set_option autoImplicit false

namespace LedgerSchema

def statementMark : String := "\"\n\tstatement: "

def blockHead (number : Nat) : String := s!"query Q{number} \x7b\n\tdescription: \""

def blockEnd : String := "\n\x7d\n\n"

def blockMark (number : Nat) : String := blockEnd ++ blockHead number

theorem Query.text_eq (number : Nat) (q : Query) : q.text number =
    blockHead number ++ q.description ++ statementMark ++ q.statement ++ blockEnd := by
  rw [← String.toList_inj]
  simp [Query.text, blockHead, statementMark, blockEnd, toString]

def blocks (number : Nat) : List Query → List Char
  | [] => []
  | q :: qs => (blockHead number).toList ++ (q.description.toList ++ (statementMark.toList ++
      (q.statement.toList ++ (blockEnd.toList ++ blocks (number + 1) qs))))

theorem toList_queriesText (qs : List Query) : (queriesText qs).toList = blocks 0 qs := by
  have hblocks (number : Nat) :
      (String.join (qs.mapIdx fun i q => q.text (number + i))).toList = blocks number qs := by
    induction qs generalizing number with
    | nil => simp [blocks]
    | cons q qs ih =>
      have hnext := ih (number + 1)
      simp only [Nat.add_right_comm, Nat.add_assoc] at hnext
      simp [blocks, Query.text_eq, ← hnext, List.mapIdx_cons]
  simpa [queriesText] using hblocks 0

/-- A query that leaves the blocks of the file alone: its description does not go on to a statement,
and its statement does not go on to the next block once it says something. -/
structure Query.IsPlain (number : Nat) (q : Query) : Prop where
  description : ¬ statementMark.toList <:+: q.description.toList
  statement : ∀ before after, q.statement = before ++ blockMark (number + 1) ++ after →
    isBlankText before = true

/-! Marks. -/

theorem Query.isPlain_of_not_infix {number : Nat} {q : Query}
    (hdescription : ¬ statementMark.toList <:+: q.description.toList)
    (hstatement : ¬ (blockMark (number + 1)).toList <:+: q.statement.toList) :
    q.IsPlain number := by
  refine ⟨hdescription, ?_⟩
  intro before after h
  exact absurd ⟨before.toList, after.toList, by rw [h]; simp⟩ hstatement

theorem toList_statementMark : statementMark.toList = "\"\n\tstatement:".toList ++ [' '] := by
  decide

theorem toList_blockMark (number : Nat) :
    ∃ mark, '"' ∉ mark ∧ (blockMark number).toList = mark ++ ['"'] := by
  have hdigits : '"' ∉ Nat.toDigits 10 number := by
    intro hmem
    exact absurd (isDigit_of_mem_toDigits hmem) (by decide)
  refine ⟨"\n\x7d\n\nquery Q".toList ++ Nat.toDigits 10 number ++ " \x7b\n\tdescription: ".toList,
    ?_, ?_⟩
  · simp [hdigits]
  · simp [blockMark, blockEnd, blockHead, toString]

theorem Query.IsPlain.description_ne {number : Nat} {q : Query} (h : q.IsPlain number)
    (before after : List Char) :
    q.description.toList ≠ before ++ (statementMark.toList ++ after) := by
  intro heq
  exact h.description ⟨before, after, by rw [heq, List.append_assoc]⟩

theorem Query.IsPlain.statement_ne {number : Nat} {q : Query} (h : q.IsPlain number)
    {before : String} (hbefore : isBlankText before = false) (after : List Char) :
    q.statement.toList ≠ before.toList ++ ((blockMark (number + 1)).toList ++ after) := by
  intro heq
  have hblank : isBlankText before = true := by
    apply h.statement before (.ofList after)
    rw [← String.toList_inj, heq]
    simp
  rw [hbefore] at hblank
  cases hblank

/-! Blocks. -/

section Blocks

variable {number : Nat} {q q' : Query} {qs qs' : List Query}

theorem description_inj (hq : q.IsPlain number) (hq' : q'.IsPlain number)
    {after after' : List Char} (h : q.description.toList ++ (statementMark.toList ++ after) =
      q'.description.toList ++ (statementMark.toList ++ after')) :
    q.description = q'.description ∧ after = after' := by
  have hne := hq.description_ne q'.description.toList
  have hne' := hq'.description_ne q.description.toList
  rw [toList_statementMark] at h hne hne'
  simp only [List.append_assoc, List.singleton_append] at h hne hne'
  rw [← String.toList_inj]
  exact (append_infix_inj (by decide) hne' hne).1 h

/-- The text of blocks ends with the end of a block, after the head of the first one. -/
theorem exists_blocks_cons (number : Nat) (q : Query) (qs : List Query) :
    ∃ front, blocks number (q :: qs) =
      (blockHead number).toList ++ (front ++ blockEnd.toList) := by
  induction qs generalizing number q with
  | nil =>
    refine ⟨q.description.toList ++ (statementMark.toList ++ q.statement.toList), ?_⟩
    simp only [blocks, List.append_assoc, List.append_nil]
  | cons next qs ih =>
    obtain ⟨front, hfront⟩ := ih (number + 1) next
    refine ⟨q.description.toList ++ (statementMark.toList ++ (q.statement.toList ++
      (blockEnd.toList ++ ((blockHead (number + 1)).toList ++ front)))), ?_⟩
    rw [blocks, hfront]
    simp only [List.append_assoc]

/-- The last block of a file has no other block in its place. -/
theorem statement_ne_of_last (hq : q.IsPlain number) (hq' : isBlankText q'.statement = false)
    (next : Query) (rest : List Query) : q.statement.toList ++ blockEnd.toList ≠
      q'.statement.toList ++ (blockEnd.toList ++ blocks (number + 1) (next :: rest)) := by
  intro h
  obtain ⟨front, hfront⟩ := exists_blocks_cons (number + 1) next rest
  apply hq.statement_ne hq' front
  have hfile : q.statement.toList ++ blockEnd.toList =
      q'.statement.toList ++ ((blockMark (number + 1)).toList ++ front) ++ blockEnd.toList := by
    rw [h, hfront, blockMark, String.toList_append]
    simp only [List.append_assoc]
  exact List.append_cancel_right hfile

/-- The text of blocks determines a plain statement and what stands after its block. -/
theorem statement_inj (hq : q.IsPlain number) (hq' : q'.IsPlain number)
    (hstated : isBlankText q.statement = false) (hstated' : isBlankText q'.statement = false)
    (h : q.statement.toList ++ (blockEnd.toList ++ blocks (number + 1) qs) =
      q'.statement.toList ++ (blockEnd.toList ++ blocks (number + 1) qs')) :
    q.statement = q'.statement ∧ blocks (number + 1) qs = blocks (number + 1) qs' := by
  -- After the end of the last block there is no mark to look for, so this case goes by the end of
  -- the file.
  cases qs with
  | nil =>
    cases qs' with
    | nil => exact ⟨String.toList_inj.1 (List.append_cancel_right h), rfl⟩
    | cons next' rest' =>
      simp only [blocks, List.append_nil] at h
      exact absurd h (statement_ne_of_last hq hstated' next' rest')
  | cons next rest =>
    cases qs' with
    | nil =>
      simp only [blocks, List.append_nil] at h
      exact absurd h.symm (statement_ne_of_last hq' hstated next rest)
    | cons next' rest' =>
      obtain ⟨mark, hmark, hblock⟩ := toList_blockMark (number + 1)
      have hne := hq.statement_ne hstated'
      have hne' := hq'.statement_ne hstated
      rw [hblock] at hne hne'
      obtain ⟨front, hfront⟩ : ∃ front, blocks (number + 1) (next :: rest) =
          (blockHead (number + 1)).toList ++ front := ⟨_, rfl⟩
      obtain ⟨front', hfront'⟩ : ∃ front', blocks (number + 1) (next' :: rest') =
          (blockHead (number + 1)).toList ++ front' := ⟨_, rfl⟩
      rw [hfront, hfront'] at h ⊢
      rw [blockMark, String.toList_append] at hblock
      simp only [← List.append_assoc blockEnd.toList, hblock, List.append_assoc,
        List.singleton_append] at h hne hne'
      rw [append_infix_inj hmark hne' hne, String.toList_inj] at h
      rw [h.1, h.2]
      exact ⟨rfl, rfl⟩

def AreLegible (number : Nat) : List Query → Prop
  | [] => True
  | q :: qs => (isBlankText q.statement = false ∧ q.IsPlain number) ∧ AreLegible (number + 1) qs

theorem areLegible_of_plain (hstated : ∀ q ∈ qs, isBlankText q.statement = false)
    (hplain : ∀ (n : Nat) (q : Query), qs[n]? = some q → q.IsPlain (number + n)) :
    AreLegible number qs := by
  induction qs generalizing number with
  | nil => trivial
  | cons q qs ih =>
    rw [List.forall_mem_cons] at hstated
    refine ⟨⟨hstated.1, hplain 0 q rfl⟩, ih hstated.2 ?_⟩
    intro n next hnext
    rw [Nat.add_right_comm]
    exact hplain (n + 1) next hnext

theorem blocks_inj (h : AreLegible number qs) (h' : AreLegible number qs') :
    blocks number qs = blocks number qs' ↔ qs = qs' := by
  refine ⟨fun heq => ?_, fun heq => heq ▸ rfl⟩
  induction qs generalizing number qs' with
  | nil =>
    cases qs' with
    | nil => rfl
    | cons q' qs' => simp [blocks, blockHead] at heq
  | cons q qs ih =>
    cases qs' with
    | nil => simp [blocks, blockHead] at heq
    | cons q' qs' =>
      obtain ⟨⟨hstated, hq⟩, hqs⟩ := h
      obtain ⟨⟨hstated', hq'⟩, hqs'⟩ := h'
      obtain ⟨hdescription, hafter⟩ := description_inj hq hq' (List.append_cancel_left heq)
      obtain ⟨hstatement, hrest⟩ := statement_inj hq hq' hstated hstated' hafter
      obtain rfl : q = q' := by
        cases q
        cases q'
        simp_all
      rw [ih hqs hqs' hrest]

theorem blocks_append (number : Nat) (qs qs' : List Query) :
    blocks number (qs ++ qs') = blocks number qs ++ blocks (number + qs.length) qs' := by
  induction qs generalizing number with
  | nil => rfl
  | cons q qs ih =>
    rw [List.cons_append, blocks, ih, blocks, List.length_cons, Nat.add_right_comm]
    simp only [List.append_assoc, Nat.add_assoc]

end Blocks

/-- A description that goes on to a statement has the text of one that ends there. -/
theorem queriesText_of_description (before after : List Query)
    (description more statement : String) :
    queriesText (before ++ ⟨description ++ statementMark ++ more, statement⟩ :: after) =
      queriesText (before ++ ⟨description, more ++ statementMark ++ statement⟩ :: after) := by
  rw [← String.toList_inj, toList_queriesText, toList_queriesText, blocks_append, blocks_append,
    blocks, blocks]
  simp only [String.toList_append, List.append_assoc]

/-- A statement that goes on to the next block has the text of two queries. -/
theorem queriesText_of_statement (before : List Query)
    (description statement next nextStatement : String) :
    queriesText (before ++ [⟨description, statement ++ blockMark (before.length + 1) ++ next ++
      statementMark ++ nextStatement⟩]) =
    queriesText (before ++ [⟨description, statement⟩, ⟨next, nextStatement⟩]) := by
  rw [← String.toList_inj, toList_queriesText, toList_queriesText, blocks_append, blocks_append]
  simp only [blocks, blockMark, String.toList_append, List.append_assoc, List.append_nil,
    Nat.zero_add]

theorem reflectQueries_eq_ok_iff {r : Registry} {qs : List Query} : r.reflectQueries = .ok qs ↔
    qs = r.queries ∧ ∀ q ∈ qs, isBlankText q.statement = false := by
  unfold Registry.reflectQueries
  cases hfind : r.queries.find? fun q => isBlankText q.statement with
  | none =>
    rw [List.find?_eq_none] at hfind
    constructor
    · intro h
      obtain rfl := Except.ok.inj h
      exact ⟨rfl, fun q hq => by simpa using hfind q hq⟩
    · rintro ⟨rfl, -⟩
      rfl
  | some q =>
    have hq := List.mem_of_find?_eq_some hfind
    have hblank : isBlankText q.statement = true := by simpa using List.find?_some hfind
    constructor
    · intro h
      cases h
    · rintro ⟨rfl, hstated⟩
      rw [hstated q hq] at hblank
      cases hblank

/-- The query file determines the queries if they are plain ones. -/
theorem queriesText_eq_iff_of_plain {r r' : Registry} {qs qs' : List Query}
    (h : r.reflectQueries = .ok qs) (h' : r'.reflectQueries = .ok qs')
    (hplain : ∀ (number : Nat) (q : Query), qs[number]? = some q → q.IsPlain number)
    (hplain' : ∀ (number : Nat) (q : Query), qs'[number]? = some q → q.IsPlain number) :
    queriesText qs = queriesText qs' ↔ qs = qs' := by
  have hlegible : AreLegible 0 qs := by
    apply areLegible_of_plain (reflectQueries_eq_ok_iff.1 h).2
    simpa using hplain
  have hlegible' : AreLegible 0 qs' := by
    apply areLegible_of_plain (reflectQueries_eq_ok_iff.1 h').2
    simpa using hplain'
  rw [← String.toList_inj, toList_queriesText, toList_queriesText]
  exact blocks_inj hlegible hlegible'

def Registry.ofQueries (queries : List Query) : Registry :=
  queries.foldl Registry.addQuery .standard

/-- Quotes, line ends and braces alone leave a query plain. -/
def quotedQueries : List Query :=
  [⟨"cars \"and\" owners", "SELECT org.acme.Car\n\x7d"⟩, ⟨"\n\x7d\n\n", "SELECT org.acme.Person"⟩]

theorem queriesText_eq_iff_of_quoted :
    (Registry.ofQueries quotedQueries).reflectQueries = .ok quotedQueries ∧
    queriesText quotedQueries ≠ queriesText quotedQueries.reverse := by
  have hcar (number : Nat) (hnumber : number < 2) : quotedQueries[0].IsPlain number := by
    apply Query.isPlain_of_not_infix (by decide)
    revert number
    decide
  have hperson (number : Nat) (hnumber : number < 2) : quotedQueries[1].IsPlain number := by
    apply Query.isPlain_of_not_infix (by decide)
    revert number
    decide
  have hplain (number : Nat) (q : Query) (hq : quotedQueries[number]? = some q) :
      q.IsPlain number := by
    match number, hq with
    | 0, rfl => exact hcar 0 (by decide)
    | 1, rfl => exact hperson 1 (by decide)
  have hreversed (number : Nat) (q : Query) (hq : quotedQueries.reverse[number]? = some q) :
      q.IsPlain number := by
    match number, hq with
    | 0, rfl => exact hperson 0 (by decide)
    | 1, rfl => exact hcar 1 (by decide)
  have h : (Registry.ofQueries quotedQueries).reflectQueries = .ok quotedQueries := by decide
  have h' : (Registry.ofQueries quotedQueries.reverse).reflectQueries =
      .ok quotedQueries.reverse := by
    decide
  refine ⟨h, ?_⟩
  rw [Ne, queriesText_eq_iff_of_plain h h' hplain hreversed]
  decide

/-- Two queries as one, whose statement goes on to the second block; and a query whose description
goes on to its statement, with the text of a query that has the shorter description. -/
theorem queries_forged :
    let cars : Query := ⟨"cars", "SELECT org.acme.Car"⟩
    let people : Query := ⟨"people", "SELECT org.acme.Person"⟩
    let both : Query := ⟨"cars", "SELECT org.acme.Car\n\x7d\n\nquery Q1 \x7b\n" ++
      "\tdescription: \"people\"\n\tstatement: SELECT org.acme.Person"⟩
    let long : Query := ⟨"cars\"\n\tstatement: SELECT", "org.acme.Car"⟩
    let short : Query := ⟨"cars", "SELECT\"\n\tstatement: org.acme.Car"⟩
    (∀ qs ∈ [[cars, people], [both], [long], [short]],
      (Registry.ofQueries qs).reflectQueries = .ok qs) ∧
    queriesText [both] = queriesText [cars, people] ∧ [both] ≠ [cars, people] ∧
    queriesText [long] = queriesText [short] ∧ [long] ≠ [short] := by
  intro cars people both long short
  refine ⟨by decide, ?_, by decide, ?_, by decide⟩
  · exact queriesText_of_statement [] "cars" "SELECT org.acme.Car" "people" "SELECT org.acme.Person"
  · exact queriesText_of_description [] [] "cars" "SELECT" "org.acme.Car"

end LedgerSchema
