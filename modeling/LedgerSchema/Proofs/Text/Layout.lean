import Mathlib

/-!
Layout of texts: words on a line, lines in a text, and blocks of lines with an empty line before
each. A text that is laid out can be taken apart again if no word has a blank, no line has a line
end and no block has an empty line.
-/

set_option autoImplicit false

namespace LedgerSchema

theorem intercalate_inj {α : Type} [DecidableEq α] {sep : α} {items items' : List (List α)}
    (h : ∀ item ∈ items, sep ∉ item) (h' : ∀ item ∈ items', sep ∉ item) (hne : items ≠ [])
    (hne' : items' ≠ []) : [sep].intercalate items = [sep].intercalate items' ↔ items = items' := by
  refine ⟨fun heq => ?_, fun heq => heq ▸ rfl⟩
  rw [← List.splitOn_intercalate sep h hne, heq, List.splitOn_intercalate sep h' hne']

theorem mem_of_mem_intercalate {α : Type} {sep : List α} {items : List (List α)} {a : α}
    (h : a ∈ sep.intercalate items) : a ∈ sep ∨ ∃ item ∈ items, a ∈ item := by
  induction items with
  | nil => simp at h
  | cons item items ih =>
    cases items with
    | nil => exact .inr ⟨item, List.mem_cons_self, by simpa using h⟩
    | cons item' items =>
      rw [List.intercalate_cons_cons, List.mem_append, List.mem_append] at h
      rcases h with (h | h) | h
      · exact .inr ⟨item, List.mem_cons_self, h⟩
      · exact .inl h
      · exact (ih h).imp_right fun ⟨other, hother, ha⟩ =>
          ⟨other, List.mem_cons_of_mem _ hother, ha⟩

/-- What is in front of the first separator, and what follows it. -/
theorem append_cons_inj {α : Type} {sep : α} {before before' after after' : List α}
    (h : sep ∉ before) (h' : sep ∉ before') :
    before ++ sep :: after = before' ++ sep :: after' ↔ before = before' ∧ after = after' := by
  induction before generalizing before' with
  | nil =>
    cases before' with
    | nil => simp
    | cons b before' =>
      rw [List.mem_cons, not_or] at h'
      simp [h'.1]
  | cons a before ih =>
    rw [List.mem_cons, not_or] at h
    cases before' with
    | nil => simp [Ne.symm h.1]
    | cons b before' =>
      rw [List.mem_cons, not_or] at h'
      rw [List.cons_append, List.cons_append, List.cons.injEq, List.cons.injEq, ih h.2 h'.2,
        and_assoc]

/-- What is in front of a mark, and what follows it, if neither of the two parts in front goes on to
the mark after the other. -/
theorem append_infix_inj {α : Type} {mark : List α} {last : α} (hlast : last ∉ mark)
    {before before' after after' : List α}
    (h : ∀ rest, before' ≠ before ++ (mark ++ last :: rest))
    (h' : ∀ rest, before ≠ before' ++ (mark ++ last :: rest)) :
    before ++ (mark ++ last :: after) = before' ++ (mark ++ last :: after') ↔
      before = before' ∧ after = after' := by
  -- The longer part in front has more in front of the mark. That cannot end inside of the mark of
  -- the other one, since the last item of the mark is at no other place of it.
  have longer {after after' more : List α} (hmore : ∀ rest, more ≠ mark ++ last :: rest)
      (heq : mark ++ last :: after = more ++ (mark ++ last :: after')) :
      more = [] ∧ after = after' := by
    rcases List.append_eq_append_iff.1 heq with ⟨rest, hrest, htail⟩ | ⟨rest, hmark, htail⟩
    · cases rest with
      | nil =>
        have hnil : [] ++ last :: after = mark ++ last :: after' := htail
        obtain ⟨rfl, hafter⟩ := (append_cons_inj List.not_mem_nil hlast).1 hnil
        exact ⟨hrest, hafter⟩
      | cons d rest =>
        obtain rfl : last = d := (List.cons.inj htail).1
        exact absurd hrest (hmore rest)
    · have hnot : last ∉ rest := by
        intro hmem
        exact hlast (hmark ▸ List.mem_append_right more hmem)
      obtain ⟨rfl, hafter⟩ := (append_cons_inj hnot hlast).1 htail.symm
      exact ⟨List.self_eq_append_left.1 hmark, hafter⟩
  constructor
  · intro heq
    rcases List.append_eq_append_iff.1 heq with ⟨more, rfl, hmark⟩ | ⟨more, rfl, hmark⟩
    · obtain ⟨rfl, rfl⟩ := longer (fun rest hrest => h rest (hrest ▸ rfl)) hmark
      exact ⟨(List.append_nil before).symm, rfl⟩
    · obtain ⟨rfl, rfl⟩ := longer (fun rest hrest => h' rest (hrest ▸ rfl)) hmark
      exact ⟨List.append_nil before', rfl⟩
  · rintro ⟨rfl, rfl⟩
    rfl

theorem map_inj_on {α β : Type} {f : α → β} {l l' : List α}
    (h : ∀ a ∈ l, ∀ b ∈ l', f a = f b → a = b) : l.map f = l'.map f ↔ l = l' := by
  refine ⟨fun heq => ?_, fun heq => heq ▸ rfl⟩
  induction l generalizing l' with
  | nil => simpa using heq.symm
  | cons a l ih =>
    cases l' with
    | nil => simp at heq
    | cons b l' =>
      obtain ⟨hhead, htail⟩ := List.cons.inj heq
      rw [h a List.mem_cons_self b List.mem_cons_self hhead,
        ih (fun a ha b hb => h a (List.mem_cons_of_mem _ ha) b (List.mem_cons_of_mem _ hb)) htail]

theorem toList_inj_on (l l' : List String) : l.map String.toList = l'.map String.toList ↔ l = l' :=
  map_inj_on fun _ _ _ _ => String.toList_inj.1

/-! Words. -/

structure IsWord (s : String) : Prop where
  blank : ' ' ∉ s.toList
  newline : '\n' ∉ s.toList

theorem append_blank_inj {word word' s s' : String} (h : IsWord word) (h' : IsWord word') :
    word ++ " " ++ s = word' ++ " " ++ s' ↔ word = word' ∧ s = s' := by
  simp only [← String.toList_inj, String.toList_append, List.append_assoc]
  exact append_cons_inj h.blank h'.blank

def unwords (words : List String) : String := " ".intercalate words

theorem toList_unwords (words : List String) :
    (unwords words).toList = [' '].intercalate (words.map String.toList) :=
  String.toList_intercalate

theorem unwords_inj {words words' : List String} (h : ∀ w ∈ words, IsWord w)
    (h' : ∀ w ∈ words', IsWord w) (hne : words ≠ []) (hne' : words' ≠ []) :
    unwords words = unwords words' ↔ words = words' := by
  rw [← String.toList_inj, toList_unwords, toList_unwords, intercalate_inj, toList_inj_on]
  · exact List.forall_mem_map.2 fun w hw => (h w hw).blank
  · exact List.forall_mem_map.2 fun w hw => (h' w hw).blank
  · simpa using hne
  · simpa using hne'

theorem newline_not_mem_unwords {words : List String} (h : ∀ w ∈ words, IsWord w) :
    '\n' ∉ (unwords words).toList := by
  rw [toList_unwords]
  intro hmem
  rcases mem_of_mem_intercalate hmem with hblank | ⟨_, hword, hmem⟩
  · exact absurd hblank (by decide)
  · obtain ⟨w, hw, rfl⟩ := List.mem_map.1 hword
    exact (h w hw).newline hmem

theorem unwords_singleton (word : String) : unwords [word] = word := by
  rw [← String.toList_inj]
  simp [toList_unwords]

theorem unwords_cons_cons (word word' : String) (words : List String) :
    unwords (word :: word' :: words) = word ++ " " ++ unwords (word' :: words) := by
  rw [← String.toList_inj]
  simp [toList_unwords, List.intercalate_cons_cons]

/-! Lines. -/

/-- A line of a block is not empty, and there is no line end in it. -/
structure IsLine (s : String) : Prop where
  ne_empty : s ≠ ""
  newline : '\n' ∉ s.toList

theorem IsLine.append {s t : String} (hs : IsLine s) (ht : '\n' ∉ t.toList) : IsLine (s ++ t) where
  ne_empty h := hs.ne_empty (String.append_eq_empty_iff.1 h).1
  newline := by simp [hs.newline, ht]

def unlines (lines : List String) : String := String.join (lines.map (· ++ "\n"))

theorem unlines_cons (line : String) (lines : List String) :
    unlines (line :: lines) = line ++ "\n" ++ unlines lines := by
  simp [unlines]

theorem unlines_append (lines lines' : List String) :
    unlines (lines ++ lines') = unlines lines ++ unlines lines' := by
  simp [unlines]

theorem unlines_inj {lines lines' : List String} (h : ∀ line ∈ lines, '\n' ∉ line.toList)
    (h' : ∀ line ∈ lines', '\n' ∉ line.toList) :
    unlines lines = unlines lines' ↔ lines = lines' := by
  have toList_cons (line : String) (lines : List String) :
      (unlines (line :: lines)).toList = line.toList ++ '\n' :: (unlines lines).toList := by
    simp [unlines_cons]
  refine ⟨fun heq => ?_, fun heq => heq ▸ rfl⟩
  rw [← String.toList_inj] at heq
  induction lines generalizing lines' with
  | nil =>
    cases lines' with
    | nil => rfl
    | cons line' lines' => simp [unlines] at heq
  | cons line lines ih =>
    cases lines' with
    | nil => simp [unlines] at heq
    | cons line' lines' =>
      rw [List.forall_mem_cons] at h h'
      rw [toList_cons, toList_cons, append_cons_inj h.1 h'.1, String.toList_inj] at heq
      rw [heq.1, ih h.2 h'.2 heq.2]

/-! Blocks. -/

def unblocks (blocks : List (List String)) : String := unlines ([""].intercalate blocks)

theorem unblocks_cons (block : List String) (blocks : List (List String)) :
    unblocks (block :: blocks) =
      unlines block ++ String.join (blocks.map fun block => "\n" ++ unlines block) := by
  induction blocks generalizing block with
  | nil => simp [unblocks]
  | cons next blocks ih =>
    have hnext : unblocks (block :: next :: blocks) =
        unlines block ++ ("\n" ++ unblocks (next :: blocks)) := by
      simp [unblocks, List.intercalate_cons_cons, unlines_append, unlines_cons]
    rw [hnext, ih, List.map_cons, String.join_cons, String.append_assoc]

theorem unblocks_inj {blocks blocks' : List (List String)}
    (h : ∀ block ∈ blocks, ∀ line ∈ block, IsLine line)
    (h' : ∀ block ∈ blocks', ∀ line ∈ block, IsLine line) (hne : blocks ≠ [])
    (hne' : blocks' ≠ []) :
    unblocks blocks = unblocks blocks' ↔ blocks = blocks' := by
  have newline {blocks : List (List String)}
      (h : ∀ block ∈ blocks, ∀ line ∈ block, IsLine line) :
      ∀ line ∈ [""].intercalate blocks, '\n' ∉ line.toList := by
    intro line hline
    rcases mem_of_mem_intercalate hline with hempty | ⟨block, hblock, hmem⟩
    · simp [List.mem_singleton.1 hempty]
    · exact (h block hblock line hmem).newline
  rw [unblocks, unblocks, unlines_inj (newline h) (newline h'), intercalate_inj _ _ hne hne']
  · exact fun block hblock hmem => (h block hblock "" hmem).ne_empty rfl
  · exact fun block hblock hmem => (h' block hblock "" hmem).ne_empty rfl

end LedgerSchema
