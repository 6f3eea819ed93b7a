import Mathlib
import LedgerSchema.FieldType
import LedgerSchema.Proofs.Outcome
import LedgerSchema.Proofs.Text.Blank

/-!
Which field types are read back from their own text. The text of a type is read from its outside to
its inside: white space around it goes first, then the brackets of an array, and what is left is a
label, a keyword, a collection or a name, in this order.
-/

set_option autoImplicit false

namespace LedgerSchema

namespace FieldType

/-! Brackets at the end of a text. -/

theorem stripBrackets?_append (s : List Char) : stripBrackets? (s ++ ['[', ']']) = some s := by
  simp [stripBrackets?]

theorem stripBrackets?_eq_none_iff {s : List Char} :
    stripBrackets? s = none ↔ ¬ ['[', ']'] <:+ s := by
  constructor
  · rintro h ⟨r, rfl⟩
    rw [stripBrackets?_append] at h
    cases h
  · intro h
    cases hs : stripBrackets? s with
    | none => rfl
    | some r => exact absurd ⟨r, (eq_append_of_stripBrackets? hs).symm⟩ h

theorem stripBrackets?_eq_none {s : List Char} (h : ']' ∉ s) : stripBrackets? s = none :=
  stripBrackets?_eq_none_iff.2 fun hs => h (hs.subset (by simp))

/-! Well-formed types. -/

def reservedWords : List String := Primitive.all.map (·.label) ++ ["List", "Set", "Map"]

end FieldType

/-- The name of another collection ends in neither white space nor brackets. -/
def CollectionKind.WellFormed : CollectionKind → Prop
  | .other name => name ≠ "" ∧ name.toList.getLast?.any isBlank = false ∧
      ¬ ['[', ']'] <:+ name.toList
  | .list | .set => True

instance : DecidablePred CollectionKind.WellFormed
  | .other name => inferInstanceAs (Decidable (name ≠ "" ∧
      name.toList.getLast?.any isBlank = false ∧ ¬ ['[', ']'] <:+ name.toList))
  | .list | .set => inferInstanceAs (Decidable True)

namespace FieldType

/-- Below its layers of arrays a type is a primitive, a map, a well-formed collection, or a name of
name characters that is not a reserved word. -/
def WellFormed : FieldType → Prop
  | .array t => t.WellFormed
  | .collection kind => kind.WellFormed
  | .named name => name ≠ "" ∧ name.toList.all isNameChar = true ∧ name ∉ reservedWords
  | .primitive _ | .map => True

def decideWellFormed : (t : FieldType) → Decidable t.WellFormed
  | .array t => decideWellFormed t
  | .collection kind => inferInstanceAs (Decidable kind.WellFormed)
  | .named name => inferInstanceAs (Decidable (name ≠ "" ∧
      name.toList.all isNameChar = true ∧ name ∉ reservedWords))
  | .primitive _ | .map => inferInstanceAs (Decidable True)

instance : DecidablePred WellFormed := decideWellFormed

theorem isBlank_of_isNameChar {c : Char} (h : isNameChar c = true) : isBlank c = false := by
  simp only [isNameChar, Bool.or_eq_true, beq_iff_eq] at h
  rcases h with ((h | rfl) | rfl) | rfl
  · exact isBlank_of_isAlphanumeric h
  all_goals decide

/-! Types that are no arrays. -/

/-- The types that the reader gives for a text without brackets. -/
inductive Scalar : FieldType → Prop
  | primitive (p : Primitive) : Scalar (.primitive p)
  | list : Scalar (.collection .list)
  | set : Scalar (.collection .set)
  | map : Scalar .map
  | other {name : String} (h : name ≠ "") : Scalar (.collection (.other name))
  | named {name : String} (hchars : name.toList.all isNameChar = true)
      (hword : name ∉ reservedWords) : Scalar (.named name)

theorem scalar_of_mem_reservedWords {text : String} (h : text ∈ reservedWords) :
    ∃ t : FieldType, t.Scalar ∧ t.text = text ∧ ofScalarText text = .ok t := by
  rcases List.mem_append.1 h with h | h
  · obtain ⟨p, -, rfl⟩ := List.mem_map.1 h
    exact ⟨.primitive p, .primitive p, rfl, by rw [ofScalarText, Primitive.ofLabel?_label]⟩
  · simp only [List.mem_cons, List.not_mem_nil, or_false] at h
    rcases h with rfl | rfl | rfl
    · exact ⟨_, .list, rfl, by decide⟩
    · exact ⟨_, .set, rfl, by decide⟩
    · exact ⟨_, .map, rfl, by decide⟩

theorem ofScalarText_of_not_mem {text : String} (h : text ∉ reservedWords) :
    ofScalarText text =
      if collectionPrefix.isPrefixOf text.toList then
        if text.toList.drop collectionPrefix.length = [] then .error (.missingCollectionName text)
        else .ok (.collection (.other (.ofList (text.toList.drop collectionPrefix.length))))
      else if text.toList.all isNameChar then .ok (.named text)
      else .error (.invalid text) := by
  have hlabel : Primitive.ofLabel? text = none := by
    refine List.find?_eq_none.2 fun p hp => ?_
    simp only [decide_eq_true_eq]
    rintro rfl
    exact h (List.mem_append_left _ (List.mem_map_of_mem hp))
  have hword (word : String) (hword : word ∈ ["List", "Set", "Map"]) : text ≠ word := by
    rintro rfl
    exact h (List.mem_append_right _ hword)
  rw [ofScalarText, hlabel]
  simp only [hword "List" (by decide), hword "Set" (by decide), hword "Map" (by decide), if_false]

theorem colon_not_mem_reservedWords : ∀ word ∈ reservedWords, ':' ∉ word.toList := by decide

theorem toList_text_other (name : String) :
    ("Collection:" ++ name).toList = collectionPrefix ++ name.toList := String.toList_append

theorem ofScalarText_collection {name : String} (h : name ≠ "") :
    ofScalarText ("Collection:" ++ name) = .ok (.collection (.other name)) := by
  have htext := toList_text_other name
  have hword : "Collection:" ++ name ∉ reservedWords := by
    intro hmem
    refine colon_not_mem_reservedWords _ hmem ?_
    rw [htext]
    exact List.mem_append_left _ (by decide)
  have hprefix : collectionPrefix.isPrefixOf (collectionPrefix ++ name.toList) = true :=
    List.isPrefixOf_iff_prefix.2 (List.prefix_append _ _)
  rw [ofScalarText_of_not_mem hword, htext, if_pos hprefix, List.drop_left,
    if_neg (by simpa using h), String.ofList_toList]

theorem ofScalarText_named {name : String} (hchars : name.toList.all isNameChar = true)
    (hword : name ∉ reservedWords) : ofScalarText name = .ok (.named name) := by
  have hprefix : ¬ collectionPrefix.isPrefixOf name.toList = true := by
    intro h
    have hcolon : ':' ∈ name.toList := (List.isPrefixOf_iff_prefix.1 h).subset (by decide)
    exact absurd (List.all_eq_true.1 hchars _ hcolon) (by decide)
  rw [ofScalarText_of_not_mem hword, if_neg hprefix, if_pos hchars]

theorem ofScalarText_eq_ok_iff {text : String} {t : FieldType} :
    ofScalarText text = .ok t ↔ t.Scalar ∧ t.text = text := by
  constructor
  · intro h
    by_cases hword : text ∈ reservedWords
    · obtain ⟨t', hscalar, htext, hok⟩ := scalar_of_mem_reservedWords hword
      obtain rfl := Except.ok.inj (hok.symm.trans h)
      exact ⟨hscalar, htext⟩
    · rw [ofScalarText_of_not_mem hword] at h
      split_ifs at h with hprefix hempty hchars
      · obtain ⟨rest, hrest⟩ := List.isPrefixOf_iff_prefix.1 hprefix
        rw [← hrest, List.drop_left] at h hempty
        obtain rfl := Except.ok.inj h
        refine ⟨.other (by simpa using hempty), String.toList_inj.1 ?_⟩
        rw [← hrest]
        exact (toList_text_other _).trans (by rw [String.toList_ofList])
      · obtain rfl := Except.ok.inj h
        exact ⟨.named hchars hword, rfl⟩
  · rintro ⟨hscalar, rfl⟩
    cases hscalar with
    | primitive p => rw [ofScalarText, text, Primitive.ofLabel?_label]
    | list | set | map => decide
    | other h => exact ofScalarText_collection h
    | named hchars hword => exact ofScalarText_named hchars hword

/-- A text as the reader sees it once white space and brackets are gone. -/
structure IsBare (s : List Char) : Prop where
  ne_nil : s ≠ []
  trimmed : IsTrimmed s
  brackets : ¬ ['[', ']'] <:+ s

theorem isBare_of_isNameChar {s : List Char} (hne : s ≠ [])
    (h : s.all isNameChar = true) : IsBare s := by
  rw [List.all_eq_true] at h
  refine ⟨hne, ⟨fun c hc => isBlank_of_isNameChar (h c (List.mem_of_mem_head? hc)),
    fun c hc => isBlank_of_isNameChar (h c (List.mem_of_mem_getLast? hc))⟩, fun hs => ?_⟩
  exact absurd (h ']' (hs.subset (by simp))) (by decide)

theorem isAlphanum_of_mem_reservedWords :
    ∀ word ∈ reservedWords, word.toList ≠ [] ∧ word.toList.all Char.isAlphanum = true := by
  decide

theorem isBare_of_mem_reservedWords {word : String} (h : word ∈ reservedWords) :
    IsBare word.toList := by
  obtain ⟨hne, hchars⟩ := isAlphanum_of_mem_reservedWords word h
  refine isBare_of_isNameChar hne (List.all_eq_true.2 fun c hc => ?_)
  simp [isNameChar, isAlphanumeric_of_isAlphanum (List.all_eq_true.1 hchars c hc)]

theorem brackets_suffix_collection_iff {s : List Char} (h : s ≠ []) :
    ['[', ']'] <:+ collectionPrefix ++ s ↔ ['[', ']'] <:+ s := by
  refine ⟨fun hs => ?_, fun hs => hs.trans (List.suffix_append _ _)⟩
  rcases List.suffix_or_suffix_of_suffix hs (List.suffix_append _ _) with hs' | hs'
  · exact hs'
  · -- In front of a single closing bracket there is the colon.
    rcases List.suffix_cons_iff.1 hs' with rfl | hs'
    · exact List.suffix_refl _
    · rcases List.suffix_cons_iff.1 hs' with rfl | hs'
      · exact absurd hs (by decide)
      · exact absurd (List.suffix_nil.1 hs') h

theorem isBare_collection_iff {s : List Char} (h : s ≠ []) :
    IsBare (collectionPrefix ++ s) ↔
      s.getLast?.any isBlank = false ∧ ¬ ['[', ']'] <:+ s := by
  have hlast : (collectionPrefix ++ s).getLast? = s.getLast? := by
    rw [List.getLast?_append_of_ne_nil _ h]
  have hany : s.getLast?.any isBlank = false ↔ ∀ c ∈ s.getLast?, isBlank c = false := by
    cases s.getLast? <;> simp
  rw [hany]
  constructor
  · rintro ⟨-, htrimmed, hbrackets⟩
    exact ⟨hlast ▸ htrimmed.last, (brackets_suffix_collection_iff h).not.1 hbrackets⟩
  · rintro ⟨hblank, hbrackets⟩
    refine ⟨by simp [h], ⟨fun c hc => ?_, hlast.symm ▸ hblank⟩,
      (brackets_suffix_collection_iff h).not.2 hbrackets⟩
    obtain rfl : 'C' = c := Option.some.inj hc
    decide

/-- A type that is no array is well formed if the reader sees its text as it is. -/
theorem Scalar.wellFormed_iff {t : FieldType} (h : t.Scalar) :
    t.WellFormed ↔ IsBare t.text.toList := by
  cases h with
  | primitive p =>
    exact iff_of_true trivial (isBare_of_mem_reservedWords (by cases p <;> decide))
  | list | set | map => exact iff_of_true trivial (isBare_of_mem_reservedWords (by decide))
  | @other name h =>
    rw [text, toList_text_other, isBare_collection_iff (by simpa using h)]
    exact and_iff_right h
  | @named name hchars hword =>
    constructor
    · rintro ⟨hne, -, -⟩
      exact isBare_of_isNameChar (by simpa [text] using hne) hchars
    · intro hbare
      exact ⟨fun hempty => hbare.ne_nil (by simp [text, hempty]), hchars, hword⟩

theorem scalar_of_wellFormed {t : FieldType} (h : t.WellFormed) (harray : t.isArray = false) :
    t.Scalar := by
  cases t with
  | primitive p => exact .primitive p
  | array t => simp [isArray] at harray
  | collection kind =>
    cases kind with
    | list => exact .list
    | set => exact .set
    | other name => exact .other h.1
  | map => exact .map
  | named name => exact .named h.2.1 h.2.2

/-! Reading. -/

theorem ofChars_eq (s : List Char) : ofChars s =
    if trim s = [] then .error .empty
    else
      match stripBrackets? (trim s) with
      | some r => (ofChars r).map .array
      | none => ofScalarText (.ofList (trim s)) := by
  rw [ofChars]
  congr 1
  split <;> simp [*]

theorem ofChars_of_isBare {s : List Char} (h : IsBare s) :
    ofChars s = ofScalarText (.ofList s) := by
  rw [ofChars_eq, trim_eq_self h.trimmed, if_neg h.ne_nil, stripBrackets?_eq_none_iff.2 h.brackets]

theorem ofChars_array {s : List Char} (h : IsTrimmed (s ++ ['[', ']'])) :
    ofChars (s ++ ['[', ']']) = (ofChars s).map .array := by
  rw [ofChars_eq, trim_eq_self h, if_neg (by simp), stripBrackets?_append]

/-- Whatever the text, the type that is read is well formed. -/
theorem wellFormed_of_ofChars {s : List Char} {t : FieldType} (h : ofChars s = .ok t) :
    t.WellFormed := by
  induction s using ofChars.induct generalizing t with
  | case1 s hempty =>
    rw [ofChars, if_pos hempty] at h
    cases h
  | case2 s hne r hr ih =>
    rw [ofChars_eq, if_neg hne, hr] at h
    obtain ⟨component, hcomponent, rfl⟩ := map_eq_ok_iff.1 h
    exact (ih hcomponent : component.WellFormed)
  | case3 s hne hr =>
    rw [ofChars_eq, if_neg hne, hr] at h
    obtain ⟨hscalar, htext⟩ := ofScalarText_eq_ok_iff.1 h
    refine hscalar.wellFormed_iff.2 ?_
    rw [htext, String.toList_ofList]
    exact ⟨hne, isTrimmed_trim s, stripBrackets?_eq_none_iff.1 hr⟩

theorem isTrimmed_text {t : FieldType} (h : t.WellFormed) :
    t.text.toList ≠ [] ∧ IsTrimmed t.text.toList := by
  induction t with
  | array t ih =>
    obtain ⟨hne, htrimmed⟩ := ih h
    refine ⟨by simp [text], ⟨fun c hc => htrimmed.head c ?_, fun c hc => ?_⟩⟩
    · rwa [text, String.toList_append, List.head?_append_of_ne_nil _ hne] at hc
    · obtain rfl : ']' = c := by simpa [text] using hc
      decide
  | _ =>
    have hbare := (scalar_of_wellFormed h rfl).wellFormed_iff.1 h
    exact ⟨hbare.ne_nil, hbare.trimmed⟩

theorem ofChars_text {t : FieldType} (h : t.WellFormed) : ofChars t.text.toList = .ok t := by
  induction t with
  | array t ih =>
    have htrimmed := (isTrimmed_text h).2
    rw [text, String.toList_append] at htrimmed ⊢
    exact (ofChars_array htrimmed).trans (by rw [ih h]; rfl)
  | _ =>
    have hscalar := scalar_of_wellFormed h rfl
    rw [ofChars_of_isBare (hscalar.wellFormed_iff.1 h), String.ofList_toList]
    exact ofScalarText_eq_ok_iff.2 ⟨hscalar, rfl⟩

/-- Reading undoes writing on the well-formed types and on no other: what is read is always well
formed, and a type is read back from its own text exactly if it is well formed. So a text that is
read once is, written in its compact form, read as the same type again. -/
theorem ofText_text_iff_wellFormed :
    (∀ s t, ofText s = .ok t → t.WellFormed) ∧
    (∀ t : FieldType, ofText t.text = .ok t ↔ t.WellFormed) ∧
    ∀ s t, ofText s = .ok t → ofText t.text = .ok t :=
  ⟨fun _ _ => wellFormed_of_ofChars, fun _ => ⟨wellFormed_of_ofChars, ofChars_text⟩,
    fun _ _ h => ofChars_text (wellFormed_of_ofChars h)⟩

/-- A name that would be read as an array, and a collection whose name ends in white space. -/
theorem ofText_text_iff_wellFormed_of_brackets :
    ofText (FieldType.named "Map[]").text ≠ .ok (.named "Map[]") ∧
    ofText (FieldType.array .map).text = .ok (.array .map) ∧
    ofText (FieldType.array (.collection (.other "Queue "))).text ≠
      .ok (.array (.collection (.other "Queue "))) := by
  obtain ⟨-, hiff, -⟩ := ofText_text_iff_wellFormed
  exact ⟨(hiff _).not.2 (by decide), (hiff _).2 (by decide), (hiff _).not.2 (by decide)⟩

end FieldType

end LedgerSchema
