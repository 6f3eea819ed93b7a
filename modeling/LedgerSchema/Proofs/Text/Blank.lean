import Mathlib
import LedgerSchema.Text.Alphanumeric
import LedgerSchema.Text.Blank

/-!
What is left of a text without the white space around it: a text that is empty or has other
characters at both of its ends. Letters and numbers are no white space.
-/

set_option autoImplicit false

namespace LedgerSchema

structure IsTrimmed (s : List Char) : Prop where
  head : ∀ c ∈ s.head?, isBlank c = false
  last : ∀ c ∈ s.getLast?, isBlank c = false

theorem dropWhile_eq_self_of_head? {s : List Char} (h : ∀ c ∈ s.head?, isBlank c = false) :
    s.dropWhile isBlank = s := by
  cases s with
  | nil => rfl
  | cons c s => rw [List.dropWhile_cons_of_neg (by simp [h c rfl])]

theorem head?_dropWhile_isBlank (s : List Char) :
    ∀ c ∈ (s.dropWhile isBlank).head?, isBlank c = false := by
  intro c hc
  have h := List.head?_dropWhile_not isBlank s
  rw [Option.mem_def.1 hc] at h
  exact h

theorem dropBlankEnd_eq_self {s : List Char} (h : ∀ c ∈ s.getLast?, isBlank c = false) :
    dropBlankEnd s = s := by
  rw [dropBlankEnd, dropWhile_eq_self_of_head? (by rwa [List.head?_reverse]), List.reverse_reverse]

theorem getLast?_dropBlankEnd (s : List Char) :
    ∀ c ∈ (dropBlankEnd s).getLast?, isBlank c = false := by
  rw [dropBlankEnd, List.getLast?_reverse]
  exact head?_dropWhile_isBlank s.reverse

theorem dropBlankEnd_prefix (s : List Char) : dropBlankEnd s <+: s :=
  List.reverse_suffix.1 (by
    rw [dropBlankEnd, List.reverse_reverse]
    exact List.dropWhile_suffix isBlank)

theorem isTrimmed_trim (s : List Char) : IsTrimmed (trim s) where
  head c hc := by
    -- The end can only go after the start, so the first character is the one that was left there.
    obtain ⟨tail, htail⟩ := dropBlankEnd_prefix (s.dropWhile isBlank)
    refine head?_dropWhile_isBlank s c ?_
    rw [← htail]
    exact List.mem_head?_append_of_mem_head? hc
  last := getLast?_dropBlankEnd _

theorem trim_eq_self {s : List Char} (h : IsTrimmed s) : trim s = s := by
  rw [trim, dropWhile_eq_self_of_head? h.head, dropBlankEnd_eq_self h.last]

/-! Letters and numbers. -/

def blankRanges : List (Nat × Nat) :=
  [(9, 13), (0x20, 0x20), (0x85, 0x85), (0xA0, 0xA0), (0x1680, 0x1680), (0x2000, 0x200A),
    (0x2028, 0x2029), (0x202F, 0x202F), (0x205F, 0x205F), (0x3000, 0x3000)]

def alphanumericRanges : List (Nat × Nat) :=
  [(0x30, 0x39), (0x41, 0x5A), (0x61, 0x7A)] ++ alphanumericLow.toList ++ alphanumericHigh.toList

theorem ranges_disjoint : ∀ a ∈ alphanumericRanges, ∀ b ∈ blankRanges, a.2 < b.1 ∨ b.2 < a.1 := by
  decide +kernel

theorem exists_blankRange {c : Char} (h : isBlank c = true) :
    ∃ b ∈ blankRanges, b.1 ≤ c.toNat ∧ c.toNat ≤ b.2 := by
  simp only [isBlank, Bool.or_eq_true, Bool.and_eq_true, decide_eq_true_eq, beq_iff_eq] at h
  simp only [blankRanges, List.mem_cons, exists_eq_or_imp, List.not_mem_nil, or_false,
    exists_eq_left]
  omega

theorem exists_asciiRange {c : Char} (h : c.isAlphanum = true) :
    ∃ a ∈ [(0x30, 0x39), (0x41, 0x5A), (0x61, 0x7A)], a.1 ≤ c.toNat ∧ c.toNat ≤ a.2 := by
  delta Char.isAlphanum Char.isAlpha Char.isUpper Char.isLower Char.isDigit at h
  simp only [Bool.or_eq_true, Bool.and_eq_true, decide_eq_true_eq, UInt32.le_iff_toNat_le,
    ge_iff_le] at h
  simp only [List.mem_cons, exists_eq_or_imp, List.not_mem_nil, or_false, exists_eq_left]
  change ((0x41 ≤ c.toNat ∧ c.toNat ≤ 0x5A) ∨ (0x61 ≤ c.toNat ∧ c.toNat ≤ 0x7A)) ∨
    (0x30 ≤ c.toNat ∧ c.toNat ≤ 0x39) at h
  omega

theorem exists_alphanumericRange {c : Char} (h : isAlphanumeric c = true) :
    ∃ a ∈ alphanumericRanges, a.1 ≤ c.toNat ∧ c.toNat ≤ a.2 := by
  have htable {table : Array (Nat × Nat)}
      (h : table.any (fun r => r.1 ≤ c.toNat && c.toNat ≤ r.2) = true) :
      ∃ r ∈ table.toList, r.1 ≤ c.toNat ∧ c.toNat ≤ r.2 := by
    rw [← Array.any_toList, List.any_eq_true] at h
    simpa using h
  unfold isAlphanumeric at h
  simp only [alphanumericRanges, List.append_assoc, List.mem_append]
  split at h
  · obtain ⟨a, ha, hc⟩ := exists_asciiRange h
    exact ⟨a, .inl ha, hc⟩
  · split at h <;> obtain ⟨a, ha, hc⟩ := htable h
    · exact ⟨a, .inr (.inl ha), hc⟩
    · exact ⟨a, .inr (.inr ha), hc⟩

theorem isBlank_of_isAlphanumeric {c : Char} (h : isAlphanumeric c = true) : isBlank c = false := by
  rw [← Bool.not_eq_true]
  intro hblank
  obtain ⟨a, ha, hca⟩ := exists_alphanumericRange h
  obtain ⟨b, hb, hcb⟩ := exists_blankRange hblank
  have := ranges_disjoint a ha b hb
  omega

end LedgerSchema
