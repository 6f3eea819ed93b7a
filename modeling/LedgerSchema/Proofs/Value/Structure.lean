import Mathlib
import LedgerSchema.Proofs.KeyMap
import LedgerSchema.Value.Equality

/-!
Values as trees: induction over the parts of a value, and equality without its walk over lists. A
value stays equal to what it was when the null fields of its resources are left out, so two values
that agree after that are interchangeable in every comparison.
-/

set_option autoImplicit false

namespace LedgerSchema

namespace Value

@[elab_as_elim]
theorem induction {motive : Value → Prop}
    (null : motive .null)
    (string : ∀ s, motive (.string s))
    (long : ∀ n, motive (.long n))
    (integer : ∀ n, motive (.integer n))
    (double : ∀ x, motive (.double x))
    (dateTime : ∀ t, motive (.dateTime t))
    (boolean : ∀ b, motive (.boolean b))
    (enum : ∀ c, motive (.enum c))
    (list : ∀ items, (∀ v ∈ items, motive v) → motive (.list items))
    (set : ∀ items, (∀ v ∈ items, motive v) → motive (.set items))
    (array : ∀ items, (∀ v ∈ items, motive v) → motive (.array items))
    (map : ∀ entries, (∀ e ∈ entries, motive e.2) → motive (.map entries))
    (resource : ∀ type fields, (∀ e ∈ fields, motive e.2) → motive (.resource type fields))
    (v : Value) : motive v := by
  refine @Value.rec motive (fun items => ∀ v ∈ items, motive v)
    (fun entries => ∀ e ∈ entries, motive e.2) (fun e => motive e.2)
    null string long integer double dateTime boolean enum list set array map resource
    ?_ ?_ ?_ ?_ ?_ v
  · simp
  · intro x xs hx hxs
    exact List.forall_mem_cons.2 ⟨hx, hxs⟩
  · simp
  · intro e es he hes
    exact List.forall_mem_cons.2 ⟨he, hes⟩
  · exact fun _ _ h => h

/-! Equality of the parts of two values, list by list. -/

theorem beqItems_iff {xs ys : List Value} :
    beqItems xs ys = true ↔ List.Forall₂ (fun x y => beq x y = true) xs ys := by
  induction xs generalizing ys with
  | nil => cases ys <;> simp [beqItems]
  | cons x xs ih => cases ys <;> simp [beqItems, ih]

theorem allIn_iff {xs ys : List Value} :
    allIn xs ys = true ↔ ∀ x ∈ xs, ∃ y ∈ ys, beq x y = true := by
  induction xs with
  | nil => simp [allIn]
  | cons x xs ih => simp [allIn, ih]

theorem beqEntries_iff {xs ys : List (String × Value)} :
    beqEntries xs ys = true ↔
      List.Forall₂ (fun x y => x.1 = y.1 ∧ beq x.2 y.2 = true) xs ys := by
  induction xs generalizing ys with
  | nil => cases ys <;> simp [beqEntries]
  | cons x xs ih => cases ys <;> simp [beqEntries, ih, and_assoc]

theorem beqPresent_eq (xs ys : List (String × Value)) :
    beqPresent xs ys = beqEntries (presentFields xs) ys := by
  induction xs generalizing ys with
  | nil => cases ys <;> simp [beqPresent, presentFields, beqEntries]
  | cons x xs ih =>
    obtain ⟨k, v⟩ := x
    cases hv : v.isNull with
    | true => simp [beqPresent, presentFields, hv, ih]
    | false =>
      cases ys with
      | nil => simp [beqPresent, presentFields, hv, beqEntries]
      | cons y ys => simp [beqPresent, presentFields, hv, beqEntries, ih]

theorem beq_resource_iff {c d : String} {xs ys : List (String × Value)} :
    beq (.resource c xs) (.resource d ys) = true ↔
      c = d ∧ List.Forall₂ (fun x y => x.1 = y.1 ∧ beq x.2 y.2 = true)
        (presentFields xs) (presentFields ys) := by
  simp [beq, beqPresent_eq, beqEntries_iff]

mutual

/-- The value with the null fields of all its resources left out. -/
def compact : Value → Value
  | .list items => .list (compactItems items)
  | .set items => .set (compactItems items)
  | .array items => .array (compactItems items)
  | .map entries => .map (compactEntries entries)
  | .resource type fields => .resource type (compactFields fields)
  | v => v
termination_by structural v => v

def compactItems : List Value → List Value
  | [] => []
  | v :: rest => compact v :: compactItems rest
termination_by structural items => items

def compactEntries : List (String × Value) → List (String × Value)
  | [] => []
  | (k, v) :: rest => (k, compact v) :: compactEntries rest
termination_by structural entries => entries

def compactFields : List (String × Value) → List (String × Value)
  | [] => []
  | (k, v) :: rest =>
    if v.isNull then compactFields rest else (k, compact v) :: compactFields rest
termination_by structural fields => fields

end

theorem compactItems_eq (items : List Value) : compactItems items = items.map compact := by
  induction items with
  | nil => rfl
  | cons v rest ih => simp [compactItems, ih]

theorem compactEntries_eq (entries : List (String × Value)) :
    compactEntries entries = entries.map fun e => (e.1, compact e.2) := by
  induction entries with
  | nil => rfl
  | cons e rest ih => simp [compactEntries, ih]

theorem compactFields_eq (fields : List (String × Value)) :
    compactFields fields = (presentFields fields).map fun e => (e.1, compact e.2) := by
  induction fields with
  | nil => rfl
  | cons e rest ih =>
    obtain ⟨k, v⟩ := e
    cases hv : v.isNull <;> simp [compactFields, presentFields, hv, ih]

@[simp] theorem isNull_compact (v : Value) : v.compact.isNull = v.isNull := by
  cases v <;> rfl

theorem presentFields_compactFields (fields : List (String × Value)) :
    presentFields (compactFields fields) = compactFields fields := by
  rw [compactFields_eq, presentFields, List.filter_map, presentFields, Function.comp_def]
  simp

theorem fieldValue_eq_null {fields : List (String × Value)} {name : String}
    (h : ∀ e ∈ fields, e.2 ≠ .null → e.1 ≠ name) : fieldValue fields name = .null := by
  rw [fieldValue]
  cases hv : fields.lookup name with
  | none => rfl
  | some v => exact of_not_not fun hne => h _ (mem_of_lookup hv) hne rfl

theorem ascending_compactFields {fields : List (String × Value)} (h : Ascending fields) :
    Ascending (compactFields fields) := by
  rw [compactFields_eq]
  exact List.pairwise_map.2 (h.filter _)

/-- Without its null fields, an instance is determined by what it has under each name. -/
theorem compactFields_congr {xs ys : List (String × Value)} (hxs : Ascending xs)
    (hys : Ascending ys)
    (h : ∀ name, (fieldValue xs name).compact = (fieldValue ys name).compact) :
    compactFields xs = compactFields ys := by
  have hlookup {fields : List (String × Value)} (hfields : Ascending fields) (name : String)
      (v : Value) : (compactFields fields).lookup name = some v ↔
        v.isNull = false ∧ (fieldValue fields name).compact = v := by
    rw [(ascending_compactFields hfields).lookup_eq_some_iff, compactFields_eq, presentFields]
    simp only [List.mem_map, List.mem_filter, Prod.exists, Prod.mk.injEq, Bool.not_eq_true',
      ← hfields.lookup_eq_some_iff, fieldValue]
    constructor
    · rintro ⟨k, w, ⟨hw, hnull⟩, rfl, rfl⟩
      exact ⟨by rwa [isNull_compact], by rw [hw, Option.getD_some]⟩
    · rintro ⟨hnull, rfl⟩
      cases hw : fields.lookup name with
      | none => simp [hw, compact, isNull] at hnull
      | some w =>
        rw [hw, Option.getD_some, isNull_compact] at hnull
        exact ⟨name, w, ⟨hw, hnull⟩, rfl, rfl⟩
  refine (ascending_compactFields hxs).ext (ascending_compactFields hys) fun name =>
    Option.ext fun v => ?_
  rw [hlookup hxs, hlookup hys, h]

theorem forall₂_congr_of_mem {α γ : Type} {R S : α → γ → Prop} {xs : List α} {ys : List γ}
    (h : ∀ x ∈ xs, ∀ y, R x y ↔ S x y) : List.Forall₂ R xs ys ↔ List.Forall₂ S xs ys := by
  induction xs generalizing ys with
  | nil => cases ys <;> simp
  | cons x xs ih =>
    cases ys with
    | nil => simp
    | cons y ys =>
      rw [List.forall₂_cons, List.forall₂_cons, h x (by simp),
        ih fun x hx => h x (List.mem_cons_of_mem _ hx)]

theorem beqItems_compact {xs : List Value}
    (h : ∀ x ∈ xs, ∀ y, beq x.compact y.compact = beq x y) (ys : List Value) :
    beqItems (xs.map compact) (ys.map compact) = beqItems xs ys := by
  rw [Bool.eq_iff_iff, beqItems_iff, beqItems_iff, List.forall₂_map_left_iff,
    List.forall₂_map_right_iff]
  exact forall₂_congr_of_mem fun x hx y => by rw [h x hx]

theorem beqEntries_compact {xs : List (String × Value)}
    (h : ∀ x ∈ xs, ∀ y, beq x.2.compact y.compact = beq x.2 y) (ys : List (String × Value)) :
    beqEntries (xs.map fun e => (e.1, compact e.2)) (ys.map fun e => (e.1, compact e.2)) =
      beqEntries xs ys := by
  rw [Bool.eq_iff_iff, beqEntries_iff, beqEntries_iff, List.forall₂_map_left_iff,
    List.forall₂_map_right_iff]
  exact forall₂_congr_of_mem fun x hx y => by rw [h x hx]

/-- Null fields have no part in comparisons, at any depth. -/
theorem beq_compact (a b : Value) : beq a.compact b.compact = beq a b := by
  induction a using Value.induction generalizing b with
  | list xs ih =>
    cases b <;> simp only [compact, beq, compactItems_eq]
    exact beqItems_compact ih _
  | array xs ih =>
    cases b <;> simp only [compact, beq, compactItems_eq]
    exact beqItems_compact ih _
  | set xs ih =>
    cases b with
    | set ys =>
      simp only [compact, beq, compactItems_eq, List.length_map]
      congr 1
      rw [Bool.eq_iff_iff, allIn_iff, allIn_iff, List.forall_mem_map]
      refine forall₂_congr fun x hx => ?_
      simp [ih x hx]
    | _ => simp only [compact, beq]
  | map xs ih =>
    cases b <;> simp only [compact, beq, compactEntries_eq]
    exact beqEntries_compact ih _
  | resource c xs ih =>
    cases b with
    | resource d ys =>
      simp only [compact, beq, beqPresent_eq, presentFields_compactFields]
      rw [compactFields_eq, compactFields_eq, beqEntries_compact]
      exact fun x hx y => ih x (List.mem_of_mem_filter hx) y
    | _ => simp only [compact, beq]
  | _ => cases b <;> simp only [compact, beq]

mutual

def nanFree : Value → Bool
  | .double x => !x.isNaN
  | .list items | .set items | .array items => nanFreeItems items
  | .map entries | .resource _ entries => nanFreeEntries entries
  | _ => true
termination_by structural v => v

def nanFreeItems : List Value → Bool
  | [] => true
  | v :: rest => nanFree v && nanFreeItems rest
termination_by structural items => items

def nanFreeEntries : List (String × Value) → Bool
  | [] => true
  | (_, v) :: rest => nanFree v && nanFreeEntries rest
termination_by structural entries => entries

end

theorem nanFreeItems_iff {items : List Value} :
    nanFreeItems items = true ↔ ∀ v ∈ items, nanFree v = true := by
  induction items with
  | nil => simp [nanFreeItems]
  | cons v rest ih => simp [nanFreeItems, ih]

theorem nanFreeEntries_iff {entries : List (String × Value)} :
    nanFreeEntries entries = true ↔ ∀ e ∈ entries, nanFree e.2 = true := by
  induction entries with
  | nil => simp [nanFreeEntries]
  | cons e rest ih => simp [nanFreeEntries, ih]

theorem beqItems_self {items : List Value} (h : ∀ v ∈ items, beq v v = true) :
    beqItems items items = true := by
  rw [beqItems_iff, List.forall₂_same]
  exact h

theorem beqEntries_self {entries : List (String × Value)} (h : ∀ e ∈ entries, beq e.2 e.2 = true) :
    beqEntries entries entries = true := by
  rw [beqEntries_iff, List.forall₂_same]
  exact fun e he => ⟨rfl, h e he⟩

theorem beq_self {v : Value} (h : v.nanFree = true) : beq v v = true := by
  induction v using Value.induction with
  | double x => simpa [nanFree, beq, Binary64.numEq] using h
  | list items ih | array items ih =>
    rw [nanFree, nanFreeItems_iff] at h
    exact beqItems_self fun v hv => ih v hv (h v hv)
  | set items ih =>
    rw [nanFree, nanFreeItems_iff] at h
    rw [beq, beq_self_eq_true, Bool.true_and, allIn_iff]
    exact fun v hv => ⟨v, hv, ih v hv (h v hv)⟩
  | map entries ih =>
    rw [nanFree, nanFreeEntries_iff] at h
    exact beqEntries_self fun e he => ih e he (h e he)
  | resource type fields ih =>
    rw [nanFree, nanFreeEntries_iff] at h
    rw [beq, beq_self_eq_true, Bool.true_and, beqPresent_eq]
    refine beqEntries_self fun e he => ?_
    have hmem : e ∈ fields := List.mem_of_mem_filter he
    exact ih e hmem (h e hmem)
  | _ => simp [beq]

theorem beq_of_compact_eq {a b : Value} (h : a.compact = b.compact) (hb : b.nanFree = true) :
    beq a b = true := by
  rw [← beq_compact, h, beq_compact]
  exact beq_self hb

end Value

end LedgerSchema
