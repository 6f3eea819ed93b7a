import Mathlib
import LedgerSchema.Proofs.Outcome
import LedgerSchema.Proofs.Value.Set

/-!
Equality of values is symmetric and transitive, and a value equals itself exactly if nothing in it
is not a number. Only symmetry needs that sets are built by insertion: two sets are compared by
their sizes and by looking for the items of the left one in the right one, so an item of the right
one is found on the left because no two items there have the same partner.
-/

set_option autoImplicit false

namespace LedgerSchema

universe u v w
variable {α : Type u} {β : Type v} {γ : Type w}

theorem forall₂_comp_of_mem {R : α → β → Prop} {S : β → γ → Prop} {T : α → γ → Prop} {xs : List α}
    {ys : List β} {zs : List γ} (h : ∀ x ∈ xs, ∀ y z, R x y → S y z → T x z)
    (hxy : List.Forall₂ R xs ys) (hyz : List.Forall₂ S ys zs) : List.Forall₂ T xs zs := by
  induction hxy generalizing zs with
  | nil =>
    cases hyz
    exact .nil
  | cons hx _ ih =>
    obtain ⟨z, zs, hz, hzs, rfl⟩ := List.forall₂_cons_left_iff.1 hyz
    obtain ⟨hhead, htail⟩ := List.forall_mem_cons.1 h
    exact .cons (hhead _ _ hx hz) (ih htail hzs)

theorem forall₂_flip_of_mem {R : α → β → Prop} {S : β → α → Prop} {xs : List α} {ys : List β}
    (h : ∀ x ∈ xs, ∀ y, R x y → S y x) (hxy : List.Forall₂ R xs ys) : List.Forall₂ S ys xs := by
  have hboth := (List.forall₂_and_left xs ys).2 ⟨h, hxy⟩
  exact hboth.flip.imp fun y x hyx => hyx.1 y hyx.2

/-- If everything on the left has a partner on the right, and no two can have the same, then
partners can be chosen that are different items on the right. -/
theorem exists_subperm_partners [Nonempty β] {R : α → β → Prop} {xs : List α} {ys : List β}
    (h : ∀ x ∈ xs, ∃ y ∈ ys, R x y) (hapart : xs.Pairwise fun a b => ∀ y, R a y → ¬ R b y) :
    ∃ partners, List.Forall₂ R xs partners ∧ partners.Subperm ys := by
  choose! partner hpartner using h
  have hnodup : (xs.map partner).Nodup := by
    refine List.pairwise_map.2 (hapart.imp_of_mem fun {a b} ha hb hab heq => ?_)
    exact hab _ (hpartner a ha).2 (heq ▸ (hpartner b hb).2)
  have hsubset : xs.map partner ⊆ ys := by
    intro y hy
    obtain ⟨x, hx, rfl⟩ := List.mem_map.1 hy
    exact (hpartner x hx).1
  refine ⟨xs.map partner, ?_, List.subperm_of_subset hnodup hsubset⟩
  exact List.forall₂_map_right_iff.2 (List.forall₂_same.2 fun x hx => (hpartner x hx).2)

theorem length_le_of_partners [Nonempty β] {R : α → β → Prop} {xs : List α} {ys : List β}
    (h : ∀ x ∈ xs, ∃ y ∈ ys, R x y) (hapart : xs.Pairwise fun a b => ∀ y, R a y → ¬ R b y) :
    xs.length ≤ ys.length := by
  obtain ⟨partners, hpartners, hsubperm⟩ := exists_subperm_partners h hapart
  exact hpartners.length_eq ▸ hsubperm.length_le

/-- If the right side is not longer, then everything there is a partner. -/
theorem exists_partner_of_length_le [Nonempty β] {R : α → β → Prop} {xs : List α} {ys : List β}
    (hlength : ys.length ≤ xs.length) (h : ∀ x ∈ xs, ∃ y ∈ ys, R x y)
    (hapart : xs.Pairwise fun a b => ∀ y, R a y → ¬ R b y) : ∀ y ∈ ys, ∃ x ∈ xs, R x y := by
  obtain ⟨partners, hpartners, hsubperm⟩ := exists_subperm_partners h hapart
  have hperm : partners.Perm ys := hsubperm.perm_of_length_le (hpartners.length_eq ▸ hlength)
  intro y hy
  exact exists_mem_left hpartners (hperm.mem_iff.2 hy)

theorem Binary64.numEq_trans {x y z : Binary64} (hxy : x.numEq y = true) (hyz : y.numEq z = true) :
    x.numEq z = true := by
  simp only [numEq, Bool.and_eq_true, Bool.or_eq_true, decide_eq_true_eq] at *
  obtain ⟨⟨hx, -⟩, rfl | ⟨hxzero, hyzero⟩⟩ := hxy
  · exact hyz
  · obtain ⟨⟨-, hz⟩, rfl | ⟨-, hzzero⟩⟩ := hyz
    · exact ⟨⟨hx, hz⟩, .inr ⟨hxzero, hyzero⟩⟩
    · exact ⟨⟨hx, hz⟩, .inr ⟨hxzero, hzzero⟩⟩

namespace Value

def isAtom : Value → Bool
  | .null | .string _ | .long _ | .integer _ | .dateTime _ | .boolean _ | .enum _ => true
  | _ => false

/-! What equals a value, one lemma for each kind of value. -/

theorem atom_beq_iff {a b : Value} (h : a.isAtom = true) : beq a b = true ↔ a = b := by
  cases a <;> cases b <;> simp_all [isAtom, beq]

theorem double_beq_iff {x : Binary64} {b : Value} :
    beq (.double x) b = true ↔ ∃ y, b = .double y ∧ x.numEq y = true := by
  cases b <;> simp [beq]

theorem list_beq_iff {xs : List Value} {b : Value} : beq (.list xs) b = true ↔
    ∃ ys, b = .list ys ∧ List.Forall₂ (fun x y => beq x y = true) xs ys := by
  cases b <;> simp [beq, beqItems_iff]

theorem array_beq_iff {xs : List Value} {b : Value} : beq (.array xs) b = true ↔
    ∃ ys, b = .array ys ∧ List.Forall₂ (fun x y => beq x y = true) xs ys := by
  cases b <;> simp [beq, beqItems_iff]

theorem set_beq_iff {xs : List Value} {b : Value} : beq (.set xs) b = true ↔
    ∃ ys, b = .set ys ∧ xs.length = ys.length ∧ ∀ x ∈ xs, ∃ y ∈ ys, beq x y = true := by
  cases b <;> simp [beq, allIn_iff]

theorem map_beq_iff {xs : List (String × Value)} {b : Value} : beq (.map xs) b = true ↔
    ∃ ys, b = .map ys ∧ List.Forall₂ (fun x y => x.1 = y.1 ∧ beq x.2 y.2 = true) xs ys := by
  cases b <;> simp [beq, beqEntries_iff]

theorem resource_beq_iff {c : String} {xs : List (String × Value)} {b : Value} :
    beq (.resource c xs) b = true ↔ ∃ ys, b = .resource c ys ∧
      List.Forall₂ (fun x y => x.1 = y.1 ∧ beq x.2 y.2 = true)
        (presentFields xs) (presentFields ys) := by
  cases b with
  | resource d ys =>
    rw [beq_resource_iff]
    simp [eq_comm (a := d), and_assoc]
  | _ => simp [beq]

theorem beq_trans {a b c : Value} (hab : beq a b = true) (hbc : beq b c = true) :
    beq a c = true := by
  induction a using Value.induction generalizing b c with
  | double x =>
    obtain ⟨y, rfl, hxy⟩ := double_beq_iff.1 hab
    obtain ⟨z, rfl, hyz⟩ := double_beq_iff.1 hbc
    exact Binary64.numEq_trans hxy hyz
  | list xs ih =>
    obtain ⟨ys, rfl, hxy⟩ := list_beq_iff.1 hab
    obtain ⟨zs, rfl, hyz⟩ := list_beq_iff.1 hbc
    refine list_beq_iff.2 ⟨zs, rfl, forall₂_comp_of_mem ?_ hxy hyz⟩
    exact fun x hx _ _ => ih x hx
  | array xs ih =>
    obtain ⟨ys, rfl, hxy⟩ := array_beq_iff.1 hab
    obtain ⟨zs, rfl, hyz⟩ := array_beq_iff.1 hbc
    refine array_beq_iff.2 ⟨zs, rfl, forall₂_comp_of_mem ?_ hxy hyz⟩
    exact fun x hx _ _ => ih x hx
  | set xs ih =>
    obtain ⟨ys, rfl, hlength, hxy⟩ := set_beq_iff.1 hab
    obtain ⟨zs, rfl, hlength', hyz⟩ := set_beq_iff.1 hbc
    refine set_beq_iff.2 ⟨zs, rfl, hlength.trans hlength', fun x hx => ?_⟩
    obtain ⟨y, hy, hxy⟩ := hxy x hx
    obtain ⟨z, hz, hyz⟩ := hyz y hy
    exact ⟨z, hz, ih x hx hxy hyz⟩
  | map xs ih =>
    obtain ⟨ys, rfl, hxy⟩ := map_beq_iff.1 hab
    obtain ⟨zs, rfl, hyz⟩ := map_beq_iff.1 hbc
    refine map_beq_iff.2 ⟨zs, rfl, forall₂_comp_of_mem ?_ hxy hyz⟩
    exact fun x hx _ _ hxy hyz => ⟨hxy.1.trans hyz.1, ih x hx hxy.2 hyz.2⟩
  | resource c xs ih =>
    obtain ⟨ys, rfl, hxy⟩ := resource_beq_iff.1 hab
    obtain ⟨zs, rfl, hyz⟩ := resource_beq_iff.1 hbc
    refine resource_beq_iff.2 ⟨zs, rfl, forall₂_comp_of_mem ?_ hxy hyz⟩
    exact fun x hx _ _ hxy hyz =>
      ⟨hxy.1.trans hyz.1, ih x (List.mem_of_mem_filter hx) hxy.2 hyz.2⟩
  | _ =>
    obtain rfl := (atom_beq_iff rfl).1 hab
    exact hbc

mutual

def SetsBuilt : Value → Prop
  | .set items => (∃ inserted, items = setOfList inserted) ∧ SetsBuiltItems items
  | .list items | .array items => SetsBuiltItems items
  | .map entries | .resource _ entries => SetsBuiltEntries entries
  | _ => True
termination_by structural v => v

def SetsBuiltItems : List Value → Prop
  | [] => True
  | v :: rest => SetsBuilt v ∧ SetsBuiltItems rest
termination_by structural items => items

def SetsBuiltEntries : List (String × Value) → Prop
  | [] => True
  | (_, v) :: rest => SetsBuilt v ∧ SetsBuiltEntries rest
termination_by structural entries => entries

end

theorem setsBuiltItems_iff {items : List Value} :
    SetsBuiltItems items ↔ ∀ v ∈ items, v.SetsBuilt := by
  induction items with
  | nil => simp [SetsBuiltItems]
  | cons v rest ih => simp [SetsBuiltItems, ih]

theorem setsBuiltEntries_iff {entries : List (String × Value)} :
    SetsBuiltEntries entries ↔ ∀ e ∈ entries, e.2.SetsBuilt := by
  induction entries with
  | nil => simp [SetsBuiltEntries]
  | cons e rest ih => simp [SetsBuiltEntries, ih]

/-- What insertion makes of some values has no repeats, and such a list is made of its own items. -/
theorem distinct_iff_exists_setOfList {items : List Value} :
    Distinct items ↔ ∃ inserted, items = setOfList inserted := by
  constructor
  · exact fun h => ⟨items, (setOfList_of_distinct h).symm⟩
  · rintro ⟨inserted, rfl⟩
    exact distinct_setOfList inserted

/-- Two items that equal one value equal each other, so distinct items are apart in that. -/
theorem Distinct.apart {xs : List Value} (h : Distinct xs)
    (hsymm : ∀ x ∈ xs, ∀ y, beq x y = true → beq y x = true) :
    xs.Pairwise fun x x' => ∀ y, beq x y = true → ¬ beq x' y = true := by
  apply h.imp_of_mem
  intro x x' _ hx' hne y hxy hxy'
  exact Bool.eq_false_iff.1 hne (beq_trans hxy (hsymm x' hx' y hxy'))

theorem beq_symm {a b : Value} (ha : a.SetsBuilt) (hab : beq a b = true) : beq b a = true := by
  induction a using Value.induction generalizing b with
  | double x =>
    obtain ⟨y, rfl, hxy⟩ := double_beq_iff.1 hab
    exact double_beq_iff.2 ⟨x, rfl, Binary64.numEq_comm x y ▸ hxy⟩
  | list xs ih =>
    rw [SetsBuilt, setsBuiltItems_iff] at ha
    obtain ⟨ys, rfl, hxy⟩ := list_beq_iff.1 hab
    exact list_beq_iff.2 ⟨xs, rfl, forall₂_flip_of_mem (fun x hx _ => ih x hx (ha x hx)) hxy⟩
  | array xs ih =>
    rw [SetsBuilt, setsBuiltItems_iff] at ha
    obtain ⟨ys, rfl, hxy⟩ := array_beq_iff.1 hab
    exact array_beq_iff.2 ⟨xs, rfl, forall₂_flip_of_mem (fun x hx _ => ih x hx (ha x hx)) hxy⟩
  | set xs ih =>
    rw [SetsBuilt, setsBuiltItems_iff] at ha
    obtain ⟨hbuilt, ha⟩ := ha
    obtain ⟨ys, rfl, hlength, hxy⟩ := set_beq_iff.1 hab
    refine set_beq_iff.2 ⟨xs, rfl, hlength.symm, fun y hy => ?_⟩
    have hapart := (distinct_iff_exists_setOfList.2 hbuilt).apart fun x hx _ => ih x hx (ha x hx)
    have : Nonempty Value := ⟨.null⟩
    obtain ⟨x, hx, hxy⟩ := exists_partner_of_length_le hlength.ge hxy hapart y hy
    exact ⟨x, hx, ih x hx (ha x hx) hxy⟩
  | map xs ih =>
    rw [SetsBuilt, setsBuiltEntries_iff] at ha
    obtain ⟨ys, rfl, hxy⟩ := map_beq_iff.1 hab
    refine map_beq_iff.2 ⟨xs, rfl, forall₂_flip_of_mem ?_ hxy⟩
    exact fun x hx _ hxy => ⟨hxy.1.symm, ih x hx (ha x hx) hxy.2⟩
  | resource c xs ih =>
    rw [SetsBuilt, setsBuiltEntries_iff] at ha
    obtain ⟨ys, rfl, hxy⟩ := resource_beq_iff.1 hab
    refine resource_beq_iff.2 ⟨xs, rfl, forall₂_flip_of_mem (fun x hx _ hxy => ?_) hxy⟩
    have hmem : x ∈ xs := List.mem_of_mem_filter hx
    exact ⟨hxy.1.symm, ih x hmem (ha x hmem) hxy.2⟩
  | _ =>
    obtain rfl := (atom_beq_iff rfl).1 hab
    exact hab

theorem nanFree_of_beq {a b : Value} (hab : beq a b = true) : a.nanFree = true := by
  induction a using Value.induction generalizing b with
  | double x =>
    obtain ⟨y, rfl, hxy⟩ := double_beq_iff.1 hab
    simp only [Binary64.numEq, Bool.and_eq_true] at hxy
    exact hxy.1.1
  | list xs ih =>
    obtain ⟨ys, rfl, hxy⟩ := list_beq_iff.1 hab
    refine nanFreeItems_iff.2 fun x hx => ?_
    obtain ⟨y, -, hxy⟩ := exists_mem_right hxy hx
    exact ih x hx hxy
  | array xs ih =>
    obtain ⟨ys, rfl, hxy⟩ := array_beq_iff.1 hab
    refine nanFreeItems_iff.2 fun x hx => ?_
    obtain ⟨y, -, hxy⟩ := exists_mem_right hxy hx
    exact ih x hx hxy
  | set xs ih =>
    obtain ⟨ys, rfl, -, hxy⟩ := set_beq_iff.1 hab
    refine nanFreeItems_iff.2 fun x hx => ?_
    obtain ⟨y, -, hxy⟩ := hxy x hx
    exact ih x hx hxy
  | map xs ih =>
    obtain ⟨ys, rfl, hxy⟩ := map_beq_iff.1 hab
    refine nanFreeEntries_iff.2 fun x hx => ?_
    obtain ⟨y, -, hxy⟩ := exists_mem_right hxy hx
    exact ih x hx hxy.2
  | resource c xs ih =>
    obtain ⟨ys, rfl, hxy⟩ := resource_beq_iff.1 hab
    refine nanFreeEntries_iff.2 fun x hx => ?_
    cases hnull : x.2.isNull with
    | true =>
      obtain ⟨k, v⟩ := x
      cases v <;> cases hnull
      rfl
    | false =>
      have hpresent : x ∈ presentFields xs := List.mem_filter.2 ⟨hx, by simp [hnull]⟩
      obtain ⟨y, -, hxy⟩ := exists_mem_right hxy hpresent
      exact ih x hx hxy.2
  | _ => rfl

/-- A set that was built by insertion has what is looked for on either side of the comparison. -/
theorem allIn_eq_all_setContains {xs ys : List Value} (hxs : SetsBuiltItems xs)
    (hys : SetsBuiltItems ys) : allIn xs ys = xs.all (setContains ys) := by
  rw [setsBuiltItems_iff] at hxs hys
  rw [Bool.eq_iff_iff, allIn_iff, List.all_eq_true]
  refine forall₂_congr fun x hx => ?_
  rw [setContains, List.any_eq_true]
  refine exists_congr fun y => and_congr_right fun hy => ?_
  exact ⟨beq_symm (hxs x hx), beq_symm (hys y hy)⟩

@[simp] theorem presentFields_presentFields (fields : List (String × Value)) :
    presentFields (presentFields fields) = presentFields fields := by
  simp [presentFields]

/-- Equality is symmetric on values whose sets were built by insertion, it is transitive, and a
value equals itself exactly if it holds nothing that is not a number. Two sets are equal if they
have the same size and the right one contains every item of the left one, and null fields have no
part in the comparison of instances. -/
theorem beq_partial_equivalence :
    (∀ a b : Value, a.SetsBuilt → b.SetsBuilt → (a == b) = (b == a)) ∧
    (∀ a b c : Value, (a == b) = true → (b == c) = true → (a == c) = true) ∧
    (∀ v : Value, (v == v) = v.nanFree) ∧
    (∀ xs ys : List Value, SetsBuilt (.set xs) → SetsBuilt (.set ys) →
      (Value.set xs == .set ys) = (xs.length == ys.length && xs.all (setContains ys))) ∧
    ∀ (c d : String) (xs ys : List (String × Value)), (Value.resource c xs == .resource d ys) =
      (Value.resource c (presentFields xs) == .resource d (presentFields ys)) := by
  refine ⟨fun a b ha hb => Bool.eq_iff_iff.2 ⟨beq_symm ha, beq_symm hb⟩, fun a b c => beq_trans,
    fun v => Bool.eq_iff_iff.2 ⟨nanFree_of_beq, beq_self⟩, fun xs ys hxs hys => ?_,
    fun c d xs ys => ?_⟩
  · change (xs.length == ys.length && allIn xs ys) = _
    rw [allIn_eq_all_setContains hxs.2 hys.2]
  · refine Bool.eq_iff_iff.2 (beq_resource_iff.trans (Iff.trans ?_ beq_resource_iff.symm))
    rw [presentFields_presentFields, presentFields_presentFields]

/-! One set in two orders, with a field that is null on the one side and absent on the other, and
with the two zeros. -/

namespace Labels

def left : Value :=
  .set [.resource "org.acme.Label" [("note", .null), ("text", .string "red")], .double .zero]

def right : Value := .set [.double .negZero, .resource "org.acme.Label" [("text", .string "red")]]

theorem setsBuilt_left : left.SetsBuilt :=
  ⟨⟨_, (setOfList_of_distinct (by decide)).symm⟩, ⟨trivial, trivial, trivial⟩, trivial, trivial⟩

theorem setsBuilt_right : right.SetsBuilt :=
  ⟨⟨_, (setOfList_of_distinct (by decide)).symm⟩, trivial, ⟨trivial, trivial⟩, trivial⟩

end Labels

theorem beq_partial_equivalence_of_labels : Labels.left.SetsBuilt ∧ Labels.right.SetsBuilt ∧
    (Labels.left == Labels.right) = true ∧ (Labels.right == Labels.left) = true ∧
    (Labels.left == Labels.left) = true ∧ (Value.double .nan == Value.double .nan) = false ∧
    setContains [.double .negZero, .resource "org.acme.Label" [("text", .string "red")]]
      (.double .zero) = true ∧
    (Value.resource "org.acme.Label" [("note", .null), ("text", .string "red")] ==
      .resource "org.acme.Label" [("text", .string "red")]) = true := by
  have heq : (Labels.left == Labels.right) = true := by decide
  obtain ⟨hsymm, htrans, hrefl, hset, hresource⟩ := beq_partial_equivalence
  have hsymm := (hsymm _ _ Labels.setsBuilt_left Labels.setsBuilt_right).symm.trans heq
  have hitems := (hset _ _ Labels.setsBuilt_left Labels.setsBuilt_right).symm.trans heq
  rw [Bool.and_eq_true, List.all_eq_true] at hitems
  refine ⟨Labels.setsBuilt_left, Labels.setsBuilt_right, heq, hsymm, htrans _ _ _ heq hsymm,
    hrefl _, hitems.2 _ (List.mem_cons_of_mem _ List.mem_cons_self), (hresource _ _ _ _).trans ?_⟩
  exact hrefl (.resource "org.acme.Label" [("text", .string "red")])

end Value

end LedgerSchema
