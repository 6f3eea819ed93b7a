import Mathlib

/-!
Computations that can fail: a sequence succeeds exactly when each of its steps does.
-/

set_option autoImplicit false

namespace LedgerSchema

universe u
variable {ε α β : Type u}

theorem bind_eq_ok_iff {x : Except ε α} {f : α → Except ε β} {b : β} :
    x >>= f = .ok b ↔ ∃ a, x = .ok a ∧ f a = .ok b := by
  cases x with
  | error e => simp [bind, Except.bind]
  | ok a => simp [bind, Except.bind]

theorem bind_eq_error_iff {x : Except ε α} {f : α → Except ε β} {e : ε} :
    x >>= f = .error e ↔ x = .error e ∨ ∃ a, x = .ok a ∧ f a = .error e := by
  cases x with
  | error e => simp [bind, Except.bind]
  | ok a => simp [bind, Except.bind]

theorem map_eq_ok_iff {x : Except ε α} {f : α → β} {b : β} :
    x.map f = .ok b ↔ ∃ a, x = .ok a ∧ f a = b := by
  cases x <;> simp [Except.map]

theorem mapM_eq_ok_iff {f : α → Except ε β} {l : List α} {bs : List β} :
    l.mapM f = .ok bs ↔ List.Forall₂ (fun a b => f a = .ok b) l bs := by
  induction l generalizing bs with
  | nil =>
    rw [List.mapM_nil, List.forall₂_nil_left_iff]
    exact ⟨fun h => (Except.ok.inj h).symm, fun h => h ▸ rfl⟩
  | cons a l ih =>
    rw [List.mapM_cons, bind_eq_ok_iff]
    constructor
    · rintro ⟨b, hb, h⟩
      obtain ⟨rest, hrest, hbs⟩ := bind_eq_ok_iff.1 h
      obtain rfl := Except.ok.inj hbs
      exact .cons hb (ih.1 hrest)
    · rintro (_ | ⟨hb, hrest⟩)
      exact ⟨_, hb, bind_eq_ok_iff.2 ⟨_, ih.2 hrest, rfl⟩⟩

theorem mapM_append_cons_eq_ok_iff {f : α → Except ε β} {before after : List α} {a : α}
    {bs : List β} : (before ++ a :: after).mapM f = .ok bs ↔ ∃ front b back,
      before.mapM f = .ok front ∧ f a = .ok b ∧ after.mapM f = .ok back ∧
        bs = front ++ b :: back := by
  rw [List.mapM_append, bind_eq_ok_iff]
  constructor
  · rintro ⟨front, hfront, h⟩
    obtain ⟨rest, hrest, hbs⟩ := bind_eq_ok_iff.1 h
    rw [List.mapM_cons] at hrest
    obtain ⟨b, hb, h⟩ := bind_eq_ok_iff.1 hrest
    obtain ⟨back, hback, hrest⟩ := bind_eq_ok_iff.1 h
    cases hrest
    exact ⟨front, b, back, hfront, hb, hback, (Except.ok.inj hbs).symm⟩
  · rintro ⟨front, b, back, hfront, hb, hback, rfl⟩
    refine ⟨front, hfront, bind_eq_ok_iff.2 ⟨b :: back, ?_, rfl⟩⟩
    rw [List.mapM_cons, hb, hback]
    rfl

/-- Where all other steps succeed, a run goes as one step does, its error included. -/
theorem mapM_append_cons {f : α → Except ε β} {before after : List α} {front back : List β}
    (hbefore : before.mapM f = .ok front) (hafter : after.mapM f = .ok back) (a : α) :
    (before ++ a :: after).mapM f = (f a).map fun b => front ++ b :: back := by
  rw [List.mapM_append, List.mapM_cons, hbefore, hafter]
  cases f a <;> rfl

/-- A run depends on what its steps give only, on their errors as well. -/
theorem mapM_congr {f g : α → Except ε β} {l : List α} (h : ∀ a ∈ l, f a = g a) :
    l.mapM f = l.mapM g := by
  induction l with
  | nil => rfl
  | cons a l ih =>
    rw [List.forall_mem_cons] at h
    rw [List.mapM_cons, List.mapM_cons, h.1, ih h.2]

theorem forM_eq_ok_iff {ε α : Type} {f : α → Except ε Unit} {l : List α} :
    l.forM f = .ok () ↔ ∀ a ∈ l, f a = .ok () := by
  induction l with
  | nil => simp [pure, Except.pure]
  | cons a rest ih =>
    change (f a >>= fun _ => rest.forM f) = .ok () ↔ _
    rw [bind_eq_ok_iff, List.forall_mem_cons, ← ih]
    exact ⟨fun ⟨⟨⟩, ha, hrest⟩ => ⟨ha, hrest⟩, fun ⟨ha, hrest⟩ => ⟨⟨⟩, ha, hrest⟩⟩

theorem exists_forall₂_iff {R : α → β → Prop} {l : List α} :
    (∃ bs, List.Forall₂ R l bs) ↔ ∀ a ∈ l, ∃ b, R a b := by
  induction l with
  | nil => simp
  | cons a l ih =>
    rw [List.forall_mem_cons, ← ih]
    constructor
    · rintro ⟨bs, h⟩
      obtain ⟨b, bs, hb, hbs, rfl⟩ := List.forall₂_cons_left_iff.1 h
      exact ⟨⟨b, hb⟩, bs, hbs⟩
    · rintro ⟨⟨b, hb⟩, bs, hbs⟩
      exact ⟨b :: bs, .cons hb hbs⟩

theorem map_eq_of_forall₂ {α β γ : Type*} {R : α → β → Prop} {f : α → γ} {g : β → γ}
    (hR : ∀ a b, R a b → g b = f a) {l : List α} {bs : List β} (h : List.Forall₂ R l bs) :
    bs.map g = l.map f := by
  induction h with
  | nil => rfl
  | cons hab _ ih => rw [List.map_cons, List.map_cons, ih, hR _ _ hab]

theorem exists_mem_right {α β : Type*} {R : α → β → Prop} {l : List α} {bs : List β}
    (h : List.Forall₂ R l bs) {a : α} (ha : a ∈ l) : ∃ b ∈ bs, R a b := by
  induction h with
  | nil => cases ha
  | @cons a' b l bs hab _ ih =>
    rcases List.mem_cons.1 ha with rfl | ha
    · exact ⟨b, List.mem_cons_self, hab⟩
    · obtain ⟨b', hb', hab'⟩ := ih ha
      exact ⟨b', List.mem_cons_of_mem _ hb', hab'⟩

theorem exists_mem_left {α β : Type*} {R : α → β → Prop} {l : List α} {bs : List β}
    (h : List.Forall₂ R l bs) {b : β} (hb : b ∈ bs) : ∃ a ∈ l, R a b :=
  exists_mem_right h.flip hb

theorem foldlM_invariant {σ : Type u} {step : σ → α → Except ε σ} {I : List α → σ → Prop}
    {l : List α}
    (hstep : ∀ done a rest s s', l = done ++ a :: rest → I done s → step s a = .ok s' →
      I (done ++ [a]) s') {s s' : σ} (hstart : I [] s) (h : l.foldlM step s = .ok s') : I l s' := by
  have run (done rest : List α) (s : σ) (hl : l = done ++ rest) (hs : I done s)
      (h : rest.foldlM step s = .ok s') : I l s' := by
    induction rest generalizing done s with
    | nil =>
      obtain rfl := Except.ok.inj h
      rwa [hl, List.append_nil]
    | cons a rest ih =>
      rw [List.foldlM_cons] at h
      obtain ⟨t, ht, hrest⟩ := bind_eq_ok_iff.1 h
      refine ih (done ++ [a]) t (by rw [hl, List.append_assoc]; rfl) ?_ hrest
      exact hstep done a rest s t hl hs ht
  exact run [] l s rfl hstart h

/-- A run succeeds if no step depends on the state for that. -/
theorem exists_foldlM_eq_ok_iff {σ : Type u} {step : σ → α → Except ε σ} {P : α → Prop}
    (hstep : ∀ s a, (∃ s', step s a = .ok s') ↔ P a) {l : List α} {s : σ} :
    (∃ s', l.foldlM step s = .ok s') ↔ ∀ a ∈ l, P a := by
  induction l generalizing s with
  | nil => simp [pure, Except.pure]
  | cons a l ih =>
    rw [List.forall_mem_cons, List.foldlM_cons]
    constructor
    · rintro ⟨s', h⟩
      obtain ⟨t, ht, hrest⟩ := bind_eq_ok_iff.1 h
      exact ⟨(hstep s a).1 ⟨t, ht⟩, ih.1 ⟨s', hrest⟩⟩
    · rintro ⟨ha, hl⟩
      obtain ⟨t, ht⟩ := (hstep s a).2 ha
      obtain ⟨s', hrest⟩ := (ih (s := t)).2 hl
      exact ⟨s', bind_eq_ok_iff.2 ⟨t, ht, hrest⟩⟩

end LedgerSchema
