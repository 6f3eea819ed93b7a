import Mathlib
import LedgerSchema.Archive.Network
import LedgerSchema.Proofs.Outcome

/-!
Archives that are written call by call. Whatever stores the files, the writer keeps an archive: its
list has the names of the files, and a call that fails leaves both as they were. Such a run has the
result of the run of its accepted calls.
-/

set_option autoImplicit false

namespace LedgerSchema

/-! Archives. -/

namespace Archive

/-- A call as it changes the archive. -/
def call (a : Archive) (x : ArchiveCall) : Except GenerationError Archive := do
  let text ← x.text
  (a.add x.name text).mapError .archive

theorem add_eq_ok_iff {a b : Archive} {name text : String} : a.add name text = .ok b ↔
    name ∉ a.names ∧ name.utf8ByteSize ≤ maxNameBytes ∧ b = ⟨a.entries ++ [(name, text)]⟩ := by
  unfold add
  by_cases hused : name ∈ a.names
  · simp [hused]
  · by_cases hlong : maxNameBytes < name.utf8ByteSize
    · simp [hused, hlong]
    · simp [hused, hlong, Nat.le_of_not_lt hlong, eq_comm]

theorem call_eq_ok_iff {a b : Archive} {x : ArchiveCall} :
    a.call x = .ok b ↔ ∃ text, x.text = .ok text ∧ a.add x.name text = .ok b := by
  unfold call
  rw [bind_eq_ok_iff]
  refine exists_congr fun text => and_congr_right fun _ => ?_
  cases a.add x.name text with
  | error e => simp [Except.mapError]
  | ok b' => simp [Except.mapError]

theorem exists_call_iff {a : Archive} {x : ArchiveCall} :
    (a.call x).map (fun _ => ()) = .ok () ↔ (∃ text, x.text = .ok text) ∧ x.name ∉ a.names ∧
      x.name.utf8ByteSize ≤ maxNameBytes := by
  rw [map_eq_ok_iff]
  constructor
  · rintro ⟨b, hb, -⟩
    obtain ⟨text, htext, hadd⟩ := call_eq_ok_iff.1 hb
    obtain ⟨hname, hbytes, -⟩ := add_eq_ok_iff.1 hadd
    exact ⟨⟨text, htext⟩, hname, hbytes⟩
  · rintro ⟨⟨text, htext⟩, hname, hbytes⟩
    exact ⟨_, call_eq_ok_iff.2 ⟨text, htext, add_eq_ok_iff.2 ⟨hname, hbytes, rfl⟩⟩, rfl⟩

def attempt (a : Archive) (x : ArchiveCall) : Archive :=
  match a.call x with
  | .ok b => b
  | .error _ => a

theorem attempt_of_error {a : Archive} {x : ArchiveCall} {e : GenerationError}
    (h : (a.call x).map (fun _ => ()) = .error e) : a.attempt x = a := by
  unfold attempt
  cases hcall : a.call x with
  | error e' => rfl
  | ok b =>
    rw [hcall] at h
    cases h

def attempts (a : Archive) (calls : List ArchiveCall) : Archive := calls.foldl attempt a

def accepted (a : Archive) : List ArchiveCall → List ArchiveCall
  | [] => []
  | x :: calls =>
    match a.call x with
    | .ok b => x :: b.accepted calls
    | .error _ => a.accepted calls

structure IsEntryOf (x : ArchiveCall) (entry : String × String) : Prop where
  name_eq : entry.1 = x.name
  text_eq : x.text = .ok entry.2

/-- The archive has the entries of the accepted calls. -/
theorem exists_entries_attempts (a : Archive) (calls : List ArchiveCall) :
    ∃ entries, List.Forall₂ IsEntryOf (a.accepted calls) entries ∧
      (a.attempts calls).entries = a.entries ++ entries := by
  induction calls generalizing a with
  | nil => exact ⟨[], .nil, (List.append_nil _).symm⟩
  | cons x calls ih =>
    rw [attempts, List.foldl_cons, attempt, accepted]
    cases hcall : a.call x with
    | error e => exact ih a
    | ok b =>
      obtain ⟨entries, hentries, heq⟩ := ih b
      obtain ⟨text, htext, hadd⟩ := call_eq_ok_iff.1 hcall
      obtain ⟨-, -, rfl⟩ := add_eq_ok_iff.1 hadd
      refine ⟨(x.name, text) :: entries, .cons ⟨rfl, htext⟩ hentries, ?_⟩
      exact heq.trans (List.append_assoc _ _ _)

theorem nodup_names_attempt {a : Archive} (h : a.names.Nodup) (x : ArchiveCall) :
    (a.attempt x).names.Nodup := by
  unfold attempt
  cases hcall : a.call x with
  | error e => exact h
  | ok b =>
    obtain ⟨text, -, hadd⟩ := call_eq_ok_iff.1 hcall
    exact nodup_names_add h hadd

theorem nodup_names_attempts {a : Archive} (h : a.names.Nodup) (calls : List ArchiveCall) :
    (a.attempts calls).names.Nodup := by
  induction calls generalizing a with
  | nil => exact h
  | cons x calls ih => exact ih (nodup_names_attempt h x)

/-- The accepted calls alone are all accepted, and make the same archive. -/
theorem attempts_accepted (a : Archive) (calls : List ArchiveCall) :
    a.accepted (a.accepted calls) = a.accepted calls ∧
      a.attempts (a.accepted calls) = a.attempts calls := by
  induction calls generalizing a with
  | nil => exact ⟨rfl, rfl⟩
  | cons x calls ih =>
    rw [attempts, attempts, List.foldl_cons, attempt, accepted]
    cases hcall : a.call x with
    | error e => exact ih a
    | ok b =>
      rw [accepted, hcall, List.foldl_cons, attempt, hcall]
      exact ⟨congrArg _ (ih b).1, (ih b).2⟩

end Archive

/-! Writers. -/

/-- A container refuses a name that is used already, and a name that is too long, and is then as it
was. Any other file is added at the end. -/
structure Container.Lawful {σ : Type} (c : Container σ) : Prop where
  start_used : ∀ s name, name ∈ (c.files s).map (·.1) →
    (c.start s name).2 = .error (.duplicateName name)
  start_long : ∀ s name, name ∉ (c.files s).map (·.1) →
    Archive.maxNameBytes < name.utf8ByteSize →
    (c.start s name).2 = .error (.nameTooLong name.utf8ByteSize)
  start_new : ∀ s name, name ∉ (c.files s).map (·.1) →
    name.utf8ByteSize ≤ Archive.maxNameBytes → (c.start s name).2 = .ok ()
  files_refused : ∀ s name e, (c.start s name).2 = .error e →
    c.files (c.start s name).1 = c.files s
  files_write : ∀ s name text, (c.start s name).2 = .ok () →
    c.files (c.write (c.start s name).1 text) = c.files s ++ [(name, text)]

namespace ArchiveWriter

variable {σ : Type} {c : Container σ} {w : ArchiveWriter σ} {a : Archive}

/-- The files of the writer are those of the archive, and its list has their names. -/
structure Represents (c : Container σ) (w : ArchiveWriter σ) (a : Archive) : Prop where
  files : c.files w.store = a.entries
  entries : w.entries = a.names

theorem represents_new {s : σ} (h : c.files s = []) : Represents c (new s) .empty := ⟨h, rfl⟩

theorem call_eq (w : ArchiveWriter σ) (x : ArchiveCall) : w.call c x =
    match x.text with
    | .error e => (w, .error e)
    | .ok text => w.addEntry c x.name text := by
  cases x <;> rfl

theorem addEntry_of_refused {name : String} {e : ArchiveError}
    (h : (c.start w.store name).2 = .error e) (text : String) : w.addEntry c name text =
      ({ w with store := (c.start w.store name).1 }, .error (.archive e)) := by
  unfold addEntry
  cases hstart : c.start w.store name with
  | mk store result =>
    rw [hstart] at h
    obtain rfl := h
    rfl

theorem addEntry_of_started {name : String} (h : (c.start w.store name).2 = .ok ())
    (text : String) : w.addEntry c name text =
      (⟨c.write (c.start w.store name).1 text, w.entries ++ [name]⟩, .ok ()) := by
  unfold addEntry
  cases hstart : c.start w.store name with
  | mk store result =>
    rw [hstart] at h
    obtain rfl := h
    rfl

/-- The container takes an entry if the archive does, and both refuse it for the same reason. -/
theorem Represents.addEntry (hc : c.Lawful) (h : Represents c w a) (name text : String) :
    match a.add name text with
    | .ok b => (w.addEntry c name text).2 = .ok () ∧ Represents c (w.addEntry c name text).1 b
    | .error e => (w.addEntry c name text).2 = .error (.archive e) ∧
        Represents c (w.addEntry c name text).1 a := by
  have hnames : (c.files w.store).map (·.1) = a.names := by
    rw [h.files]
    rfl
  -- Both reasons for a refusal leave the files and the list alone.
  have hrefused (e : ArchiveError) (hstart : (c.start w.store name).2 = .error e) :
      (w.addEntry c name text).2 = .error (.archive e) ∧
        Represents c (w.addEntry c name text).1 a := by
    rw [addEntry_of_refused hstart]
    exact ⟨rfl, (hc.files_refused _ _ _ hstart).trans h.files, h.entries⟩
  unfold Archive.add
  by_cases hused : name ∈ a.names
  · simp only [List.contains_iff_mem, hused, if_true]
    exact hrefused _ (hc.start_used _ _ (hnames ▸ hused))
  · simp only [List.contains_iff_mem, hused, if_false]
    rw [← hnames] at hused
    by_cases hlong : Archive.maxNameBytes < name.utf8ByteSize
    · simp only [hlong, if_true]
      exact hrefused _ (hc.start_long _ _ hused hlong)
    · simp only [hlong, if_false]
      have hstart := hc.start_new _ _ hused (Nat.le_of_not_lt hlong)
      rw [addEntry_of_started hstart]
      refine ⟨rfl, ?_, ?_⟩
      · rw [hc.files_write _ _ _ hstart, h.files]
      · rw [h.entries]
        simp [Archive.names]

theorem Represents.call (hc : c.Lawful) (h : Represents c w a) (x : ArchiveCall) :
    (w.call c x).2 = (a.call x).map (fun _ => ()) ∧ Represents c (w.call c x).1 (a.attempt x) := by
  rw [call_eq, Archive.attempt, Archive.call]
  cases x.text with
  | error e => exact ⟨rfl, h⟩
  | ok text =>
    have hadd := h.addEntry hc x.name text
    change _ = ((a.add x.name text).mapError GenerationError.archive).map _ ∧ Represents c _
      (match (a.add x.name text).mapError GenerationError.archive with
        | .ok b => b
        | .error _ => a)
    cases hresult : a.add x.name text with
    | error e =>
      rw [hresult] at hadd
      exact hadd
    | ok b =>
      rw [hresult] at hadd
      exact hadd

theorem Represents.after (hc : c.Lawful) (h : Represents c w a) (calls : List ArchiveCall) :
    Represents c (w.after c calls) (a.attempts calls) ∧
      w.accepted c calls = a.accepted calls := by
  induction calls generalizing w a with
  | nil => exact ⟨h, rfl⟩
  | cons x calls ih =>
    obtain ⟨hresult, hnext⟩ := h.call hc x
    obtain ⟨hafter, haccepted⟩ := ih hnext
    refine ⟨hafter, ?_⟩
    rw [accepted, Archive.accepted]
    rw [Archive.attempt] at haccepted
    cases hwriter : w.call c x with
    | mk w' result =>
      rw [hwriter] at hresult haccepted
      obtain rfl := hresult
      cases hcall : a.call x with
      | error e =>
        rw [hcall] at haccepted
        exact haccepted
      | ok b =>
        rw [hcall] at haccepted
        exact congrArg _ haccepted

/-- Whatever stores the files, and whatever is called in whichever order: the names in the list of
the writer differ, they are the names of the files in the same order, and each file has the text of
the only call that was accepted for it. A call is accepted if it has a text and a short name that is
not in the list, whatever failed before it, and otherwise neither the list nor the files change. So
the accepted calls alone give the same list and the same files, those of the archive. -/
theorem archive_of_calls {σ : Type} {c : Container σ} (hc : c.Lawful) {s : σ}
    (hs : c.files s = []) (calls : List ArchiveCall) :
    let w := (new s).after c calls
    let accepted := (new s).accepted c calls
    w.entries.Nodup ∧ w.entries = accepted.map (·.name) ∧
    w.entries = (c.files w.store).map (·.1) ∧
    List.Forall₂ Archive.IsEntryOf accepted (c.files w.store) ∧
    (∀ x, (w.call c x).2 = .ok () ↔ (∃ text, x.text = .ok text) ∧ x.name ∉ w.entries ∧
      x.name.utf8ByteSize ≤ 65535) ∧
    (∀ x e, (w.call c x).2 = .error e → (w.call c x).1.entries = w.entries ∧
      c.files (w.call c x).1.store = c.files w.store) ∧
    ((new s).after c accepted).entries = w.entries ∧
    c.files ((new s).after c accepted).store = c.files w.store ∧
    c.files w.store = (Archive.empty.attempts calls).entries := by
  intro w accepted
  have hnew : Represents c (new s) .empty := represents_new hs
  obtain ⟨hw, haccepted⟩ : Represents c w (Archive.empty.attempts calls) ∧
      accepted = Archive.empty.accepted calls := hnew.after hc calls
  -- What was refused is not missed: the accepted calls alone run to the same archive.
  have hsame : Represents c ((new s).after c accepted) (Archive.empty.attempts calls) := by
    rw [← (Archive.attempts_accepted .empty calls).2, ← haccepted]
    exact (hnew.after hc accepted).1
  obtain ⟨entries, hentries, heq⟩ := Archive.exists_entries_attempts .empty calls
  have hfiles : c.files w.store = entries := hw.files.trans heq
  have hnames : w.entries = (c.files w.store).map (·.1) := by
    rw [hw.entries, hw.files]
    rfl
  rw [← haccepted, ← hfiles] at hentries
  refine ⟨?_, ?_, hnames, hentries, ?_, ?_, ?_, ?_, hw.files⟩
  · rw [hw.entries]
    exact Archive.nodup_names_attempts (a := .empty) List.nodup_nil calls
  · rw [hnames]
    exact map_eq_of_forall₂ (fun _ _ hentry => hentry.name_eq) hentries
  · intro x
    rw [(hw.call hc x).1, hw.entries]
    exact Archive.exists_call_iff
  · intro x e he
    obtain ⟨hresult, hnext⟩ := hw.call hc x
    rw [he] at hresult
    rw [Archive.attempt_of_error hresult.symm] at hnext
    exact ⟨hnext.entries.trans hw.entries.symm, hnext.files.trans hw.files.symm⟩
  · rw [hsame.entries, hw.entries]
  · rw [hsame.files, hw.files]

theorem lawful_listedFiles : listedFiles.Lawful where
  start_used files name h := by
    have hused : name ∈ files.map (·.1) := h
    simp only [listedFiles, hused, if_true]
  start_long files name h hlong := by
    have hnew : name ∉ files.map (·.1) := h
    simp only [listedFiles, hnew, hlong, if_true, if_false]
  start_new files name h hshort := by
    have hnew : name ∉ files.map (·.1) := h
    simp only [listedFiles, hnew, Nat.not_lt.2 hshort, if_false]
  files_refused files name e h := by
    simp only [listedFiles] at h ⊢
    split
    · rfl
    · split
      · rfl
      · simp_all
  files_write files name text h := by
    simp only [listedFiles] at h ⊢
    split
    · simp_all
    · split
      · simp_all
      · simp

/-- A name that is used again, a part that has no text, and a call after both. -/
theorem archive_of_calls_of_refused :
    let car : Model := { ns := "org.acme", name := "Car", kind := .asset }
    let keyless : Part := { ns := "org.acme", entities := [.model car] }
    let calls : List ArchiveCall := [.entry "queries.qry" "alpha",
      .part (NetworkPart.schema keyless).toArchivePart,
      .part (NetworkPart.queries []).toArchivePart, .entry "" "beta"]
    let w := (new ([] : List (String × String))).after listedFiles calls
    w.entries = ["queries.qry", ""] ∧
      listedFiles.files w.store = [("queries.qry", "alpha"), ("", "beta")] := by
  intro car keyless calls w
  obtain ⟨-, hentries, -, hfiles, -⟩ := archive_of_calls lawful_listedFiles (s := []) rfl calls
  have haccepted : (new []).accepted listedFiles calls =
      [.entry "queries.qry" "alpha", .entry "" "beta"] := by
    rfl
  rw [haccepted] at hentries hfiles
  refine ⟨hentries, ?_⟩
  obtain ⟨first, _, hfirst, hrest, hw⟩ := List.forall₂_cons_left_iff.1 hfiles
  obtain ⟨second, _, hsecond, hnil, rfl⟩ := List.forall₂_cons_left_iff.1 hrest
  obtain rfl := List.forall₂_nil_left_iff.1 hnil
  have hfirst_eq : first = ("queries.qry", "alpha") :=
    Prod.ext hfirst.name_eq (Except.ok.inj hfirst.text_eq).symm
  have hsecond_eq : second = ("", "beta") :=
    Prod.ext hsecond.name_eq (Except.ok.inj hsecond.text_eq).symm
  rw [hw, hfirst_eq, hsecond_eq]

end ArchiveWriter

end LedgerSchema
