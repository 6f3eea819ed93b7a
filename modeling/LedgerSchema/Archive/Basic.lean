/-!
Archives: named texts in the order in which they were added. A name is used once.
-/

set_option autoImplicit false

namespace LedgerSchema

inductive ArchiveError where
  | duplicateName (name : String)
  | nameTooLong (bytes : Nat)
  deriving DecidableEq

structure Archive where
  entries : List (String × String)
  deriving DecidableEq

namespace Archive

def empty : Archive := ⟨[]⟩

def names (a : Archive) : List String := a.entries.map (·.1)

def maxNameBytes : Nat := 65535

/-- Adds an entry at the end. A refused entry leaves the archive as it was. -/
def add (a : Archive) (name text : String) : Except ArchiveError Archive :=
  if a.names.contains name then .error (.duplicateName name)
  else if maxNameBytes < name.utf8ByteSize then .error (.nameTooLong name.utf8ByteSize)
  else .ok ⟨a.entries ++ [(name, text)]⟩

def text? (a : Archive) (name : String) : Option String := a.entries.lookup name

theorem names_add {a b : Archive} {name text : String} (h : a.add name text = .ok b) :
    b.names = a.names ++ [name] := by
  unfold add at h
  split at h
  · cases h
  · split at h
    · cases h
    · cases h
      simp [names]

theorem nodup_names_add {a b : Archive} {name text : String} (ha : a.names.Nodup)
    (h : a.add name text = .ok b) : b.names.Nodup := by
  rw [names_add h]
  unfold add at h
  split at h
  · cases h
  · rename_i hn
    simp only [List.contains_iff_mem] at hn
    rw [List.nodup_append]
    exact ⟨ha, by simp, fun x hx y hy => by grind⟩

end Archive

end LedgerSchema
