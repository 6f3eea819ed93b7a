import LedgerSchema.Archive.Basic
import LedgerSchema.Schema.Error

/-!
Writing an archive entry by entry. The files are in a container that is not described further; the
writer keeps the names of what it has written in a list of its own.
-/

set_option autoImplicit false

namespace LedgerSchema

inductive GenerationError where
  | schema (e : SchemaError)
  | archive (e : ArchiveError)
  | noSuchDirectory (path : String)
  deriving DecidableEq

def schemaErrorMessage (e : SchemaError) : String := s!"Schema error: {e.message}"

/-- What stores the files of an archive. A file is started under its name, which can fail, and its
text follows. The files are what is read from the archive when it is finished. -/
structure Container (σ : Type) where
  start : σ → String → σ × Except ArchiveError Unit
  write : σ → String → σ
  files : σ → List (String × String)

/-- A container that is the list of its files. -/
def listedFiles : Container (List (String × String)) where
  start files name :=
    if name ∈ files.map (·.1) then (files, .error (.duplicateName name))
    else if Archive.maxNameBytes < name.utf8ByteSize then
      (files, .error (.nameTooLong name.utf8ByteSize))
    else (files ++ [(name, "")], .ok ())
  write files text := files.dropLast ++ files.getLast?.toList.map fun f => (f.1, f.2 ++ text)
  files := id

/-- Something to be written under a file name, if it has a text. -/
structure ArchivePart where
  fileName : String
  text : Except GenerationError String

inductive ArchiveCall where
  | entry (name text : String)
  | part (p : ArchivePart)

namespace ArchiveCall

def name : ArchiveCall → String
  | .entry name _ => name
  | .part p => p.fileName

def text : ArchiveCall → Except GenerationError String
  | .entry _ text => .ok text
  | .part p => p.text

end ArchiveCall

structure ArchiveWriter (σ : Type) where
  store : σ
  entries : List String

namespace ArchiveWriter

variable {σ : Type} (c : Container σ)

def new (store : σ) : ArchiveWriter σ := ⟨store, []⟩

/-- The name is noted when the text is written. -/
def addEntry (w : ArchiveWriter σ) (name text : String) :
    ArchiveWriter σ × Except GenerationError Unit :=
  match c.start w.store name with
  | (store, .error e) => ({ w with store }, .error (.archive e))
  | (store, .ok ()) => (⟨c.write store text, w.entries ++ [name]⟩, .ok ())

/-- A part without a text does not reach the container. -/
def addPart (w : ArchiveWriter σ) (p : ArchivePart) :
    ArchiveWriter σ × Except GenerationError Unit :=
  match p.text with
  | .error e => (w, .error e)
  | .ok text => w.addEntry c p.fileName text

/-- Adds one part after the other, up to the first that cannot be added. -/
def addParts (w : ArchiveWriter σ) :
    List ArchivePart → ArchiveWriter σ × Except GenerationError Unit
  | [] => (w, .ok ())
  | p :: parts =>
    match w.addPart c p with
    | (w, .ok ()) => w.addParts parts
    | (w, .error e) => (w, .error e)

def call (w : ArchiveWriter σ) : ArchiveCall → ArchiveWriter σ × Except GenerationError Unit
  | .entry name text => w.addEntry c name text
  | .part p => w.addPart c p

def after (w : ArchiveWriter σ) (calls : List ArchiveCall) : ArchiveWriter σ :=
  calls.foldl (fun w x => (w.call c x).1) w

def accepted (w : ArchiveWriter σ) : List ArchiveCall → List ArchiveCall
  | [] => []
  | x :: calls =>
    match w.call c x with
    | (w, .ok ()) => x :: w.accepted calls
    | (w, .error _) => w.accepted calls

end ArchiveWriter

end LedgerSchema
