import Mathlib.Data.List.Basic

/-!
# Values of the package service

The plain values that `app/domain/software_package.py`, `app/exceptions` and the
service pass around: byte strings, the exception kinds the service raises (with
their messages), the upload-session status, and the two validating drafts.

Python's string helpers are written over `List Char` so that every definition
reduces in the kernel: `str.strip()` removes exactly the characters for which
`str.isspace()` holds, and `PurePosixPath.suffix` is the last component's text
from its last dot. `str.lower()` is modelled on the characters whose lower case
is ASCII: the letters `A` to `Z`, and the Kelvin sign U+212A, which lowers to
`k`. Every other character keeps a non-ASCII character in its lower case (U+0130
lowers to `i` and a combining dot), so the model keeps it as it is: the
allow-lists the lowered text is checked against are ASCII, and they accept, and
the service stores, the same strings as in Python.
-/

namespace TechPulse

/-- Raw bytes: a payload, a chunk, or the contents of a stored object. -/
abbrev Bytes := List UInt8

/-! ### Python string helpers -/

/-- `str.isspace` on one character: the code points `str.strip()` removes. -/
def pyIsSpace (c : Char) : Bool :=
  let n := c.toNat
  (9 ≤ n && n ≤ 13) || (28 ≤ n && n ≤ 32) || n == 133 || n == 160 || n == 5760 ||
    (8192 ≤ n && n ≤ 8202) || n == 8232 || n == 8233 || n == 8239 || n == 8287 ||
    n == 12288

def pyStrip (s : String) : String :=
  ⟨((s.data.dropWhile pyIsSpace).reverse.dropWhile pyIsSpace).reverse⟩

/-- `not s.strip()`: the string is empty once surrounding whitespace is removed. -/
def isBlank (s : String) : Bool := (pyStrip s).data.isEmpty

/-- `c.lower()` where it is ASCII: `A` to `Z`, and the Kelvin sign to `k`. -/
def pyLowerChar (c : Char) : Char := if c.toNat = 0x212A then 'k' else c.toLower

def pyLower (s : String) : String := ⟨s.data.map pyLowerChar⟩

/-- `PurePosixPath(s).name`: the last component, once empty and `.` components
    are dropped. -/
def pathName (s : String) : List Char :=
  (((s.data.splitOn '/').filter fun part => part ≠ [] ∧ part ≠ ['.']).getLast?).getD []

/-- `PurePosixPath(s).suffix`: from the last dot of the name, when that dot is
    neither the name's first nor its last character. -/
def pathSuffix (s : String) : String :=
  let name := pathName s
  match name.reverse.indexOf? '.' with
  | some j => if 0 < j ∧ j + 1 < name.length then ⟨name.drop (name.length - 1 - j)⟩ else ""
  | none => ""

/-! ### Exceptions -/

/-- The exceptions a service call can end with. The first four are the service's
    own (`app/exceptions/exceptions.py`) with their message. The next three come
    from SQLAlchemy: `IntegrityError` on the named unique constraint,
    `MultipleResultsFound` from `scalar_one_or_none()`, and `ObjectDeletedError`
    when an expired row is refreshed after another transaction removed it. The
    rest come from the filesystem and the environment: `io` stands for any fault
    the environment injects, a failed storage or database call, a broken client
    stream, a scanner outage. -/
inductive Err where
  | validation (message : String)
  | conflict (message : String)
  | notFound (message : String)
  | permission (message : String)
  | integrity (constraint : String)
  | multipleResultsFound
  | objectDeleted
  | fileNotFound (path : String)
  | valueError (message : String)
  | io
deriving DecidableEq, Repr

def Err.isIntegrity : Err → Bool
  | .integrity _ => true
  | _ => false

/-! ### Blocks that return -/

/-- A block that returns ran each statement before its last to a value. -/
theorem Except.bind_eq_ok {ε α β : Type} {x : Except ε α} {f : α → Except ε β} {b : β}
    (h : x >>= f = .ok b) : ∃ a, x = .ok a ∧ f a = .ok b := by
  cases x with
  | error e => cases h
  | ok a => exact ⟨a, rfl, h⟩

/-- A guard `if c then throw e` that lets its block return did not fire. -/
theorem Except.ite_throw_eq_ok {ε β : Type} {c : Prop} [Decidable c] {e : ε} {g : PUnit → Except ε β}
    {b : β} (h : (if c then throw e >>= g else pure PUnit.unit >>= g) = .ok b) : ¬c ∧ g PUnit.unit = .ok b := by
  split at h
  · cases h
  · exact ⟨‹_›, h⟩

/-! ### Upload-session status -/

/-- The five values the service stores in `UploadSession.status`. -/
inductive UploadStatus where
  | pending | uploading | finalizing | completed | failed
deriving DecidableEq, Repr

/-- The status text stored in the column and shown in conflict messages. -/
def UploadStatus.text : UploadStatus → String
  | .pending => "PENDING"
  | .uploading => "UPLOADING"
  | .finalizing => "FINALIZING"
  | .completed => "COMPLETED"
  | .failed => "FAILED"

/-! ### Drafts -/

/-- `SoftwarePackageDraft`: the package metadata of an upload request, after the
    service has stripped it. -/
structure SoftwarePackageDraft where
  ownerId : Int
  name : String
  description : String
  category : String
  language : String
  version : String
  fileName : String
  contentType : Option String
  isPublic : Bool
deriving DecidableEq, Repr

def SoftwarePackageDraft.validate (d : SoftwarePackageDraft) : Except Err Unit := do
  if d.ownerId ≤ 0 then throw (.validation "Invalid package owner")
  if isBlank d.name then throw (.validation "Package name is required")
  if isBlank d.description then throw (.validation "Package description is required")
  if isBlank d.category then throw (.validation "Package category is required")
  if isBlank d.language then throw (.validation "Project language is required")
  if isBlank d.version then throw (.validation "Package version is required")
  if isBlank d.fileName then throw (.validation "Uploaded file name is required")

/-- `FileVersionDraft`: what finalization checks before it touches storage. -/
structure FileVersionDraft where
  version : String
  checksumSha256 : String
  sizeBytes : Nat
deriving DecidableEq, Repr

def FileVersionDraft.validate (d : FileVersionDraft) : Except Err Unit := do
  if isBlank d.version then throw (.validation "Package version is required")
  if d.checksumSha256.length ≠ 64 then throw (.validation "SHA-256 checksum is required")
  if d.sizeBytes = 0 then throw (.validation "Package file is empty")

/-! ### Allow-lists and storage keys -/

def ALLOWED_CATEGORIES : List String :=
  ["networking software", "cracked software", "student projects", "desktop applications",
    "mobile application"]

def ALLOWED_EXTENSIONS : List String :=
  [".zip", ".tar", ".gz", ".rar", ".7z", ".exe", ".msi", ".deb", ".rpm", ".whl"]

/-- `_validate_file_name`. -/
def validateFileName (fileName : String) : Except Err Unit :=
  if pyLower (pathSuffix fileName) ∈ ALLOWED_EXTENSIONS then pure ()
  else throw (.validation "Unsupported package file format")

/-- `_build_storage_key`: `blobs/<first two hex digits>/<checksum>`. -/
def buildStorageKey (checksumSha256 : String) : String :=
  "blobs/" ++ ⟨checksumSha256.data.take 2⟩ ++ "/" ++ checksumSha256

example : pathSuffix "pkg/tool.tar.GZ" = ".GZ" := by decide
example : pathSuffix ".zip" = "" := by decide

end TechPulse
