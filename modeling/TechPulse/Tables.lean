import Mathlib.Algebra.Order.Ring.Nat
import TechPulse.Domain

/-!
# The four tables and `SoftwarePackageRepo`

`app/models/{file_blob,file_version,software_package,upload_session}.py` and
`app/repositories/software_package.py`. A table is the list of its rows in
insertion order. The database is the repository's default SQLite: it enforces
the primary keys and unique constraints, on the `INSERT` each `flush()` sends,
but not the declared foreign keys; a new `INTEGER PRIMARY KEY` is one more than
the largest in the table. Timestamps are left out, as no modelled function
reads them.

A repository method sees the transaction's working copy: the rows as the
transaction has changed them so far. An attribute change on a loaded row is a
`save…` of the changed row.
-/

namespace TechPulse

/-- A `file_blobs` row: one stored payload. -/
structure FileBlob where
  id : Nat
  checksumSha256 : String
  sizeBytes : Nat
  storageKey : String
  referenceCount : Nat
deriving DecidableEq, Repr

/-- A `file_versions` row. -/
structure FileVersion where
  id : Nat
  packageId : Nat
  blobId : Nat
  fileName : String
  contentType : Option String
  version : String
  sizeBytes : Nat
  checksumSha256 : String
  downloadCount : Nat
deriving DecidableEq, Repr

/-- A `software_packages` row. -/
structure SoftwarePackage where
  id : Nat
  ownerId : Int
  name : String
  description : String
  category : String
  language : String
  isPublic : Bool
  latestVersion : Option String
deriving DecidableEq, Repr

/-- An `upload_sessions` row. -/
structure UploadSession where
  id : String
  userId : Int
  packageName : String
  packageDescription : String
  packageCategory : String
  packageLanguage : String
  packageVersion : String
  isPublic : Bool
  fileName : String
  contentType : Option String
  bytesReceived : Nat
  maxSizeBytes : Nat
  status : UploadStatus
  errorMessage : Option String
  completedFileVersionId : Option Nat
deriving DecidableEq, Repr

/-- The database: the four tables of the package service. -/
structure Db where
  packages : List SoftwarePackage
  blobs : List FileBlob
  versions : List FileVersion
  sessions : List UploadSession
deriving DecidableEq, Repr

/-- `scalar_one_or_none()`: the only row, no row, or `MultipleResultsFound`. -/
def scalarOneOrNone {α : Type} : List α → Except Err (Option α)
  | [] => pure none
  | [r] => pure (some r)
  | _ :: _ :: _ => throw .multipleResultsFound

theorem scalarOneOrNone_some {α : Type} {l : List α} {r : α}
    (h : scalarOneOrNone l = .ok (some r)) : l = [r] := by
  match l, h with
  | [_], h => cases h; rfl

theorem scalarOneOrNone_none {α : Type} {l : List α} (h : scalarOneOrNone l = .ok none) :
    l = [] := by
  match l, h with
  | [], _ => rfl
  | [_], h => cases h
  | _ :: _ :: _, h => cases h

theorem scalarOneOrNone_of_length {α : Type} {l : List α} (h : l.length ≤ 1) :
    scalarOneOrNone l = .ok l.head? := by
  match l, h with
  | [], _ => rfl
  | [_], _ => rfl
  | _ :: _ :: _, h => simp at h

/-- The rowid SQLite gives a new row: one more than the largest in the table. -/
def nextRowId (ids : List Nat) : Nat := ids.foldr max 0 + 1

theorem le_foldr_max {ids : List Nat} {i : Nat} (h : i ∈ ids) : i ≤ ids.foldr max 0 := by
  induction ids with
  | nil => cases h
  | cons j ids ih =>
    rcases List.mem_cons.mp h with rfl | h
    · exact le_max_left _ _
    · exact le_trans (ih h) (le_max_right _ _)

theorem nextRowId_not_mem (ids : List Nat) : nextRowId ids ∉ ids := fun h => by
  have := le_foldr_max h
  simp only [nextRowId] at this
  omega

namespace Db

/-- The database with no rows. -/
def empty : Db := ⟨[], [], [], []⟩

/-! ### Packages -/

/-- `get_package_by_id`: `Session.get` by primary key. -/
def getPackageById (db : Db) (packageId : Nat) : Option SoftwarePackage :=
  db.packages.find? (·.id = packageId)

def getPackageByOwnerAndName (db : Db) (ownerId : Int) (name : String) :
    Except Err (Option SoftwarePackage) :=
  scalarOneOrNone (db.packages.filter fun p => p.ownerId = ownerId ∧ p.name = name)

/-- Write back a changed package row. -/
def savePackage (db : Db) (p : SoftwarePackage) : Db :=
  { db with packages := db.packages.map fun q => if q.id = p.id then p else q }

/-- `upsert_package`: update the owner's package of that name, or insert it. -/
def upsertPackage (db : Db) (ownerId : Int) (name description category language : String)
    (isPublic : Bool) (latestVersion : String) : Except Err (SoftwarePackage × Db) := do
  match ← db.getPackageByOwnerAndName ownerId name with
  | some p =>
    let p := { p with description := description, category := category, language := language,
                      isPublic := isPublic, latestVersion := some latestVersion }
    return (p, db.savePackage p)
  | none =>
    if db.packages.any fun q => q.ownerId = ownerId ∧ q.name = name then
      throw (.integrity "uq_software_packages_owner_name")
    let p : SoftwarePackage := ⟨nextRowId (db.packages.map (·.id)), ownerId, name, description,
      category, language, isPublic, some latestVersion⟩
    return (p, { db with packages := db.packages ++ [p] })

def deletePackage (db : Db) (p : SoftwarePackage) : Db :=
  { db with packages := db.packages.filter (·.id ≠ p.id) }

/-! ### Blobs -/

def getBlobByChecksumAndSize (db : Db) (checksumSha256 : String) (sizeBytes : Nat) :
    Except Err (Option FileBlob) :=
  scalarOneOrNone (db.blobs.filter fun b => b.checksumSha256 = checksumSha256 ∧ b.sizeBytes = sizeBytes)

/-- `get_blob_by_id`: `Session.get` by primary key. -/
def getBlobById (db : Db) (blobId : Nat) : Option FileBlob := db.blobs.find? (·.id = blobId)

/-- Write back a changed blob row. -/
def saveBlob (db : Db) (b : FileBlob) : Db :=
  { db with blobs := db.blobs.map fun c => if c.id = b.id then b else c }

/-- `add_blob`: a new row with the column default `reference_count = 1`. -/
def addBlob (db : Db) (checksumSha256 : String) (sizeBytes : Nat) (storageKey : String) :
    Except Err (FileBlob × Db) := do
  if db.blobs.any fun c => c.checksumSha256 = checksumSha256 ∧ c.sizeBytes = sizeBytes then
    throw (.integrity "uq_file_blobs_checksum_size")
  if db.blobs.any (·.storageKey = storageKey) then throw (.integrity "file_blobs.storage_key")
  let b : FileBlob := ⟨nextRowId (db.blobs.map (·.id)), checksumSha256, sizeBytes, storageKey, 1⟩
  return (b, { db with blobs := db.blobs ++ [b] })

/-- `increment_blob_refcount`: `reference_count += 1` on the loaded row. -/
def incrementBlobRefcount (b : FileBlob) : FileBlob :=
  { b with referenceCount := b.referenceCount + 1 }

/-- `decrement_blob_refcount`: `max(0, reference_count - 1)`, which truncated
    subtraction on `Nat` is. -/
def decrementBlobRefcount (b : FileBlob) : FileBlob :=
  { b with referenceCount := b.referenceCount - 1 }

def deleteBlob (db : Db) (b : FileBlob) : Db :=
  { db with blobs := db.blobs.filter (·.id ≠ b.id) }

/-! ### File versions -/

/-- `add_file_version`: a new row with `download_count = 0`. -/
def addFileVersion (db : Db) (packageId blobId : Nat) (fileName : String)
    (contentType : Option String) (version : String) (sizeBytes : Nat)
    (checksumSha256 : String) : Except Err (FileVersion × Db) := do
  if db.versions.any fun v => v.packageId = packageId ∧ v.version = version then
    throw (.integrity "uq_file_versions_package_version")
  let v : FileVersion := ⟨nextRowId (db.versions.map (·.id)), packageId, blobId, fileName,
    contentType, version, sizeBytes, checksumSha256, 0⟩
  return (v, { db with versions := db.versions ++ [v] })

def getFileVersionForPackage (db : Db) (packageId versionId : Nat) :
    Except Err (Option FileVersion) :=
  scalarOneOrNone (db.versions.filter fun v => v.id = versionId ∧ v.packageId = packageId)

def listAllFileVersionsForPackage (db : Db) (packageId : Nat) : List FileVersion :=
  db.versions.filter (·.packageId = packageId)

/-- Write back a changed version row. -/
def saveFileVersion (db : Db) (v : FileVersion) : Db :=
  { db with versions := db.versions.map fun w => if w.id = v.id then v else w }

def incrementFileVersionDownloadCount (v : FileVersion) : FileVersion :=
  { v with downloadCount := v.downloadCount + 1 }

def deleteFileVersion (db : Db) (v : FileVersion) : Db :=
  { db with versions := db.versions.filter (·.id ≠ v.id) }

/-- Whether a version row joins a package of `userId` (the `JOIN … WHERE owner_id`). -/
def ownedBy (db : Db) (userId : Int) (v : FileVersion) : Bool :=
  db.packages.any fun p => p.id = v.packageId ∧ p.ownerId = userId

/-- `get_total_uploaded_bytes_for_user`: the sizes of the versions in the user's
    packages. -/
def getTotalUploadedBytesForUser (db : Db) (userId : Int) : Nat :=
  ((db.versions.filter (db.ownedBy userId)).map (·.sizeBytes)).sum

/-! ### Upload sessions -/

/-- `create_upload_session`: a new row with `bytes_received = 0`. -/
def createUploadSession (db : Db) (s : UploadSession) : Except Err (UploadSession × Db) := do
  if db.sessions.any (·.id = s.id) then throw (.integrity "upload_sessions.id")
  return (s, { db with sessions := db.sessions ++ [s] })

def getUploadSessionForUserForUpdate (db : Db) (uploadId : String) (userId : Int) :
    Except Err (Option UploadSession) :=
  scalarOneOrNone (db.sessions.filter fun s => s.id = uploadId ∧ s.userId = userId)

/-- Write back a changed session row. -/
def saveSession (db : Db) (s : UploadSession) : Db :=
  { db with sessions := db.sessions.map fun r => if r.id = s.id then s else r }

end Db

end TechPulse
