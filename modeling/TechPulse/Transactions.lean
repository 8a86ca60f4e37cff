import TechPulse.Checksum
import TechPulse.Storage
import TechPulse.Tables

/-!
# The service's transactions

`app/services/software_package_service.py`. Each `with self.uow:` block of the
service is one function `Db → Except Err (α × Db)`: what the block returns and
the working copy it leaves, or the exception it raises. `Db.atomically` is
`UnitOfWork.__exit__`: commit on a normal exit, roll back when the block raises.
The validation that runs before a block is folded into it, since it reads no
shared state.
-/

namespace TechPulse

def PACKAGE_UPLOAD_CHUNK_SIZE_BYTES : Nat := 1024 * 1024

/-- A `SoftwarePackageService`: its size limits and its two collaborators.
    `sha256` is the hex digest of `hashlib.sha256`; `scanner` is
    `MalwareScanner.scan_stream` (its module is not among the sources: the spec
    says it returns for a clean stream and raises to reject it), given the temp
    object's bytes (`none` when the file is gone), the file name and the
    content type. -/
structure SoftwarePackageService where
  maxFileSizeBytes : Nat
  userQuotaBytes : Nat
  sha256 : Bytes → String
  scanner : Option Bytes → String → Option String → Except Err Unit

/-- `UnitOfWork.__exit__` around a block: its writes are committed when it
    returns, and rolled back whole when it raises. -/
def Db.atomically {α : Type} (block : Db → Except Err (α × Db)) (db : Db) : Except Err α × Db :=
  match block db with
  | .ok (a, db') => (.ok a, db')
  | .error e => (.error e, db)

/-! ### `init_upload_session` -/

/-- The keyword arguments describing the package, as `init_upload_session` and
    `upload_single_request` receive them. -/
structure PackageForm where
  packageName : String
  packageDescription : String
  packageCategory : String
  packageLanguage : String
  packageVersion : String
  isPublic : Bool
  fileName : String
  contentType : Option String
deriving DecidableEq, Repr

structure UploadInitResult where
  uploadId : String
  offset : Nat
  maxSizeBytes : Nat
deriving DecidableEq, Repr

/-- `init_upload_session`, its validation and its one block. `uploadId` is the
    `uuid4().hex` the call draws. -/
def SoftwarePackageService.initUploadSession (svc : SoftwarePackageService) (userId : Int)
    (form : PackageForm) (maxSizeBytes : Option Int) (uploadId : String) (db : Db) :
    Except Err (UploadInitResult × Db) := do
  let draft : SoftwarePackageDraft :=
    ⟨userId, pyStrip form.packageName, pyStrip form.packageDescription,
      pyLower (pyStrip form.packageCategory), pyStrip form.packageLanguage,
      pyStrip form.packageVersion, pyStrip form.fileName, form.contentType, form.isPublic⟩
  draft.validate
  if draft.category ∉ ALLOWED_CATEGORIES then throw (.validation "Unsupported package category")
  validateFileName draft.fileName
  let effectiveMax : Int := match maxSizeBytes with
    | none | some 0 => svc.maxFileSizeBytes
    | some m => m
  if effectiveMax ≤ 0 then throw (.validation "Invalid max size")
  if effectiveMax > svc.maxFileSizeBytes then
    throw (.validation "Requested max size exceeds server limit")
  let (_, db) ← db.createUploadSession
    ⟨uploadId, userId, draft.name, draft.description, draft.category, draft.language,
      draft.version, form.isPublic, draft.fileName, form.contentType, 0, effectiveMax.toNat,
      .pending, none, none⟩
  return (⟨uploadId, 0, effectiveMax.toNat⟩, db)

/-! ### `append_upload_stream` -/

structure UploadAppendResult where
  uploadId : String
  offset : Nat
  status : String
deriving DecidableEq, Repr

/-- The first block of `append_upload_stream`: the status and offset checks.
    It returns the session's `max_size_bytes`. -/
def appendLockTx (uploadId : String) (userId : Int) (expectedOffset : Int) (db : Db) :
    Except Err (Nat × Db) := do
  let some s ← db.getUploadSessionForUserForUpdate uploadId userId
    | throw (.notFound "Upload session not found")
  if s.status ∈ [.completed, .failed, .finalizing] then
    throw (.conflict ("Upload session is not writable (status=" ++ s.status.text ++ ")"))
  if (s.bytesReceived : Int) ≠ expectedOffset then
    throw (.conflict ("Upload offset mismatch. expected=" ++ toString s.bytesReceived ++
      ", provided=" ++ toString expectedOffset))
  return (s.maxSizeBytes, db.saveSession { s with status := .uploading })

/-- The block of the `except` handler: record the size on disk, mark FAILED. -/
def appendFailTx (uploadId : String) (userId : Int) (currentSize : Nat) (db : Db) :
    Except Err (Unit × Db) := do
  match ← db.getUploadSessionForUserForUpdate uploadId userId with
  | some s =>
    return ((), db.saveSession { s with bytesReceived := currentSize, status := .failed,
                                        errorMessage := some "Chunk append failed" })
  | none => return ((), db)

/-- The last block: record the new offset and set UPLOADING. -/
def appendFinishTx (uploadId : String) (userId : Int) (newOffset : Nat) (db : Db) :
    Except Err (UploadAppendResult × Db) := do
  let some s ← db.getUploadSessionForUserForUpdate uploadId userId
    | throw (.notFound "Upload session not found")
  let s := { s with bytesReceived := newOffset, status := .uploading, errorMessage := none }
  return (⟨uploadId, newOffset, s.status.text⟩, db.saveSession s)

/-! ### `_finalize_upload_with_checksum` -/

structure FinalizeArgs where
  uploadId : String
  userId : Int
  checksum : String
  sizeBytes : Nat
deriving DecidableEq, Repr

/-- What the first block of the finalization decided: the session is already
    COMPLETED and its version is returned, or it is now FINALIZING, with its
    fields as the block read them. -/
inductive LockOutcome where
  | replay (versionId : Nat)
  | proceed (s : UploadSession)
deriving DecidableEq, Repr

/-- The first block: status checks, then FINALIZING. -/
def finalizeLockTx (uploadId : String) (userId : Int) (db : Db) : Except Err (LockOutcome × Db) := do
  let some s ← db.getUploadSessionForUserForUpdate uploadId userId
    | throw (.notFound "Upload session not found")
  if s.status = .completed then
    match s.completedFileVersionId with
    | none => throw (.conflict "Upload already completed with missing version reference")
    | some v => return (.replay v, db)
  if s.status = .failed then throw (.conflict "Upload session failed and cannot be completed")
  if s.status = .finalizing then throw (.conflict "Upload session is already finalizing")
  let s := { s with status := .finalizing }
  if s.bytesReceived = 0 then throw (.validation "Upload contains no data")
  return (.proceed s, db.saveSession s)

/-- The checks between the first block and the scan; they raise after FINALIZING
    was committed. -/
def finalizeChecks (a : FinalizeArgs) (s : UploadSession) : Except Err Unit := do
  if a.sizeBytes = 0 then throw (.validation "Upload contains no data")
  if a.sizeBytes > s.maxSizeBytes then throw (.validation "Upload exceeds maximum allowed file size")
  (FileVersionDraft.mk s.packageVersion a.checksum a.sizeBytes).validate

def quotaTx (svc : SoftwarePackageService) (userId : Int) (sizeBytes : Nat) (db : Db) :
    Except Err (Unit × Db) := do
  if db.getTotalUploadedBytesForUser userId + sizeBytes > svc.userQuotaBytes then
    throw (.validation "Storage quota exceeded")
  return ((), db)

/-- The blob lookup block: take a reference on an existing blob. -/
def blobLookupTx (checksum : String) (sizeBytes : Nat) (db : Db) : Except Err (Option Nat × Db) := do
  match ← db.getBlobByChecksumAndSize checksum sizeBytes with
  | some b => return (some b.id, db.saveBlob (Db.incrementBlobRefcount b))
  | none => return (none, db)

/-- The block after `promote_upload`: take a reference on the blob, or add it. -/
def blobReconcileTx (checksum : String) (sizeBytes : Nat) (storageKey : String) (db : Db) :
    Except Err (Nat × Db) := do
  match ← db.getBlobByChecksumAndSize checksum sizeBytes with
  | some b => return (b.id, db.saveBlob (Db.incrementBlobRefcount b))
  | none =>
    let (b, db) ← db.addBlob checksum sizeBytes storageKey
    return (b.id, db)

/-- The block that upserts the package, inserts the version and completes the
    session. `blob.id` reads the blob row the earlier block committed, and raises
    when that row is gone. -/
def versionInsertTx (a : FinalizeArgs) (s : UploadSession) (blobId : Nat) (db : Db) :
    Except Err (Nat × Db) := do
  let (pkg, db) ← db.upsertPackage a.userId s.packageName s.packageDescription s.packageCategory
    s.packageLanguage s.isPublic s.packageVersion
  if (db.getBlobById blobId).isNone then throw .objectDeleted
  let (v, db) ← db.addFileVersion pkg.id blobId s.fileName s.contentType s.packageVersion
    a.sizeBytes a.checksum
  let some session ← db.getUploadSessionForUserForUpdate a.uploadId a.userId
    | throw (.notFound "Upload session not found")
  return (v.id, db.saveSession { session with status := .completed,
                                              completedFileVersionId := some v.id,
                                              errorMessage := none })

/-- The compensating block after a duplicate version: give back the reference
    and mark the session FAILED. -/
def compensateTx (a : FinalizeArgs) (blobId : Nat) (db : Db) : Except Err (Unit × Db) := do
  let db ← match ← db.getBlobByChecksumAndSize a.checksum a.sizeBytes with
    | some d =>
      if d.id = blobId then pure (db.saveBlob (Db.decrementBlobRefcount d))
      else if (db.getBlobById blobId).isNone then throw .objectDeleted
      else pure db
    | none => pure db
  match ← db.getUploadSessionForUserForUpdate a.uploadId a.userId with
  | some s =>
    return ((), db.saveSession { s with status := .failed,
                                        errorMessage := some "Version already exists for this package" })
  | none => return ((), db)

/-! ### `cancel_upload`, `get_download_ticket`, `delete_package_for_owner` -/

def cancelTx (uploadId : String) (userId : Int) (db : Db) : Except Err (Unit × Db) := do
  let some s ← db.getUploadSessionForUserForUpdate uploadId userId
    | throw (.notFound "Upload session not found")
  if s.status = .completed then throw (.conflict "Cannot cancel completed upload")
  return ((), db.saveSession { s with status := .failed, errorMessage := some "Upload canceled by client" })

structure DownloadTicket where
  storageKey : String
  fileName : String
  contentType : Option String
  fileSizeBytes : Nat
  checksumSha256 : String
deriving DecidableEq, Repr

def getDownloadTicketTx (packageId versionId : Nat) (db : Db) : Except Err (DownloadTicket × Db) := do
  let some pkg := db.getPackageById packageId | throw (.notFound "Package not found")
  if !pkg.isPublic then throw (.permission "Private software is view-only and cannot be downloaded")
  let some v ← db.getFileVersionForPackage packageId versionId
    | throw (.notFound "File version not found")
  let some b ← db.getBlobByChecksumAndSize v.checksumSha256 v.sizeBytes
    | throw (.notFound "Backing file not found")
  return (⟨b.storageKey, v.fileName, v.contentType, v.sizeBytes, v.checksumSha256⟩,
    db.saveFileVersion (Db.incrementFileVersionDownloadCount v))

/-- The `for version_row in versions` loop of `delete_package_for_owner`: delete
    each version, give back its reference, and remove (collecting its storage
    key) a blob whose count reaches zero. -/
def deleteVersionsLoop : List FileVersion → Db → List String → Db × List String
  | [], db, keys => (db, keys)
  | v :: vs, db, keys =>
    let blob := db.getBlobById v.blobId
    let db := db.deleteFileVersion v
    match blob with
    | none => deleteVersionsLoop vs db keys
    | some b =>
      let b := Db.decrementBlobRefcount b
      if b.referenceCount = 0 then deleteVersionsLoop vs (db.deleteBlob b) (keys ++ [b.storageKey])
      else deleteVersionsLoop vs (db.saveBlob b) keys

/-- The block of `delete_package_for_owner`; it returns the storage keys to
    delete once it has committed. -/
def deletePackageTx (packageId : Nat) (userId : Int) (db : Db) : Except Err (List String × Db) := do
  let some pkg := db.getPackageById packageId | throw (.notFound "Package not found")
  if pkg.ownerId ≠ userId then throw (.permission "Only the package owner can delete this package")
  let (db, keys) := deleteVersionsLoop (db.listAllFileVersionsForPackage packageId) db []
  return (keys, db.deletePackage pkg)

end TechPulse
