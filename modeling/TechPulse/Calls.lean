import TechPulse.Transactions

/-!
# Service calls as step machines

Each service call runs as a sequence of atomic steps: one per `with self.uow`
block, one per storage-backend call, and one per chunk the client stream
delivers. A call's state says where it stands in the method's body and what it
holds in local variables; `step` runs the next statement group against the
shared `World`.

Every step takes a flag `fault`: when it is set, the step's I/O fails instead
(the block rolls back, the storage call has no effect, the client stream
breaks), and the call goes on as its `try`/`except` clauses say.
-/

namespace TechPulse

/-- The shared state: the database and the storage backend. -/
structure World where
  db : Db
  storage : Storage

namespace World

def empty : World := ⟨.empty, .empty⟩

/-- Run one `with self.uow` block. -/
def tx {α : Type} (w : World) (block : Db → Except Err (α × Db)) : Except Err α × World :=
  match w.db.atomically block with
  | (r, db) => (r, { w with db := db })

def withStorage (w : World) (s : Storage) : World := { w with storage := s }

end World

/-! ### `_finalize_upload_with_checksum` -/

/-- Where a finalization stands. `s` is the session row as its first block read
    it; `blobId` the blob it has taken a reference on. -/
inductive FinalizePc where
  | lock
  | scan (s : UploadSession)
  | quota (s : UploadSession)
  | lookup (s : UploadSession)
  | abort (s : UploadSession) (blobId : Nat)
  | promote (s : UploadSession)
  | reconcile (s : UploadSession)
  | insert (s : UploadSession) (blobId : Nat)
  | compensate (blobId : Nat)
  | done (r : Except Err Nat)

/-- One step of the finalization, without a fault. -/
def FinalizePc.run (svc : SoftwarePackageService) (a : FinalizeArgs) (w : World) :
    FinalizePc → FinalizePc × World
  | .lock =>
    match w.tx (finalizeLockTx a.uploadId a.userId) with
    | (.error e, w) => (.done (.error e), w)
    | (.ok (.replay v), w) => (.done (.ok v), w)
    | (.ok (.proceed s), w) =>
      match finalizeChecks a s with
      | .error e => (.done (.error e), w)
      | .ok () => (.scan s, w)
  | .scan s =>
    match svc.scanner (w.storage.tempContent a.uploadId) s.fileName s.contentType with
    | .error e => (.done (.error e), w)
    | .ok () => (.quota s, w)
  | .quota s =>
    match w.tx (quotaTx svc a.userId a.sizeBytes) with
    | (.error e, w) => (.done (.error e), w)
    | (.ok (), w) => (.lookup s, w)
  | .lookup s =>
    match w.tx (blobLookupTx a.checksum a.sizeBytes) with
    | (.error e, w) => (.done (.error e), w)
    | (.ok (some b), w) => (.abort s b, w)
    | (.ok none, w) => (.promote s, w)
  | .abort s b => (.insert s b, w.withStorage (w.storage.abortUpload a.uploadId))
  | .promote s =>
    match w.storage.promoteUpload a.uploadId (buildStorageKey a.checksum) with
    | .error e => (.done (.error e), w)
    | .ok (_, st) => (.reconcile s, w.withStorage st)
  | .reconcile s =>
    match w.tx (blobReconcileTx a.checksum a.sizeBytes (buildStorageKey a.checksum)) with
    | (.error e, w) =>
      (.done (.error (if e.isIntegrity then .conflict "Blob consistency conflict" else e)), w)
    | (.ok b, w) => (.insert s b, w)
  | .insert s b =>
    match w.tx (versionInsertTx a s b) with
    | (.ok v, w) => (.done (.ok v), w)
    | (.error e, w) => if e.isIntegrity then (.compensate b, w) else (.done (.error e), w)
  | .compensate b =>
    match w.tx (compensateTx a b) with
    | (.error e, w) => (.done (.error e), w)
    | (.ok (), w) => (.done (.error (.conflict "Package version already exists")), w)
  | .done r => (.done r, w)

/-- One step of the finalization; a fault ends it with the I/O error. -/
def FinalizePc.step (svc : SoftwarePackageService) (a : FinalizeArgs) (fault : Bool)
    (w : World) : FinalizePc → FinalizePc × World
  | .done r => (.done r, w)
  | pc => if fault then (.done (.error .io), w) else pc.run svc a w

/-! ### `append_upload_stream` -/

/-- The arguments of `append_upload_stream`; `chunks` is what the client stream
    delivers. -/
structure AppendArgs where
  uploadId : String
  userId : Int
  expectedOffset : Int
  chunks : List Bytes
deriving DecidableEq, Repr

/-- Where an append stands: in its first block, in the chunk loop (with
    `max_size` and `bytes_appended`), in the `except` handler holding the
    exception it re-raises, or in the two last statements. -/
inductive AppendPc where
  | lock
  | chunks (maxSize appended : Nat) (rest : List Bytes)
  | failSize (e : Err)
  | failTx (e : Err) (currentSize : Nat)
  | size
  | finish (newOffset : Nat)
  | done (r : Except Err UploadAppendResult)

/-- One step of the append, without a fault. -/
def AppendPc.run (a : AppendArgs) (w : World) : AppendPc → AppendPc × World
  | .lock =>
    match w.tx (appendLockTx a.uploadId a.userId a.expectedOffset) with
    | (.error e, w) => (.done (.error e), w)
    | (.ok m, w) => (.chunks m 0 a.chunks, w)
  | .chunks _ _ [] => (.size, w)
  | .chunks m k (c :: rest) =>
    if c.isEmpty then (.chunks m k rest, w)
    else if a.expectedOffset + ((k + c.length : Nat) : Int) > m then
      (.failSize (.validation "Upload exceeds maximum allowed file size"), w)
    else (.chunks m (k + c.length) rest, w.withStorage (w.storage.appendUploadChunk a.uploadId c))
  | .failSize e => (.failTx e (w.storage.getUploadSize a.uploadId), w)
  | .failTx e n =>
    match w.tx (appendFailTx a.uploadId a.userId n) with
    | (.error e', w) => (.done (.error e'), w)
    | (.ok (), w) => (.done (.error e), w)
  | .size => (.finish (w.storage.getUploadSize a.uploadId), w)
  | .finish n =>
    match w.tx (appendFinishTx a.uploadId a.userId n) with
    | (.error e, w) => (.done (.error e), w)
    | (.ok r, w) => (.done (.ok r), w)
  | .done r => (.done r, w)

/-- One step of the append. A fault in the chunk loop (a broken stream or a
    failed write) enters the `except` handler; elsewhere it ends the call. -/
def AppendPc.step (a : AppendArgs) (fault : Bool) (w : World) : AppendPc → AppendPc × World
  | .done r => (.done r, w)
  | .chunks m k rest => if fault then (.failSize .io, w) else (AppendPc.chunks m k rest).run a w
  | pc => if fault then (.done (.error .io), w) else pc.run a w

/-! ### `upload_single_request` -/

/-- The arguments of `upload_single_request`, and the id its
    `init_upload_session` draws. -/
structure SingleArgs where
  userId : Int
  form : PackageForm
  chunks : List Bytes
  uploadId : String
deriving DecidableEq, Repr

/-- The append that `upload_single_request` runs, from offset 0. -/
def SingleArgs.append (a : SingleArgs) : AppendArgs := ⟨a.uploadId, a.userId, 0, a.chunks⟩

/-- Where a one-shot upload stands. The hasher `h` is fed by the generator
    `_single_request_stream` as each chunk passes to the append. -/
inductive SinglePc where
  | init
  | initStorage
  | append (h : StreamingSHA256) (pc : AppendPc)
  | finalize (fa : FinalizeArgs) (pc : FinalizePc)
  | abort (e : Err)
  | done (r : Except Err (String × Nat))

/-- The hasher once the generator `_single_request_stream` has yielded the chunk
    that the append's loop takes next: it updates the hasher with each chunk it
    yields, and a broken stream yields nothing. -/
def singleRequestStream (fault : Bool) (h : StreamingSHA256) : AppendPc → StreamingSHA256
  | .chunks _ _ (c :: _) => if fault then h else h.update c
  | _ => h

def SinglePc.step (svc : SoftwarePackageService) (a : SingleArgs) (fault : Bool) (w : World) :
    SinglePc → SinglePc × World
  | .init =>
    if fault then (.done (.error .io), w) else
    match w.tx (svc.initUploadSession a.userId a.form none a.uploadId) with
    | (.error e, w) => (.done (.error e), w)
    | (.ok _, w) => (.initStorage, w)
  | .initStorage =>
    if fault then (.done (.error .io), w)
    else (.append .init .lock, w.withStorage (w.storage.initUpload a.uploadId))
  | .append h pc =>
    let h := singleRequestStream fault h pc
    match pc.step a.append fault w with
    | (.done (.ok _), w) =>
      (.finalize ⟨a.uploadId, a.userId, h.hexdigest svc.sha256, h.sizeBytes⟩ .lock, w)
    | (.done (.error e), w) => (.abort e, w)
    | (pc, w) => (.append h pc, w)
  | .finalize fa pc =>
    match pc.step svc fa fault w with
    | (.done (.ok v), w) => (.done (.ok (a.uploadId, v)), w)
    | (.done (.error e), w) => (.abort e, w)
    | (pc, w) => (.finalize fa pc, w)
  | .abort e =>
    if fault then (.done (.error .io), w)
    else (.done (.error e), w.withStorage (w.storage.abortUpload a.uploadId))
  | .done r => (.done r, w)

/-! ### `complete_upload` -/

/-- Where `complete_upload` stands: opening the temp file, in the hashing read
    loop, or in the finalization it calls. -/
inductive CompletePc where
  | open
  | read (h : StreamingSHA256) (c : ReadCursor)
  | finalize (fa : FinalizeArgs) (pc : FinalizePc)
  | done (r : Except Err Nat)

def CompletePc.step (svc : SoftwarePackageService) (uploadId : String) (userId : Int)
    (fault : Bool) (w : World) : CompletePc → CompletePc × World
  | .open =>
    if fault then (.done (.error .io), w) else
    match w.storage.openUpload uploadId with
    | .error e => (.done (.error e), w)
    | .ok i => (.read .init (.start i 0 none), w)
  | .read h c =>
    if fault then (.done (.error .io), w) else
    match w.storage.readNext PACKAGE_UPLOAD_CHUNK_SIZE_BYTES c with
    | none => (.finalize ⟨uploadId, userId, h.hexdigest svc.sha256, h.sizeBytes⟩ .lock, w)
    | some (data, c) => (.read (h.update data) c, w)
  | .finalize fa pc =>
    match pc.step svc fa fault w with
    | (.done r, w) => (.done r, w)
    | (pc, w) => (.finalize fa pc, w)
  | .done r => (.done r, w)

/-! ### The route `POST /uploads/init`, `cancel_upload`, `get_download_ticket`,
`delete_package_for_owner` -/

/-- The init route: `init_upload_session`, then `storage.init_upload`. -/
inductive InitPc where
  | init
  | initStorage (r : UploadInitResult)
  | done (r : Except Err UploadInitResult)

def InitPc.step (svc : SoftwarePackageService) (userId : Int) (form : PackageForm)
    (maxSizeBytes : Option Int) (uploadId : String) (fault : Bool) (w : World) :
    InitPc → InitPc × World
  | .init =>
    if fault then (.done (.error .io), w) else
    match w.tx (svc.initUploadSession userId form maxSizeBytes uploadId) with
    | (.error e, w) => (.done (.error e), w)
    | (.ok r, w) => (.initStorage r, w)
  | .initStorage r =>
    if fault then (.done (.error .io), w)
    else (.done (.ok r), w.withStorage (w.storage.initUpload uploadId))
  | .done r => (.done r, w)

inductive CancelPc where
  | lock
  | abort
  | done (r : Except Err Unit)

def CancelPc.step (uploadId : String) (userId : Int) (fault : Bool) (w : World) :
    CancelPc → CancelPc × World
  | .lock =>
    if fault then (.done (.error .io), w) else
    match w.tx (cancelTx uploadId userId) with
    | (.error e, w) => (.done (.error e), w)
    | (.ok (), w) => (.abort, w)
  | .abort =>
    if fault then (.done (.error .io), w)
    else (.done (.ok ()), w.withStorage (w.storage.abortUpload uploadId))
  | .done r => (.done r, w)

/-- Where `get_download_ticket` stands: before or after its one block. -/
inductive TicketPc where
  | tx
  | done (r : Except Err DownloadTicket)

def TicketPc.step (packageId versionId : Nat) (fault : Bool) (w : World) :
    TicketPc → TicketPc × World
  | .tx =>
    if fault then (.done (.error .io), w)
    else match w.tx (getDownloadTicketTx packageId versionId) with
    | (r, w) => (.done r, w)
  | .done r => (.done r, w)

/-- Where `delete_package_for_owner` stands: its block, then the storage keys it
    still has to delete. -/
inductive DeletePc where
  | tx
  | deleteObjects (keys : List String)
  | done (r : Except Err Unit)

/-- One step of `delete_package_for_owner`. A failed `delete_object` is logged
    and the loop goes on. -/
def DeletePc.step (packageId : Nat) (userId : Int) (fault : Bool) (w : World) :
    DeletePc → DeletePc × World
  | .tx =>
    if fault then (.done (.error .io), w) else
    match w.tx (deletePackageTx packageId userId) with
    | (.error e, w) => (.done (.error e), w)
    | (.ok keys, w) => (.deleteObjects keys, w)
  | .deleteObjects [] => (.done (.ok ()), w)
  | .deleteObjects (k :: keys) =>
    if fault then (.deleteObjects keys, w) else
    match w.storage.deleteObject k with
    | .error _ => (.deleteObjects keys, w)
    | .ok st => (.deleteObjects keys, w.withStorage st)
  | .done r => (.done r, w)

end TechPulse
