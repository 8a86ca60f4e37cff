import TechPulse.System

/-!
# What each transaction can do

One lemma per `with self.uow` block, saying what a committed run of the block
leaves in each table. Later proofs cite these and never unfold a block.

The blob ledger is read pointwise: `countOf db i` is the `reference_count` of
blob `i` (`0` when there is no such row) and `refsTo db i` the number of
version rows bound to it.
-/

namespace TechPulse

/-! ### Reading the tables -/

namespace Db

/-- The reference count of blob `i`, `0` when the row does not exist. -/
def countOf (db : Db) (i : Nat) : Nat := ((db.getBlobById i).map (·.referenceCount)).getD 0

/-- The number of `file_versions` rows bound to blob `i`. -/
def refsTo (db : Db) (i : Nat) : Nat := db.versions.countP (·.blobId = i)

/-- `db'` is `db`, or `db` with one session row rewritten under its own key. -/
def SessionEdit (db db' : Db) : Prop :=
  db' = db ∨ ∃ s ∈ db.sessions, ∃ r : UploadSession,
    r.id = s.id ∧ r.userId = s.userId ∧ db' = db.saveSession r

@[simp] theorem saveSession_blobs (db : Db) (r : UploadSession) :
    (db.saveSession r).blobs = db.blobs := rfl
@[simp] theorem saveSession_versions (db : Db) (r : UploadSession) :
    (db.saveSession r).versions = db.versions := rfl
@[simp] theorem saveSession_packages (db : Db) (r : UploadSession) :
    (db.saveSession r).packages = db.packages := rfl
@[simp] theorem saveBlob_versions (db : Db) (b : FileBlob) :
    (db.saveBlob b).versions = db.versions := rfl
@[simp] theorem saveBlob_packages (db : Db) (b : FileBlob) :
    (db.saveBlob b).packages = db.packages := rfl
@[simp] theorem saveBlob_sessions (db : Db) (b : FileBlob) :
    (db.saveBlob b).sessions = db.sessions := rfl
@[simp] theorem deleteBlob_versions (db : Db) (b : FileBlob) :
    (db.deleteBlob b).versions = db.versions := rfl
@[simp] theorem deleteBlob_packages (db : Db) (b : FileBlob) :
    (db.deleteBlob b).packages = db.packages := rfl
@[simp] theorem deleteBlob_sessions (db : Db) (b : FileBlob) :
    (db.deleteBlob b).sessions = db.sessions := rfl
@[simp] theorem deleteFileVersion_blobs (db : Db) (v : FileVersion) :
    (db.deleteFileVersion v).blobs = db.blobs := rfl
@[simp] theorem deleteFileVersion_packages (db : Db) (v : FileVersion) :
    (db.deleteFileVersion v).packages = db.packages := rfl
@[simp] theorem deleteFileVersion_sessions (db : Db) (v : FileVersion) :
    (db.deleteFileVersion v).sessions = db.sessions := rfl
@[simp] theorem savePackage_blobs (db : Db) (p : SoftwarePackage) :
    (db.savePackage p).blobs = db.blobs := rfl
@[simp] theorem savePackage_versions (db : Db) (p : SoftwarePackage) :
    (db.savePackage p).versions = db.versions := rfl
@[simp] theorem savePackage_sessions (db : Db) (p : SoftwarePackage) :
    (db.savePackage p).sessions = db.sessions := rfl
@[simp] theorem saveFileVersion_blobs (db : Db) (v : FileVersion) :
    (db.saveFileVersion v).blobs = db.blobs := rfl
@[simp] theorem saveFileVersion_packages (db : Db) (v : FileVersion) :
    (db.saveFileVersion v).packages = db.packages := rfl
@[simp] theorem saveFileVersion_sessions (db : Db) (v : FileVersion) :
    (db.saveFileVersion v).sessions = db.sessions := rfl
@[simp] theorem deletePackage_blobs (db : Db) (p : SoftwarePackage) :
    (db.deletePackage p).blobs = db.blobs := rfl
@[simp] theorem deletePackage_versions (db : Db) (p : SoftwarePackage) :
    (db.deletePackage p).versions = db.versions := rfl
@[simp] theorem deletePackage_sessions (db : Db) (p : SoftwarePackage) :
    (db.deletePackage p).sessions = db.sessions := rfl

end Db

theorem getUploadSessionForUserForUpdate_some {db : Db} {u : String} {k : Int}
    {s : UploadSession} (h : db.getUploadSessionForUserForUpdate u k = .ok (some s)) :
    s ∈ db.sessions ∧ s.id = u ∧ s.userId = k := by
  have := (List.mem_filter.mp ((scalarOneOrNone_some h).symm ▸ List.mem_singleton_self s))
  simpa using this

theorem getBlobByChecksumAndSize_some {db : Db} {c : String} {n : Nat} {b : FileBlob}
    (h : db.getBlobByChecksumAndSize c n = .ok (some b)) :
    b ∈ db.blobs ∧ b.checksumSha256 = c ∧ b.sizeBytes = n := by
  have := (List.mem_filter.mp ((scalarOneOrNone_some h).symm ▸ List.mem_singleton_self b))
  simpa using this

theorem getBlobByChecksumAndSize_none {db : Db} {c : String} {n : Nat}
    (h : db.getBlobByChecksumAndSize c n = .ok none) :
    ∀ b ∈ db.blobs, ¬(b.checksumSha256 = c ∧ b.sizeBytes = n) := by
  have := scalarOneOrNone_none h
  simpa [List.filter_eq_nil_iff] using this

/-! ### A block run against the world -/

theorem World.tx_cases {α : Type} {w w' : World} {block : Db → Except Err (α × Db)}
    {r : Except Err α} (h : w.tx block = (r, w')) :
    (∃ a, r = .ok a ∧ block w.db = .ok (a, w'.db) ∧ w'.storage = w.storage) ∨
      (∃ e, r = .error e ∧ block w.db = .error e ∧ w' = w) := by
  simp only [World.tx, Db.atomically] at h
  split at h <;> cases h
  · exact .inl ⟨_, rfl, ‹_›, rfl⟩
  · exact .inr ⟨_, rfl, ‹_›, rfl⟩

/-- A block keeps any relation that holds of no change and of every commit. -/
theorem World.tx_db {α : Type} {w w' : World} {block : Db → Except Err (α × Db)}
    {r : Except Err α} (h : w.tx block = (r, w')) {P : Db → Db → Prop} (hrefl : P w.db w.db)
    (hok : ∀ a db', block w.db = .ok (a, db') → P w.db db') : P w.db w'.db := by
  rcases World.tx_cases h with ⟨a, -, hb, -⟩ | ⟨-, -, -, rfl⟩
  exacts [hok a _ hb, hrefl]

theorem World.tx_of_ok {α : Type} {w : World} {block : Db → Except Err (α × Db)} {a : α}
    {db' : Db} (h : block w.db = .ok (a, db')) : w.tx block = (.ok a, { w with db := db' }) := by
  simp [World.tx, Db.atomically, h]

/-- A block leaves the storage backend as it was. -/
theorem World.tx_storage {α : Type} {w w' : World} {block : Db → Except Err (α × Db)}
    {r : Except Err α} (h : w.tx block = (r, w')) : w'.storage = w.storage := by
  rcases World.tx_cases h with ⟨-, -, -, hs⟩ | ⟨-, -, -, rfl⟩
  exacts [hs, rfl]

theorem World.tx_of_error {α : Type} {w : World} {block : Db → Except Err (α × Db)} {e : Err}
    (h : block w.db = .error e) : w.tx block = (.error e, w) := by
  simp [World.tx, Db.atomically, h]

/-! ### Blocks that touch only the session rows -/

theorem Db.SessionEdit.save {db : Db} {u : String} {k : Int} {s : UploadSession}
    (h : db.getUploadSessionForUserForUpdate u k = .ok (some s)) (r : UploadSession)
    (hid : r.id = s.id) (huid : r.userId = s.userId) : db.SessionEdit (db.saveSession r) :=
  .inr ⟨s, (getUploadSessionForUserForUpdate_some h).1, r, hid, huid, rfl⟩

/-- What the first block of an append does when it commits: on a session that
    takes chunks and holds `expected_offset` bytes, it sets UPLOADING and returns
    `max_size_bytes`. -/
theorem appendLockTx_ok {u : String} {k o : Int} {db db' : Db} {m : Nat}
    (h : appendLockTx u k o db = .ok (m, db')) :
    ∃ s, db.getUploadSessionForUserForUpdate u k = .ok (some s) ∧
      s.status ∉ [.completed, .failed, .finalizing] ∧ (s.bytesReceived : Int) = o ∧
      m = s.maxSizeBytes ∧ db' = db.saveSession { s with status := .uploading } := by
  unfold appendLockTx at h
  simp only [bind, Except.bind, pure, Except.pure, throw, throwThe, MonadExceptOf.throw] at h
  repeat' split at h
  all_goals first | cases h; done | skip
  cases h
  exact ⟨_, ‹_›, ‹_›, not_not.mp ‹_›, rfl, rfl⟩

theorem appendFailTx_ok {u : String} {k : Int} {n : Nat} {db db' : Db}
    (h : appendFailTx u k n db = .ok ((), db')) :
    (db.getUploadSessionForUserForUpdate u k = .ok none ∧ db' = db) ∨
      ∃ s, db.getUploadSessionForUserForUpdate u k = .ok (some s) ∧
        db' = db.saveSession { s with bytesReceived := n, status := .failed,
                                      errorMessage := some "Chunk append failed" } := by
  unfold appendFailTx at h
  simp only [bind, Except.bind, pure, Except.pure] at h
  repeat' split at h
  all_goals first | cases h; done | skip
  · cases h; exact .inr ⟨_, ‹_›, rfl⟩
  · cases h; exact .inl ⟨‹_›, rfl⟩

theorem appendFinishTx_ok {u : String} {k : Int} {n : Nat} {db db' : Db} {r : UploadAppendResult}
    (h : appendFinishTx u k n db = .ok (r, db')) :
    ∃ s, db.getUploadSessionForUserForUpdate u k = .ok (some s) ∧
      r = ⟨u, n, UploadStatus.uploading.text⟩ ∧
      db' = db.saveSession { s with bytesReceived := n, status := .uploading, errorMessage := none } := by
  unfold appendFinishTx at h
  simp only [bind, Except.bind, pure, Except.pure, throw, throwThe, MonadExceptOf.throw] at h
  repeat' split at h
  all_goals first | cases h; done | skip
  cases h
  exact ⟨_, ‹_›, rfl, rfl⟩

theorem cancelTx_ok {u : String} {k : Int} {db db' : Db} (h : cancelTx u k db = .ok ((), db')) :
    ∃ s, db.getUploadSessionForUserForUpdate u k = .ok (some s) ∧ s.status ≠ .completed ∧
      db' = db.saveSession { s with status := .failed, errorMessage := some "Upload canceled by client" } := by
  unfold cancelTx at h
  simp only [bind, Except.bind, pure, Except.pure, throw, throwThe, MonadExceptOf.throw] at h
  repeat' split at h
  all_goals first | cases h; done | skip
  cases h
  exact ⟨_, ‹_›, ‹_›, rfl⟩

theorem appendLockTx_edit {u : String} {k o : Int} {db db' : Db} {m : Nat}
    (h : appendLockTx u k o db = .ok (m, db')) : db.SessionEdit db' := by
  obtain ⟨s, hget, -, -, -, rfl⟩ := appendLockTx_ok h
  exact .save hget _ rfl rfl

theorem appendFailTx_edit {u : String} {k : Int} {n : Nat} {db db' : Db}
    (h : appendFailTx u k n db = .ok ((), db')) : db.SessionEdit db' := by
  rcases appendFailTx_ok h with ⟨-, rfl⟩ | ⟨s, hget, rfl⟩
  exacts [.inl rfl, .save hget _ rfl rfl]

theorem appendFinishTx_edit {u : String} {k : Int} {n : Nat} {db db' : Db}
    {r : UploadAppendResult} (h : appendFinishTx u k n db = .ok (r, db')) : db.SessionEdit db' := by
  obtain ⟨s, hget, -, rfl⟩ := appendFinishTx_ok h
  exact .save hget _ rfl rfl

/-- What the first block of a finalization does when it commits: it replays a
    COMPLETED session, or marks a PENDING or UPLOADING session holding bytes
    FINALIZING. -/
theorem finalizeLockTx_ok {u : String} {k : Int} {db db' : Db} {o : LockOutcome}
    (h : finalizeLockTx u k db = .ok (o, db')) :
    ∃ s, db.getUploadSessionForUserForUpdate u k = .ok (some s) ∧
      ((s.status = .completed ∧ ∃ v, s.completedFileVersionId = some v ∧ o = .replay v ∧ db' = db) ∨
        (s.status ≠ .completed ∧ s.status ≠ .failed ∧ s.status ≠ .finalizing ∧ s.bytesReceived ≠ 0 ∧
          o = .proceed { s with status := .finalizing } ∧
          db' = db.saveSession { s with status := .finalizing })) := by
  unfold finalizeLockTx at h
  simp only [bind, Except.bind, pure, Except.pure, throw, throwThe, MonadExceptOf.throw] at h
  repeat' split at h
  all_goals first | cases h; done | skip
  · cases h; exact ⟨_, ‹_›, .inl ⟨‹_›, _, ‹_›, rfl, rfl⟩⟩
  · cases h; exact ⟨_, ‹_›, .inr ⟨‹_›, ‹_›, ‹_›, ‹_›, rfl, rfl⟩⟩

theorem finalizeLockTx_edit {u : String} {k : Int} {db db' : Db} {o : LockOutcome}
    (h : finalizeLockTx u k db = .ok (o, db')) : db.SessionEdit db' := by
  obtain ⟨s, hget, ⟨-, -, -, -, rfl⟩ | ⟨-, -, -, -, -, rfl⟩⟩ := finalizeLockTx_ok h
  exacts [.inl rfl, .save hget _ rfl rfl]

theorem finalizeLockTx_session {u : String} {k : Int} {db db' : Db} {o : LockOutcome}
    (h : finalizeLockTx u k db = .ok (o, db')) : ∃ s ∈ db.sessions, s.id = u ∧ s.userId = k := by
  obtain ⟨s, hget, -⟩ := finalizeLockTx_ok h
  exact ⟨s, getUploadSessionForUserForUpdate_some hget⟩

theorem cancelTx_edit {u : String} {k : Int} {db db' : Db} (h : cancelTx u k db = .ok ((), db')) :
    db.SessionEdit db' := by
  obtain ⟨s, hget, -, rfl⟩ := cancelTx_ok h
  exact .save hget _ rfl rfl

/-! ### The other blocks -/

theorem not_any_iff {α : Type} {l : List α} {p : α → Prop} [DecidablePred p] :
    ¬(l.any fun x => decide (p x)) = true ↔ ∀ x ∈ l, ¬p x := by
  simp

theorem createUploadSession_ok {db : Db} {s : UploadSession} {r : UploadSession × Db}
    (h : db.createUploadSession s = .ok r) :
    (∀ x ∈ db.sessions, x.id ≠ s.id) ∧ r = (s, { db with sessions := db.sessions ++ [s] }) := by
  unfold Db.createUploadSession at h
  simp only [bind, Except.bind, pure, Except.pure, throw, throwThe, MonadExceptOf.throw] at h
  split at h
  · cases h
  · cases h; exact ⟨not_any_iff.mp ‹_›, rfl⟩

theorem initUploadSession_ok {svc : SoftwarePackageService} {k : Int} {f : PackageForm}
    {m : Option Int} {u : String} {db db' : Db} {r : UploadInitResult}
    (h : svc.initUploadSession k f m u db = .ok (r, db')) :
    ∃ s : UploadSession, s.id = u ∧ s.userId = k ∧ s.status = .pending ∧ s.bytesReceived = 0 ∧
      s.completedFileVersionId = none ∧ (∀ x ∈ db.sessions, x.id ≠ u) ∧
      db' = { db with sessions := db.sessions ++ [s] } := by
  unfold SoftwarePackageService.initUploadSession at h
  obtain ⟨_, -, h⟩ := Except.bind_eq_ok h
  obtain ⟨-, h⟩ := Except.ite_throw_eq_ok h
  obtain ⟨_, -, h⟩ := Except.bind_eq_ok h
  obtain ⟨-, h⟩ := Except.ite_throw_eq_ok h
  obtain ⟨-, h⟩ := Except.ite_throw_eq_ok h
  obtain ⟨_, hc, h⟩ := Except.bind_eq_ok h
  obtain ⟨hf, rfl⟩ := createUploadSession_ok hc
  cases h
  exact ⟨_, rfl, rfl, rfl, rfl, rfl, hf, rfl⟩

/-- The quota block commits only within the user's quota, and writes nothing. -/
theorem quotaTx_ok {svc : SoftwarePackageService} {k : Int} {n : Nat} {db db' : Db}
    (h : quotaTx svc k n db = .ok ((), db')) :
    db' = db ∧ db.getTotalUploadedBytesForUser k + n ≤ svc.userQuotaBytes := by
  unfold quotaTx at h
  simp only [bind, Except.bind, pure, Except.pure, throw, throwThe, MonadExceptOf.throw] at h
  split at h
  · cases h
  · cases h; exact ⟨rfl, by omega⟩

theorem getDownloadTicketTx_ok {p v : Nat} {db db' : Db} {t : DownloadTicket}
    (h : getDownloadTicketTx p v db = .ok (t, db')) :
    ∃ w ∈ db.versions, db' = db.saveFileVersion (Db.incrementFileVersionDownloadCount w) := by
  unfold getDownloadTicketTx at h
  simp only [bind, Except.bind, pure, Except.pure, throw, throwThe, MonadExceptOf.throw] at h
  repeat' split at h
  all_goals first | cases h; done | skip
  cases h
  rename_i w hw _ _ _ _
  exact ⟨w, (List.mem_filter.mp ((scalarOneOrNone_some hw).symm ▸ List.mem_singleton_self w)).1,
    rfl⟩

theorem blobLookupTx_ok {c : String} {n : Nat} {db db' : Db} {r : Option Nat}
    (h : blobLookupTx c n db = .ok (r, db')) :
    (r = none ∧ db' = db ∧ ∀ b ∈ db.blobs, ¬(b.checksumSha256 = c ∧ b.sizeBytes = n)) ∨
      ∃ b ∈ db.blobs, b.checksumSha256 = c ∧ b.sizeBytes = n ∧ r = some b.id ∧
        db' = db.saveBlob (Db.incrementBlobRefcount b) := by
  unfold blobLookupTx at h
  simp only [bind, Except.bind, pure, Except.pure] at h
  repeat' split at h
  all_goals first | cases h; done | skip
  · cases h
    obtain ⟨hb, hc, hn⟩ := getBlobByChecksumAndSize_some ‹_›
    exact .inr ⟨_, hb, hc, hn, rfl, rfl⟩
  · cases h
    exact .inl ⟨rfl, rfl, getBlobByChecksumAndSize_none ‹_›⟩

theorem addBlob_ok {db : Db} {c : String} {n : Nat} {k : String} {r : FileBlob × Db}
    (h : db.addBlob c n k = .ok r) :
    r = (FileBlob.mk (nextRowId (db.blobs.map (·.id))) c n k 1,
      { db with blobs := db.blobs ++ [FileBlob.mk (nextRowId (db.blobs.map (·.id))) c n k 1] }) := by
  unfold Db.addBlob at h
  simp only [bind, Except.bind, pure, Except.pure, throw, throwThe, MonadExceptOf.throw] at h
  repeat' split at h
  all_goals first | cases h; done | skip
  cases h; rfl

theorem blobReconcileTx_ok {c : String} {n : Nat} {k : String} {db db' : Db} {r : Nat}
    (h : blobReconcileTx c n k db = .ok (r, db')) :
    (∃ b ∈ db.blobs, b.checksumSha256 = c ∧ b.sizeBytes = n ∧ r = b.id ∧
        db' = db.saveBlob (Db.incrementBlobRefcount b)) ∨
      (r = nextRowId (db.blobs.map (·.id)) ∧ (∀ b ∈ db.blobs, ¬(b.checksumSha256 = c ∧ b.sizeBytes = n)) ∧
        db' = { db with blobs := db.blobs ++ [FileBlob.mk r c n k 1] }) := by
  unfold blobReconcileTx at h
  simp only [bind, Except.bind, pure, Except.pure] at h
  repeat' split at h
  all_goals first | cases h; done | skip
  · cases h
    obtain ⟨hb, hc, hn⟩ := getBlobByChecksumAndSize_some ‹_›
    exact .inl ⟨_, hb, hc, hn, rfl, rfl⟩
  · obtain rfl := addBlob_ok ‹_›
    cases h
    exact .inr ⟨rfl, getBlobByChecksumAndSize_none ‹_›, rfl⟩

theorem upsertPackage_ok {db db1 : Db} {o : Int} {nm d c l : String} {pub : Bool} {lv : String}
    {pkg : SoftwarePackage} (h : db.upsertPackage o nm d c l pub lv = .ok (pkg, db1)) :
    pkg.ownerId = o ∧ pkg.name = nm ∧ pkg.latestVersion = some lv ∧
      ((∃ p ∈ db.packages, p.ownerId = o ∧ p.name = nm ∧ pkg.id = p.id ∧ db1 = db.savePackage pkg) ∨
        (pkg.id = nextRowId (db.packages.map (·.id)) ∧
          (∀ q ∈ db.packages, ¬(q.ownerId = o ∧ q.name = nm)) ∧
          db1 = { db with packages := db.packages ++ [pkg] })) := by
  unfold Db.upsertPackage at h
  simp only [bind, Except.bind, pure, Except.pure, throw, throwThe, MonadExceptOf.throw] at h
  repeat' split at h
  all_goals first | cases h; done | skip
  · cases h
    rename_i p hp
    have := (List.mem_filter.mp ((scalarOneOrNone_some hp).symm ▸ List.mem_singleton_self p))
    simp only [decide_eq_true_eq] at this
    exact ⟨this.2.1, this.2.2, rfl, .inl ⟨p, this.1, this.2.1, this.2.2, rfl, rfl⟩⟩
  · cases h
    exact ⟨rfl, rfl, rfl, .inr ⟨rfl, not_any_iff.mp ‹_›, rfl⟩⟩

theorem addFileVersion_ok {db : Db} {p b : Nat} {fn : String} {ct : Option String} {ver : String}
    {n : Nat} {c : String} {r : FileVersion × Db}
    (h : db.addFileVersion p b fn ct ver n c = .ok r) :
    (∀ v ∈ db.versions, ¬(v.packageId = p ∧ v.version = ver)) ∧
      r = (FileVersion.mk (nextRowId (db.versions.map (·.id))) p b fn ct ver n c 0,
        { db with versions := db.versions ++
            [FileVersion.mk (nextRowId (db.versions.map (·.id))) p b fn ct ver n c 0] }) := by
  unfold Db.addFileVersion at h
  simp only [bind, Except.bind, pure, Except.pure, throw, throwThe, MonadExceptOf.throw] at h
  split at h
  · cases h
  · cases h; exact ⟨not_any_iff.mp ‹_›, rfl⟩

theorem versionInsertTx_ok {a : FinalizeArgs} {s : UploadSession} {b : Nat} {db db' : Db}
    {r : Nat} (h : versionInsertTx a s b db = .ok (r, db')) :
    ∃ pkg db1 sess, db.upsertPackage a.userId s.packageName s.packageDescription s.packageCategory
        s.packageLanguage s.isPublic s.packageVersion = .ok (pkg, db1) ∧
      (db1.getBlobById b).isSome ∧
      (∀ v ∈ db1.versions, ¬(v.packageId = pkg.id ∧ v.version = s.packageVersion)) ∧
      r = nextRowId (db1.versions.map (·.id)) ∧
      sess ∈ db1.sessions ∧ sess.id = a.uploadId ∧ sess.userId = a.userId ∧
      db' = ({ db1 with versions := db1.versions ++
            [FileVersion.mk r pkg.id b s.fileName s.contentType s.packageVersion a.sizeBytes a.checksum 0] }
          ).saveSession { sess with status := .completed, completedFileVersionId := some r,
                                    errorMessage := none } := by
  unfold versionInsertTx at h
  simp only [bind, Except.bind, pure, Except.pure, throw, throwThe, MonadExceptOf.throw] at h
  repeat' split at h
  all_goals first | cases h; done | skip
  rename_i hup hb _ _ hv _ _ sess hsess
  obtain ⟨hdup, rfl⟩ := addFileVersion_ok hv
  obtain ⟨hmem, hid, huid⟩ := getUploadSessionForUserForUpdate_some hsess
  cases h
  exact ⟨_, _, sess, hup, Option.isSome_iff_ne_none.mpr (by simpa using hb), hdup, rfl, hmem, hid, huid, rfl⟩

theorem length_filter_le_one {α β : Type} [DecidableEq β] {l : List α} {f : α → β}
    (hnd : (l.map f).Nodup) {p : α → Bool} {c : β} (hp : ∀ x ∈ l, p x = true → f x = c) :
    (l.filter p).length ≤ 1 := by
  have hs : ((l.filter p).map f).Nodup := hnd.sublist ((List.filter_sublist l).map f)
  match hl : l.filter p, hs with
  | [], _ => simp
  | [_], _ => simp
  | x :: y :: t, hs =>
    have hx : x ∈ l.filter p := hl ▸ List.mem_cons_self _ _
    have hy : y ∈ l.filter p := hl ▸ List.mem_cons_of_mem _ (List.mem_cons_self _ _)
    rw [List.mem_filter] at hx hy
    have := (List.nodup_cons.mp hs).1
    simp [hp x hx.1 hx.2, hp y hy.1 hy.2] at this

theorem compensateTx_run {a : FinalizeArgs} {b : Nat} {db : Db} {B : FileBlob}
    (hB : db.getBlobByChecksumAndSize a.checksum a.sizeBytes = .ok (some B)) (hid : B.id = b)
    (hs : (db.sessions.filter fun s => s.id = a.uploadId ∧ s.userId = a.userId).length ≤ 1) :
    ∃ db', compensateTx a b db = .ok ((), db') ∧
      (db.saveBlob (Db.decrementBlobRefcount B)).SessionEdit db' := by
  unfold compensateTx
  simp only [bind, Except.bind, pure, Except.pure, hB, hid, if_true, Db.getUploadSessionForUserForUpdate,
    Db.saveBlob_sessions, scalarOneOrNone_of_length hs]
  cases hh : (db.sessions.filter fun s => s.id = a.uploadId ∧ s.userId = a.userId).head? with
  | none => exact ⟨_, rfl, .inl rfl⟩
  | some s =>
    have := List.mem_filter.mp (List.mem_of_mem_head? hh)
    refine ⟨_, rfl, .inr ⟨s, this.1, ?_⟩⟩
    exact ⟨{ s with status := .failed, errorMessage := some "Version already exists for this package" },
      rfl, rfl, rfl⟩

/-- What the compensating block does when it commits: it gives back the reference
    on the payload's blob when that blob is `blob_id`, then marks the session
    FAILED. -/
theorem compensateTx_ok {a : FinalizeArgs} {b : Nat} {db db' : Db}
    (h : compensateTx a b db = .ok ((), db')) :
    ∃ db1, (db1 = db ∨ ∃ d ∈ db.blobs, d.id = b ∧ db1 = db.saveBlob (Db.decrementBlobRefcount d)) ∧
      (db' = db1 ∨ ∃ s, db1.getUploadSessionForUserForUpdate a.uploadId a.userId = .ok (some s) ∧
        db' = db1.saveSession
          { s with status := .failed, errorMessage := some "Version already exists for this package" }) := by
  unfold compensateTx at h
  simp only [bind, Except.bind, pure, Except.pure, throw, throwThe, MonadExceptOf.throw] at h
  repeat' split at h
  all_goals first | cases h; done | skip
  all_goals cases h
  all_goals first
    | exact ⟨_, .inr ⟨_, (getBlobByChecksumAndSize_some ‹_›).1, ‹_›, rfl⟩, .inr ⟨_, ‹_›, rfl⟩⟩
    | exact ⟨_, .inr ⟨_, (getBlobByChecksumAndSize_some ‹_›).1, ‹_›, rfl⟩, .inl rfl⟩
    | exact ⟨_, .inl rfl, .inr ⟨_, ‹_›, rfl⟩⟩
    | exact ⟨_, .inl rfl, .inl rfl⟩

theorem compensateTx_edit {a : FinalizeArgs} {b : Nat} {db db' : Db}
    (h : compensateTx a b db = .ok ((), db')) :
    ∃ db1, (db1 = db ∨ ∃ d ∈ db.blobs, d.id = b ∧ db1 = db.saveBlob (Db.decrementBlobRefcount d)) ∧
      db1.SessionEdit db' := by
  obtain ⟨db1, h1, rfl | ⟨s, hget, rfl⟩⟩ := compensateTx_ok h
  exacts [⟨_, h1, .inl rfl⟩, ⟨_, h1, .save hget _ rfl rfl⟩]

theorem deletePackageTx_ok {p : Nat} {u : Int} {db db' : Db} {keys : List String}
    (h : deletePackageTx p u db = .ok (keys, db')) :
    ∃ pkg, db.getPackageById p = some pkg ∧ pkg.ownerId = u ∧
      db' = (deleteVersionsLoop (db.listAllFileVersionsForPackage p) db []).1.deletePackage pkg ∧
      keys = (deleteVersionsLoop (db.listAllFileVersionsForPackage p) db []).2 := by
  unfold deletePackageTx at h
  simp only [bind, Except.bind, pure, Except.pure, throw, throwThe, MonadExceptOf.throw] at h
  repeat' split at h
  all_goals first | cases h; done | skip
  cases h
  exact ⟨_, ‹_›, not_not.mp ‹_›, rfl, rfl⟩

theorem upsertPackage_error {db : Db} {o : Int} {nm d c l : String} {pub : Bool} {lv : String}
    {e : Err} (hpk : (db.packages.filter fun p => p.ownerId = o ∧ p.name = nm).length ≤ 1)
    (h : db.upsertPackage o nm d c l pub lv = .error e) : e.isIntegrity := by
  unfold Db.upsertPackage Db.getPackageByOwnerAndName at h
  simp only [bind, Except.bind, pure, Except.pure, throw, throwThe, MonadExceptOf.throw,
    scalarOneOrNone_of_length hpk] at h
  repeat' split at h
  all_goals first | cases h; done | skip
  cases h; rfl

theorem addFileVersion_error {db : Db} {p b : Nat} {fn : String} {ct : Option String}
    {ver : String} {n : Nat} {c : String} {e : Err}
    (h : db.addFileVersion p b fn ct ver n c = .error e) : e.isIntegrity := by
  unfold Db.addFileVersion at h
  simp only [bind, Except.bind, pure, Except.pure, throw, throwThe, MonadExceptOf.throw] at h
  split at h
  · cases h; rfl
  · cases h

theorem upsertPackage_tables {db db1 : Db} {o : Int} {nm d c l : String} {pub : Bool}
    {lv : String} {pkg : SoftwarePackage} (h : db.upsertPackage o nm d c l pub lv = .ok (pkg, db1)) :
    db1.blobs = db.blobs ∧ db1.versions = db.versions ∧ db1.sessions = db.sessions := by
  obtain ⟨-, -, -, ⟨-, -, -, -, -, rfl⟩ | ⟨-, -, rfl⟩⟩ := upsertPackage_ok h <;> exact ⟨rfl, rfl, rfl⟩

theorem versionInsertTx_error {a : FinalizeArgs} {s : UploadSession} {b : Nat} {db : Db} {e : Err}
    (hpk : (db.packages.filter fun p => p.ownerId = a.userId ∧ p.name = s.packageName).length ≤ 1)
    (hb : (db.getBlobById b).isSome)
    (hs : ∃ r ∈ db.sessions, r.id = a.uploadId ∧ r.userId = a.userId)
    (hsu : (db.sessions.filter fun r => r.id = a.uploadId ∧ r.userId = a.userId).length ≤ 1)
    (h : versionInsertTx a s b db = .error e) : e.isIntegrity := by
  unfold versionInsertTx at h
  cases hup : db.upsertPackage a.userId s.packageName s.packageDescription s.packageCategory
      s.packageLanguage s.isPublic s.packageVersion with
  | error e' =>
    simp only [hup, bind, Except.bind, Except.error.injEq] at h
    exact h ▸ upsertPackage_error hpk hup
  | ok r =>
    obtain ⟨pkg, db1⟩ := r
    obtain ⟨hb1, -, hs1⟩ := upsertPackage_tables hup
    have hb' : (db1.getBlobById b).isNone = false := by
      simpa [Db.getBlobById, hb1] using hb
    simp only [hup, hb', bind, Except.bind, pure, Except.pure, throw, throwThe,
      MonadExceptOf.throw, Bool.false_eq_true, if_false] at h
    cases hadd : db1.addFileVersion pkg.id b s.fileName s.contentType s.packageVersion a.sizeBytes
        a.checksum with
    | error e' =>
      simp only [hadd, Except.error.injEq] at h
      exact h ▸ addFileVersion_error hadd
    | ok r =>
      obtain ⟨-, rfl⟩ := addFileVersion_ok hadd
      obtain ⟨x, hx, hxid, hxuid⟩ := hs
      have hsu1 : (db1.sessions.filter fun r => r.id = a.uploadId ∧ r.userId = a.userId).length ≤ 1 := by
        rw [hs1]; exact hsu
      have hne : (db1.sessions.filter fun r => r.id = a.uploadId ∧ r.userId = a.userId) ≠ [] :=
        List.ne_nil_of_mem (List.mem_filter.mpr ⟨hs1 ▸ hx, by simp [hxid, hxuid]⟩)
      simp only [hadd, Db.getUploadSessionForUserForUpdate, scalarOneOrNone_of_length hsu1] at h
      cases hh : (db1.sessions.filter fun r => r.id = a.uploadId ∧ r.userId = a.userId).head? with
      | none => exact absurd (List.head?_eq_none_iff.mp hh) hne
      | some r => rw [hh] at h; cases h

end TechPulse
