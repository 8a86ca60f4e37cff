import TechPulse.Packages

/-!
# The append contract

`append_upload_stream` (`app/services/software_package_service.py`, lines 157–212)
checks the session in its first block, writes the chunks to the temp file, and
records `get_upload_size` as the session's `bytes_received`, or, when a chunk
would pass `max_size_bytes`, records it and marks the session FAILED.

The offset it returns is the size of the temp file, not `expected_offset` plus
what it wrote: the two agree when `bytes_received` is the size of the temp file
to begin with. In runs that make one call at a time this holds of every PENDING
or UPLOADING session between calls, as long as I/O fails only where the code
catches the fault: in the chunk loop, whose `except` handler re-reads the size
and marks the session FAILED, and in `delete_object`, whose failure is logged
(`append_contract`). It rests on two facts about every step of every call: it
touches only the session row and the temp file of its own upload id
(`Proc.step_frame`), and it leaves its own session recording the size of its
temp file once it returns (`Proc.step_tracked`, and `Proc.step_caught` for a
caught fault). The conflict check needs neither: it holds in every reachable
state.

The last `get_upload_size` and block stand outside that `try`. When
`get_upload_size` fails after a chunk was written, the session stays UPLOADING
with a stale `bytes_received`, and the next append returns an offset past what
it was sent (`append_offset_after_fault`).
-/

namespace TechPulse

/-! ### Writable sessions -/

/-- The statuses in which `append_upload_stream` takes chunks: PENDING and UPLOADING. -/
def UploadStatus.writable : UploadStatus → Bool
  | .pending | .uploading => true
  | _ => false

theorem UploadStatus.writable_iff (st : UploadStatus) :
    st.writable = true ↔ st ∉ [.completed, .failed, .finalizing] := by
  cases st <;> decide

/-! ### Temp files apart -/

namespace Storage

/-- Every temp file has an inode of its own, below `nextInode`. -/
structure WF (s : Storage) : Prop where
  temp_lt : ∀ u i, s.temp u = some i → i < s.nextInode
  temp_inj : ∀ u v i, s.temp u = some i → s.temp v = some i → u = v

theorem wf_empty : Storage.empty.WF := ⟨fun _ _ h => (nomatch h), fun _ _ _ h => (nomatch h)⟩

/-- `s'` keeps the temp files apart, and every temp file but that of upload `own`
    has the size it had in `s`. -/
def Frame (own : Option String) (s s' : Storage) : Prop :=
  s'.WF ∧ ∀ v, own ≠ some v → s'.getUploadSize v = s.getUploadSize v

theorem Frame.refl {s : Storage} (h : s.WF) (own : Option String) : s.Frame own s :=
  ⟨h, fun _ _ => rfl⟩

theorem Frame.of_eq {s s' : Storage} (h : s.WF) (e : s' = s) (own : Option String) : s.Frame own s' :=
  e ▸ .refl h own

/-- A change that keeps every other temp file's name and the bytes of its inode. -/
theorem Frame.of_temp {s s' : Storage} {u : String} (h' : s'.WF)
    (hname : ∀ v, v ≠ u → s'.temp v = s.temp v)
    (hinode : ∀ v j, v ≠ u → s.temp v = some j → s'.inodes j = s.inodes j) :
    s.Frame (some u) s' := by
  refine ⟨h', fun v hv => ?_⟩
  have hv : v ≠ u := fun e => hv (e ▸ rfl)
  unfold getUploadSize
  rw [hname v hv]
  split
  · rw [hinode v _ hv ‹_›]
  · rfl

theorem WF.createTemp {s : Storage} (h : s.WF) (u : String) (data : Bytes) :
    s.Frame (some u) (s.createTemp u data) := by
  have hlt : ∀ v j, v ≠ u → s.temp v = some j → j ≠ s.nextInode := fun v j _ hj e =>
    absurd (h.temp_lt v j hj) (by omega)
  refine .of_temp ⟨fun v i hi => ?_, fun v v' i hv hv' => ?_⟩ (fun _ hv => setName_other _ _ hv)
    fun v j hv hj => setInode_other _ _ (hlt v j hv hj)
  · simp only [Storage.createTemp, setName] at hi
    split at hi
    · cases hi; exact Nat.lt_succ_self _
    · exact Nat.lt_succ_of_lt (h.temp_lt v i hi)
  · simp only [Storage.createTemp, setName] at hv hv'
    split at hv <;> split at hv'
    · subst_vars; rfl
    · cases hv; exact absurd rfl (hlt v' _ ‹_› hv')
    · cases hv'; exact absurd rfl (hlt v _ ‹_› hv)
    · exact h.temp_inj v v' i hv hv'

/-- Rewriting the inode of temp file `u` keeps every other temp file. -/
theorem WF.rewriteInode {s : Storage} (h : s.WF) {u : String} {i : Nat} (hi : s.temp u = some i)
    (data : Bytes) : s.Frame (some u) { s with inodes := setInode s.inodes i data } :=
  .of_temp ⟨h.temp_lt, h.temp_inj⟩ (fun _ _ => rfl) fun v _ hv hj =>
    setInode_other _ _ fun e => hv (h.temp_inj v u i (e ▸ hj) hi)

theorem WF.initUpload {s : Storage} (h : s.WF) (u : String) : s.Frame (some u) (s.initUpload u) := by
  unfold Storage.initUpload
  split
  exacts [h.rewriteInode ‹_› _, h.createTemp u []]

theorem WF.appendUploadChunk {s : Storage} (h : s.WF) (u : String) (c : Bytes) :
    s.Frame (some u) (s.appendUploadChunk u c) := by
  unfold Storage.appendUploadChunk
  split
  exacts [h.rewriteInode ‹_› _, h.createTemp u c]

/-- `abort_upload` only removes a name. -/
theorem temp_abortUpload {s : Storage} {u v : String} {i : Nat} (h : (s.abortUpload u).temp v = some i) :
    s.temp v = some i := by
  by_cases e : v = u
  · simp [Storage.abortUpload, e] at h
  · rwa [← setName_other s.temp none e]

theorem WF.abortUpload {s : Storage} (h : s.WF) (u : String) : s.Frame (some u) (s.abortUpload u) :=
  .of_temp ⟨fun v i hi => h.temp_lt v i (temp_abortUpload hi),
    fun v v' i hv hv' => h.temp_inj v v' i (temp_abortUpload hv) (temp_abortUpload hv')⟩
    (fun _ hv => setName_other _ _ hv) fun _ _ _ _ => rfl

theorem WF.promoteUpload {s s' : Storage} (h : s.WF) {u k : String} {b : Bool}
    (hp : s.promoteUpload u k = .ok (b, s')) : s.Frame (some u) s' := by
  unfold Storage.promoteUpload at hp
  simp only [bind, Except.bind, pure, Except.pure, throw, throwThe, MonadExceptOf.throw] at hp
  repeat' split at hp
  all_goals first | cases hp; done | skip
  · cases hp; exact h.abortUpload u
  · cases hp
    have ha := h.abortUpload u
    exact ⟨⟨ha.1.temp_lt, ha.1.temp_inj⟩, ha.2⟩

theorem WF.deleteObject {s s' : Storage} (h : s.WF) {k : String} (hd : s.deleteObject k = .ok s')
    (own : Option String) : s.Frame own s' := by
  unfold Storage.deleteObject at hd
  simp only [bind, Except.bind, pure, Except.pure] at hd
  split at hd <;> cases hd
  exact ⟨⟨h.temp_lt, h.temp_inj⟩, fun _ _ => rfl⟩

end Storage

/-! ### What the session blocks commit -/

section Blocks

variable {u : String} {k : Int} {db db' : Db}

/-- The first block of a finalization raises on a PENDING or UPLOADING session only
    when it holds no byte. -/
theorem finalizeLockTx_error {s : UploadSession} {e : Err}
    (hget : db.getUploadSessionForUserForUpdate u k = .ok (some s)) (hw : s.status.writable)
    (h : finalizeLockTx u k db = .error e) : s.bytesReceived = 0 := by
  cases hs : s.status <;> rw [hs] at hw <;> try cases hw
  all_goals
    simp only [finalizeLockTx, hget, hs, bind, Except.bind, pure, Except.pure, throw, throwThe,
      MonadExceptOf.throw, reduceCtorEq, if_false] at h
    split at h
    · assumption
    · cases h

theorem compensateTx_sessions {a : FinalizeArgs} {b : Nat} (h : compensateTx a b db = .ok ((), db')) :
    db'.sessions = db.sessions ∨ ∃ s ∈ db.sessions, s.id = a.uploadId ∧
      db'.sessions = (db.saveSession
        { s with status := .failed, errorMessage := some "Version already exists for this package" }).sessions := by
  obtain ⟨db1, h1, h2⟩ := compensateTx_ok h
  have hs : db1.sessions = db.sessions := by rcases h1 with rfl | ⟨d, -, -, rfl⟩ <;> rfl
  rcases h2 with rfl | ⟨s, hget, rfl⟩
  · exact .inl hs
  · obtain ⟨hm, hid, -⟩ := getUploadSessionForUserForUpdate_some hget
    exact .inr ⟨s, hs ▸ hm, hid, by simp only [Db.saveSession, hs]⟩

theorem appendFailTx_of_found {s : UploadSession}
    (hget : db.getUploadSessionForUserForUpdate u k = .ok (some s)) (n : Nat) :
    appendFailTx u k n db = .ok ((), db.saveSession { s with bytesReceived := n, status := .failed,
                                                               errorMessage := some "Chunk append failed" }) := by
  simp [appendFailTx, hget, bind, Except.bind, pure, Except.pure]

theorem appendFinishTx_of_found {s : UploadSession}
    (hget : db.getUploadSessionForUserForUpdate u k = .ok (some s)) (n : Nat) :
    appendFinishTx u k n db = .ok (⟨u, n, UploadStatus.uploading.text⟩,
      db.saveSession { s with bytesReceived := n, status := .uploading, errorMessage := none }) := by
  simp [appendFinishTx, hget, bind, Except.bind, pure, Except.pure]

theorem appendLockTx_conflict {o : Int} {s : UploadSession}
    (hget : db.getUploadSessionForUserForUpdate u k = .ok (some s))
    (hbad : s.status.writable = false ∨ (s.bytesReceived : Int) ≠ o) :
    ∃ msg, appendLockTx u k o db = .error (.conflict msg) := by
  by_cases hw : s.status ∈ [.completed, .failed, .finalizing]
  · exact ⟨_, by simp [appendLockTx, hget, hw, bind, Except.bind, throw, throwThe, MonadExceptOf.throw]; rfl⟩
  · have ho : (s.bytesReceived : Int) ≠ o :=
      hbad.resolve_left (by rw [(UploadStatus.writable_iff _).mpr hw]; decide)
    exact ⟨_, by simp [appendLockTx, hget, hw, ho, bind, Except.bind, throw, throwThe, MonadExceptOf.throw]; rfl⟩

theorem appendLockTx_proceed {o : Int} {s : UploadSession}
    (hget : db.getUploadSessionForUserForUpdate u k = .ok (some s)) (hw : s.status.writable)
    (ho : (s.bytesReceived : Int) = o) :
    appendLockTx u k o db = .ok (s.maxSizeBytes, db.saveSession { s with status := .uploading }) := by
  have hw' := (UploadStatus.writable_iff _).mp hw
  simp [appendLockTx, hget, hw', ho, bind, Except.bind, pure, Except.pure]

end Blocks

/-! ### Each call touches its own upload only -/

/-- Every session row of `db'` but those of upload `own` is a row of `db`. -/
def Db.OthersKept (own : Option String) (db db' : Db) : Prop :=
  ∀ x ∈ db'.sessions, own ≠ some x.id → x ∈ db.sessions

theorem Db.OthersKept.of_sessions {db db' : Db} (h : db'.sessions = db.sessions) (own : Option String) :
    db.OthersKept own db' := fun _ hx _ => h ▸ hx

/-- A saved row replaces the rows of its id and keeps the others. -/
theorem Db.mem_saveSession {db : Db} {r x : UploadSession} (hx : x ∈ (db.saveSession r).sessions) :
    x = r ∨ (x.id ≠ r.id ∧ x ∈ db.sessions) := by
  obtain ⟨y, hy, rfl⟩ := List.mem_map.mp hx
  by_cases e : y.id = r.id
  · exact .inl (if_pos e)
  · exact .inr (by simpa [e] using hy)

/-- Saving a row twice keeps the second. -/
theorem Db.saveSession_saveSession (db : Db) {r s : UploadSession} (hid : s.id = r.id) :
    (db.saveSession r).saveSession s = db.saveSession s := by
  simp only [Db.saveSession, List.map_map]
  congr 2
  funext x
  by_cases e : x.id = r.id <;> simp [e, hid]

theorem Db.OthersKept.saveSession {db : Db} {u : String} {r : UploadSession} (hid : r.id = u) :
    db.OthersKept (some u) (db.saveSession r) := fun _ hx hne =>
  (Db.mem_saveSession hx).elim (fun e => absurd (e ▸ hid ▸ rfl) hne) (·.2)

theorem Db.OthersKept.saveFound {db : Db} {u : String} {k : Int} {s r : UploadSession}
    (hget : db.getUploadSessionForUserForUpdate u k = .ok (some s)) (hid : r.id = s.id) :
    db.OthersKept (some u) (db.saveSession r) :=
  .saveSession (hid.trans (getUploadSessionForUserForUpdate_some hget).2.1)

theorem Db.OthersKept.addSession {db : Db} {u : String} {s : UploadSession} (hid : s.id = u) :
    db.OthersKept (some u) { db with sessions := db.sessions ++ [s] } := fun x hx hne =>
  (List.mem_append.mp hx).resolve_right fun h => hne (by rw [List.mem_singleton.mp h, hid])

/-- A step that touches at most the session rows and the temp file of upload `own`. -/
def World.Frame (own : Option String) (w w' : World) : Prop :=
  w.storage.Frame own w'.storage ∧ w.db.OthersKept own w'.db

theorem World.Frame.refl {w : World} (hs : w.storage.WF) (own : Option String) : w.Frame own w :=
  ⟨.refl hs own, .of_sessions rfl own⟩

theorem World.Frame.tx {α : Type} {w w' : World} {block : Db → Except Err (α × Db)} {r : Except Err α}
    (hs : w.storage.WF) (hT : w.tx block = (r, w')) {own : Option String}
    (hok : ∀ a db', block w.db = .ok (a, db') → w.db.OthersKept own db') : w.Frame own w' :=
  ⟨.of_eq hs (World.tx_storage hT) own, World.tx_db hT (.of_sessions rfl own) hok⟩

theorem World.Frame.withStorage {w : World} {st : Storage} {own : Option String}
    (hf : w.storage.Frame own st) : w.Frame own (w.withStorage st) :=
  ⟨hf, .of_sessions rfl own⟩

/-- A finalization step touches the session and the temp file of its upload only. -/
theorem FinalizePc.run_frame {svc : SoftwarePackageService} {fa : FinalizeArgs} {w w' : World}
    {pc pc' : FinalizePc} (hs : w.storage.WF) (h : pc.run svc fa w = (pc', w')) :
    w.Frame (some fa.uploadId) w' := by
  have hstorage : w.storage.Frame (some fa.uploadId) w'.storage := by
    cases pc <;> simp only [FinalizePc.run] at h <;> (repeat' split at h) <;> cases h <;>
      first
      | exact .refl hs _
      | exact .of_eq hs (World.tx_storage ‹_›) _
      | exact hs.abortUpload _
      | exact hs.promoteUpload ‹_›
  refine ⟨hstorage, ?_⟩
  rcases run_db h with e | ⟨-, o, hb⟩ | ⟨r, hb⟩ | ⟨r, hb⟩ | ⟨s, b, r, -, -, hb⟩ | ⟨b, -, hb⟩
  · exact .of_sessions (congrArg Db.sessions e) _
  · obtain ⟨x, hx, ⟨-, -, -, -, e⟩ | ⟨-, -, -, -, -, e⟩⟩ := finalizeLockTx_ok hb
    · exact .of_sessions (congrArg Db.sessions e) _
    · exact e ▸ .saveFound hx rfl
  · rcases blobLookupTx_ok hb with ⟨-, e, -⟩ | ⟨B, -, -, -, -, e⟩ <;>
      exact .of_sessions (congrArg Db.sessions e) _
  · rcases blobReconcileTx_ok hb with ⟨B, -, -, -, -, e⟩ | ⟨-, -, e⟩ <;>
      exact .of_sessions (congrArg Db.sessions e) _
  · obtain ⟨pkg, db1, sess, hup, -, -, -, -, hid, -, e⟩ := versionInsertTx_ok hb
    intro x hx hne
    rw [e] at hx
    rcases Db.mem_saveSession hx with rfl | ⟨-, hx⟩
    · exact absurd (by rw [hid]) hne
    · exact (upsertPackage_tables hup).2.2 ▸ hx
  · rcases compensateTx_sessions hb with e | ⟨x, -, hid, e⟩
    · exact .of_sessions e _
    · intro y hy hne
      rw [e] at hy
      exact ((Db.mem_saveSession hy).resolve_left fun e' => hne (by rw [e', ← hid])).2

section Kept

variable {u : String} {k : Int} {db db' : Db}

theorem appendLockTx_kept {o : Int} {m : Nat} (h : appendLockTx u k o db = .ok (m, db')) :
    db.OthersKept (some u) db' := by
  obtain ⟨s, hget, -, -, -, rfl⟩ := appendLockTx_ok h
  exact .saveFound hget rfl

theorem appendFailTx_kept {n : Nat} (h : appendFailTx u k n db = .ok ((), db')) :
    db.OthersKept (some u) db' := by
  rcases appendFailTx_ok h with ⟨-, rfl⟩ | ⟨s, hget, rfl⟩
  exacts [.of_sessions rfl _, .saveFound hget rfl]

theorem appendFinishTx_kept {n : Nat} {r : UploadAppendResult}
    (h : appendFinishTx u k n db = .ok (r, db')) : db.OthersKept (some u) db' := by
  obtain ⟨s, hget, -, rfl⟩ := appendFinishTx_ok h
  exact .saveFound hget rfl

theorem cancelTx_kept (h : cancelTx u k db = .ok ((), db')) : db.OthersKept (some u) db' := by
  obtain ⟨s, hget, -, rfl⟩ := cancelTx_ok h
  exact .saveFound hget rfl

theorem initUploadSession_kept {svc : SoftwarePackageService} {f : PackageForm} {m : Option Int}
    {r : UploadInitResult} (h : svc.initUploadSession k f m u db = .ok (r, db')) :
    db.OthersKept (some u) db' := by
  obtain ⟨s, hid, -, -, -, -, -, rfl⟩ := initUploadSession_ok h
  exact .addSession hid

end Kept

section StepFrame

variable {fault : Bool} {w w' : World}

theorem FinalizePc.step_frame {svc : SoftwarePackageService} {fa : FinalizeArgs} {pc pc' : FinalizePc}
    (hs : w.storage.WF) (h : pc.step svc fa fault w = (pc', w')) : w.Frame (some fa.uploadId) w' := by
  rcases step_db h with ⟨rfl, -⟩ | hr
  exacts [.refl hs _, run_frame hs hr]

theorem AppendPc.step_frame {a : AppendArgs} {pc pc' : AppendPc} (hs : w.storage.WF)
    (h : pc.step a fault w = (pc', w')) : w.Frame (some a.uploadId) w' := by
  cases pc <;> simp only [AppendPc.step, AppendPc.run] at h <;> (repeat' split at h) <;> cases h <;>
    first
    | exact .refl hs _
    | exact .withStorage (hs.appendUploadChunk _ _)
    | exact .tx hs ‹_› fun _ _ => appendLockTx_kept
    | exact .tx hs ‹_› fun _ _ => appendFailTx_kept
    | exact .tx hs ‹_› fun _ _ => appendFinishTx_kept

/-- The upload whose session row and temp file a call in progress touches. -/
def Proc.ownId : Proc → Option String
  | .single _ (.finalize fa _) | .complete _ _ (.finalize fa _) => some fa.uploadId
  | .initUpload _ _ _ u _ | .complete u _ _ | .cancel u _ _ => some u
  | .append a _ => some a.uploadId
  | .single a _ => some a.uploadId
  | .ticket .. | .delete .. => none

/-- **Each step of a call touches its own upload only**: every other upload's
    session rows and temp file are as they were, and the temp files stay apart. -/
theorem Proc.step_frame {svc : SoftwarePackageService} {p p' : Proc} (hwf : w.db.WF)
    (hs : w.storage.WF) (h : p.step svc fault w = (p', w')) : w.Frame p.ownId w' := by
  cases p with
  | initUpload k f m u pc =>
    cases pc <;> simp only [Proc.step, InitPc.step] at h <;> (repeat' split at h) <;> cases h <;>
      first
      | exact .refl hs _
      | exact .withStorage (hs.initUpload u)
      | exact .tx hs ‹_› fun _ _ => initUploadSession_kept
  | append a pc =>
    simp only [Proc.step] at h; cases h
    exact AppendPc.step_frame hs rfl
  | single a pc =>
    cases pc with
    | append hh apc =>
      cases hT : apc.step a.append fault w with
      | mk apc' w1 =>
        simp only [Proc.step, SinglePc.step, hT] at h
        have := AppendPc.step_frame hs hT
        rcases apc' with _ | _ | _ | _ | _ | _ | ⟨_ | _⟩ <;> cases h <;> exact this
    | finalize fa fpc =>
      cases hT : fpc.step svc fa fault w with
      | mk fpc' w1 =>
        simp only [Proc.step, SinglePc.step, hT] at h
        have := FinalizePc.step_frame hs hT
        rcases fpc' with _ | _ | _ | _ | _ | _ | _ | _ | _ | ⟨_ | _⟩ <;> cases h <;> exact this
    | _ =>
      simp only [Proc.step, SinglePc.step] at h
      (repeat' split at h) <;> cases h <;>
        first
        | exact .refl hs _
        | exact .withStorage (hs.initUpload _)
        | exact .withStorage (hs.abortUpload _)
        | exact .tx hs ‹_› fun _ _ => initUploadSession_kept
  | complete u k pc =>
    cases pc with
    | finalize fa fpc =>
      cases hT : fpc.step svc fa fault w with
      | mk fpc' w1 =>
        simp only [Proc.step, CompletePc.step, hT] at h
        have := FinalizePc.step_frame hs hT
        rcases fpc' with _ | _ | _ | _ | _ | _ | _ | _ | _ | _ <;> cases h <;> exact this
    | _ =>
      simp only [Proc.step, CompletePc.step] at h
      (repeat' split at h) <;> cases h <;> exact .refl hs _
  | cancel u k pc =>
    cases pc <;> simp only [Proc.step, CancelPc.step] at h <;> (repeat' split at h) <;> cases h <;>
      first
      | exact .refl hs _
      | exact .withStorage (hs.abortUpload u)
      | exact .tx hs ‹_› fun _ _ => cancelTx_kept
  | ticket k q v pc =>
    cases pc with
    | tx =>
      cases fault
      · cases hT : w.tx (getDownloadTicketTx q v) with
        | mk r w1 =>
          simp only [Proc.step, TicketPc.step, hT, Bool.false_eq_true, if_false] at h
          cases h
          exact .tx hs hT fun _ _ hb => by
            obtain ⟨x, -, rfl⟩ := getDownloadTicketTx_ok hb
            exact .of_sessions rfl _
      · cases h; exact .refl hs _
    | done r => cases h; exact .refl hs _
  | delete q k pc =>
    cases pc <;> simp only [Proc.step, DeletePc.step] at h <;> (repeat' split at h) <;> cases h <;>
      first
      | exact .refl hs _
      | exact .withStorage (hs.deleteObject ‹_› _)
      | exact .tx hs ‹_› fun _ _ hb => .of_sessions (deletePackageTx_tables hwf hb).2.2 _

end StepFrame

/-! ### Sessions that record the size of their temp file -/

namespace Storage

theorem getUploadSize_eq (s : Storage) (u : String) :
    s.getUploadSize u = ((s.tempContent u).map List.length).getD 0 := by
  unfold getUploadSize tempContent
  split <;> simp [*]

/-- `get_upload_size` is the length of the temp file, `0` when it is missing. -/
theorem getUploadSize_eq_length (s : Storage) (u : String) :
    s.getUploadSize u = ((s.tempContent u).getD []).length := by
  rw [getUploadSize_eq]
  cases s.tempContent u <;> rfl

@[simp] theorem getUploadSize_initUpload (s : Storage) (u : String) : (s.initUpload u).getUploadSize u = 0 := by
  simp [getUploadSize_eq]

@[simp] theorem getUploadSize_abortUpload (s : Storage) (u : String) :
    (s.abortUpload u).getUploadSize u = 0 := by
  simp [getUploadSize, abortUpload]

/-- What the temp file holds, `[]` when it is missing. -/
theorem tempContent_appendUploadChunk_getD (s : Storage) (u : String) (c : Bytes) :
    ((s.appendUploadChunk u c).tempContent u).getD [] = (s.tempContent u).getD [] ++ c := by
  cases h : s.tempContent u with
  | some T => simp [tempContent_appendUploadChunk h]
  | none =>
    have : s.temp u = none := by simpa [tempContent] using h
    simp [appendUploadChunk, this, createTemp, tempContent]

theorem getUploadSize_appendUploadChunk (s : Storage) (u : String) (c : Bytes) :
    (s.appendUploadChunk u c).getUploadSize u = s.getUploadSize u + c.length := by
  have := congrArg List.length (s.tempContent_appendUploadChunk_getD u c)
  cases h : s.tempContent u <;> cases h' : (s.appendUploadChunk u c).tempContent u <;>
    simp_all [getUploadSize_eq]

end Storage

section Tracked

variable {w w' : World}

/-- **Every PENDING or UPLOADING session records the size of its temp file**, as
    `get_upload_size` reports it (`0` when the file is missing), and holds at most
    its `max_size_bytes`. -/
def World.Tracked (w : World) : Prop :=
  ∀ x ∈ w.db.sessions, x.status.writable →
    x.bytesReceived = w.storage.getUploadSize x.id ∧ x.bytesReceived ≤ x.maxSizeBytes

/-- The same, for every session but those of upload `own`. -/
def World.TrackedBut (own : Option String) (w : World) : Prop :=
  ∀ x ∈ w.db.sessions, own ≠ some x.id → x.status.writable →
    x.bytesReceived = w.storage.getUploadSize x.id ∧ x.bytesReceived ≤ x.maxSizeBytes

/-- The same, for the sessions of upload `u`. -/
def World.TrackedAt (u : String) (w : World) : Prop :=
  ∀ x ∈ w.db.sessions, x.id = u → x.status.writable →
    x.bytesReceived = w.storage.getUploadSize u ∧ x.bytesReceived ≤ x.maxSizeBytes

/-- The sessions of upload `u` hold no byte. -/
def World.Fresh (u : String) (w : World) : Prop :=
  ∀ x ∈ w.db.sessions, x.id = u → x.bytesReceived = 0

/-- The PENDING or UPLOADING sessions of upload `u` hold no byte. -/
def World.Drained (u : String) (w : World) : Prop :=
  ∀ x ∈ w.db.sessions, x.id = u → x.status.writable → x.bytesReceived = 0

/-- No session of upload `u` is PENDING or UPLOADING. -/
def World.Closed (u : String) (w : World) : Prop :=
  ∀ x ∈ w.db.sessions, x.id = u → x.status.writable = false

/-- Upload `u` has a session of user `k`. -/
def World.Owns (u : String) (k : Int) (w : World) : Prop :=
  ∃ x ∈ w.db.sessions, x.id = u ∧ x.userId = k

theorem World.Tracked.but (h : w.Tracked) (own : Option String) : w.TrackedBut own :=
  fun x hx _ => h x hx

theorem World.Tracked.trackedAt (h : w.Tracked) (u : String) : w.TrackedAt u :=
  fun x hx hid => hid ▸ h x hx

theorem World.TrackedBut.tracked {u : String} (h : w.TrackedBut (some u)) (hu : w.TrackedAt u) :
    w.Tracked := fun x hx hw =>
  if e : x.id = u then e ▸ hu x hx e hw else h x hx (fun h' => e (Option.some.inj h').symm) hw

theorem World.TrackedBut.tracked_none (h : w.TrackedBut none) : w.Tracked :=
  fun x hx => h x hx nofun

theorem World.TrackedBut.frame {own : Option String} (h : w.TrackedBut own) (hf : w.Frame own w') :
    w'.TrackedBut own := fun x hx hne hw => by
  rw [hf.1.2 x.id hne]
  exact h x (hf.2 x hx hne) hne hw

theorem World.Drained.trackedAt {u : String} (h : w.Drained u) (h0 : w.storage.getUploadSize u = 0) :
    w.TrackedAt u := fun x hx hid hw => by
  have := h x hx hid hw
  exact ⟨this.trans h0.symm, by omega⟩

theorem World.Closed.drained {u : String} (h : w.Closed u) : w.Drained u :=
  fun x hx hid hw => absurd hw (by rw [h x hx hid]; decide)

theorem World.Closed.trackedAt {u : String} (h : w.Closed u) : w.TrackedAt u :=
  fun x hx hid hw => absurd hw (by rw [h x hx hid]; decide)

/-- Closed stays closed while every session of the upload is an old one or not writable. -/
theorem World.Closed.mono {u : String} (h : w.Closed u)
    (hs : ∀ x ∈ w'.db.sessions, x.id = u → x ∈ w.db.sessions ∨ x.status.writable = false) :
    w'.Closed u := fun x hx hid => (hs x hx hid).elim (fun h' => h x h' hid) id

theorem World.Closed.saveSession {u : String} (h : w.Closed u) {r : UploadSession}
    (hr : r.status.writable = false) (hdb : w'.db.sessions = (w.db.saveSession r).sessions) :
    w'.Closed u :=
  h.mono fun x hx _ => by
    rw [hdb] at hx
    rcases Db.mem_saveSession hx with rfl | ⟨-, hx⟩
    exacts [.inr hr, .inl hx]

theorem World.Closed.of_saveSession {u : String} {db : Db} {r : UploadSession}
    (hdb : w'.db = db.saveSession r) (hid : r.id = u) (hr : r.status.writable = false) : w'.Closed u :=
  fun x hx hx' => by
    rw [hdb] at hx
    rcases Db.mem_saveSession hx with rfl | ⟨hne, -⟩
    exacts [hr, absurd (hx'.trans hid.symm) hne]

end Tracked

/-! ### What each call relies on about its own upload -/

/-- What an append relies on about its own upload at each of its states: between
    its first block and its last, the session it found, its `max_size_bytes` `m`,
    and a temp file of `expected_offset` plus `bytes_appended` bytes, within `m`;
    from `get_upload_size` on, the size it read is the temp file's. -/
def AppendArgs.Tracked (a : AppendArgs) (w : World) : AppendPc → Prop
  | .lock | .done (.error _) => w.TrackedAt a.uploadId
  | .done (.ok _) => w.TrackedAt a.uploadId ∧ w.Owns a.uploadId a.userId
  | .chunks m k _ => w.Owns a.uploadId a.userId ∧
    (w.storage.getUploadSize a.uploadId : Int) = a.expectedOffset + k ∧ a.expectedOffset + k ≤ m ∧
    ∀ x ∈ w.db.sessions, x.id = a.uploadId → x.maxSizeBytes = m
  | .failSize _ => w.Owns a.uploadId a.userId
  | .size => w.Owns a.uploadId a.userId ∧
    ∀ x ∈ w.db.sessions, x.id = a.uploadId → w.storage.getUploadSize a.uploadId ≤ x.maxSizeBytes
  | .failTx _ n => w.Owns a.uploadId a.userId ∧ n = w.storage.getUploadSize a.uploadId
  | .finish n => w.Owns a.uploadId a.userId ∧ n = w.storage.getUploadSize a.uploadId ∧
    ∀ x ∈ w.db.sessions, x.id = a.uploadId → n ≤ x.maxSizeBytes

section StepTracked

variable {w w' : World}

theorem World.Owns.found {u : String} {k : Int} (hwf : w.db.WF) (h : w.Owns u k) :
    ∃ x ∈ w.db.sessions, w.db.getUploadSessionForUserForUpdate u k = .ok (some x) := by
  obtain ⟨x, hx, rfl, rfl⟩ := h
  exact ⟨x, hx, hwf.getUploadSessionForUserForUpdate hx⟩

theorem Db.mem_saveSession_self {db : Db} {s r : UploadSession} (hs : s ∈ db.sessions)
    (hid : r.id = s.id) : r ∈ (db.saveSession r).sessions :=
  List.mem_map.mpr ⟨s, hs, if_pos hid.symm⟩

/-- **A step of an append without a fault** keeps what the append relies on; it
    raises only from its first block, leaving the world as it was, or after
    marking the session FAILED. -/
theorem AppendPc.step_tracked {a : AppendArgs} {pc pc' : AppendPc} (hwf : w.db.WF)
    (hpc : ∀ r, pc ≠ .done r) (ht : a.Tracked w pc) (h : pc.step a false w = (pc', w')) :
    a.Tracked w' pc' ∧ ∀ e, pc' = .done (.error e) → (pc = .lock ∧ w' = w) ∨ w'.Closed a.uploadId := by
  cases pc with
  | done r => exact absurd rfl (hpc r)
  | lock =>
    simp only [AppendPc.step, AppendPc.run, Bool.false_eq_true, if_false] at h
    cases hT : w.tx (appendLockTx a.uploadId a.userId a.expectedOffset) with
    | mk r w1 =>
      rw [hT] at h
      rcases World.tx_cases hT with ⟨m, rfl, hb, hst⟩ | ⟨e, rfl, -, rfl⟩
      · cases h
        obtain ⟨s, hget, hw, ho, rfl, hdb⟩ := appendLockTx_ok hb
        obtain ⟨hs, hid, huid⟩ := getUploadSessionForUserForUpdate_some hget
        obtain ⟨hsize, hmax⟩ := ht s hs hid ((UploadStatus.writable_iff _).mpr hw)
        refine ⟨⟨⟨{ s with status := .uploading }, hdb ▸ Db.mem_saveSession_self hs rfl, hid, huid⟩,
          by rw [hst, ← hsize]; omega, by omega, fun x hx hxid => ?_⟩, fun _ h => nomatch h⟩
        rw [hdb] at hx
        rcases Db.mem_saveSession hx with rfl | ⟨hne, -⟩
        exacts [rfl, absurd (hxid.trans hid.symm) hne]
      · cases h
        exact ⟨ht, fun _ _ => .inl ⟨rfl, rfl⟩⟩
  | chunks m k rest =>
    obtain ⟨hown, hsize, hle, hmax⟩ := ht
    cases rest with
    | nil => cases h; exact ⟨⟨hown, fun x hx hxid => by rw [hmax x hx hxid]; omega⟩, fun _ h => nomatch h⟩
    | cons c rest =>
      simp only [AppendPc.step, AppendPc.run, Bool.false_eq_true, if_false] at h
      split_ifs at h with he hover <;> cases h
      · exact ⟨⟨hown, hsize, hle, hmax⟩, fun _ h => nomatch h⟩
      · exact ⟨hown, fun _ h => nomatch h⟩
      · refine ⟨⟨hown, ?_, by push_cast; omega, hmax⟩, fun _ h => nomatch h⟩
        show ((w.storage.appendUploadChunk a.uploadId c).getUploadSize a.uploadId : Int) = _
        rw [Storage.getUploadSize_appendUploadChunk]
        push_cast
        omega
  | failSize e => cases h; exact ⟨⟨ht, rfl⟩, fun _ h => nomatch h⟩
  | size => cases h; exact ⟨⟨ht.1, rfl, ht.2⟩, fun _ h => nomatch h⟩
  | failTx e n =>
    obtain ⟨x, -, hget⟩ := ht.1.found hwf
    simp only [AppendPc.step, AppendPc.run, Bool.false_eq_true, if_false,
      World.tx_of_ok (appendFailTx_of_found hget n)] at h
    cases h
    refine ⟨World.Closed.trackedAt ?_, fun _ _ => .inr ?_⟩ <;>
      exact .of_saveSession rfl (getUploadSessionForUserForUpdate_some hget).2.1 rfl
  | finish n =>
    obtain ⟨hown, hn, hmax⟩ := ht
    obtain ⟨x, -, hget⟩ := hown.found hwf
    obtain ⟨hx, hid, huid⟩ := getUploadSessionForUserForUpdate_some hget
    simp only [AppendPc.step, AppendPc.run, Bool.false_eq_true, if_false,
      World.tx_of_ok (appendFinishTx_of_found hget n)] at h
    cases h
    refine ⟨⟨fun y hy hyid _ => ?_, _, Db.mem_saveSession_self hx rfl, hid, huid⟩, fun _ h => nomatch h⟩
    rcases Db.mem_saveSession hy with rfl | ⟨hne, -⟩
    exacts [⟨hn, hmax x hx hid⟩, absurd (hyid.trans hid.symm) hne]

/-- What a finalization relies on about its own upload: once its first block has
    committed FINALIZING, no session of the upload takes chunks. -/
def FinalizeArgs.Tracked (fa : FinalizeArgs) (w : World) : FinalizePc → Prop
  | .lock | .done _ => w.TrackedAt fa.uploadId
  | _ => w.Closed fa.uploadId

theorem FinalizeArgs.Tracked.of_closed {fa : FinalizeArgs} (h : w.Closed fa.uploadId) (pc : FinalizePc) :
    fa.Tracked w pc := by
  cases pc <;> first | exact h | exact h.trackedAt

/-- After its first block a finalization writes the session only to COMPLETED or FAILED. -/
theorem FinalizePc.run_closed {svc : SoftwarePackageService} {fa : FinalizeArgs} {pc pc' : FinalizePc}
    (hpc : pc ≠ .lock) (hc : w.Closed fa.uploadId) (h : pc.run svc fa w = (pc', w')) :
    w'.Closed fa.uploadId := by
  rcases run_db h with e | ⟨rfl, -⟩ | ⟨r, hb⟩ | ⟨r, hb⟩ | ⟨s, b, r, -, -, hb⟩ | ⟨b, -, hb⟩
  · exact hc.mono fun x hx _ => .inl (e ▸ hx)
  · exact absurd rfl hpc
  · rcases blobLookupTx_ok hb with ⟨-, e, -⟩ | ⟨B, -, -, -, -, e⟩ <;>
      exact hc.mono fun x hx _ => .inl (by rw [e] at hx; exact hx)
  · rcases blobReconcileTx_ok hb with ⟨B, -, -, -, -, e⟩ | ⟨-, -, e⟩ <;>
      exact hc.mono fun x hx _ => .inl (by rw [e] at hx; exact hx)
  · obtain ⟨pkg, db1, sess, hup, -, -, -, -, -, -, e⟩ := versionInsertTx_ok hb
    refine hc.mono fun x hx _ => ?_
    rw [e] at hx
    rcases Db.mem_saveSession hx with rfl | ⟨-, hx⟩
    exacts [.inr rfl, .inl ((upsertPackage_tables hup).2.2 ▸ hx)]
  · rcases compensateTx_sessions hb with e | ⟨x, -, -, e⟩
    · exact hc.mono fun y hy _ => .inl (e ▸ hy)
    · refine hc.mono fun y hy _ => ?_
      rw [e] at hy
      rcases Db.mem_saveSession hy with rfl | ⟨-, hy⟩
      exacts [.inr rfl, .inl hy]

/-- **A step of a finalization without a fault** keeps what the finalization relies
    on. When it raises, the PENDING or UPLOADING sessions of its upload hold no
    byte, provided the user had a session of the upload before the first block. -/
theorem FinalizePc.run_tracked {svc : SoftwarePackageService} {fa : FinalizeArgs} {pc pc' : FinalizePc}
    (hwf : w.db.WF) (hpc : ∀ r, pc ≠ .done r) (ht : fa.Tracked w pc) (h : pc.run svc fa w = (pc', w')) :
    fa.Tracked w' pc' ∧ ∀ e, pc' = .done (.error e) → (pc = .lock → w.Owns fa.uploadId fa.userId) →
      w'.Drained fa.uploadId := by
  cases pc
  case done r => exact absurd rfl (hpc r)
  case lock =>
    simp only [FinalizePc.run] at h
    cases hT : w.tx (finalizeLockTx fa.uploadId fa.userId) with
    | mk r w1 =>
      rw [hT] at h
      rcases World.tx_cases hT with ⟨o, rfl, hb, hst⟩ | ⟨e, rfl, he, rfl⟩
      · obtain ⟨s, hget, ⟨-, v, -, rfl, hdb⟩ | ⟨-, -, -, -, rfl, hdb⟩⟩ := finalizeLockTx_ok hb
        · cases h
          refine ⟨?_, fun _ h => nomatch h⟩
          unfold FinalizeArgs.Tracked World.TrackedAt
          rw [hdb, hst]
          exact ht
        · have hc : w1.Closed fa.uploadId :=
            .of_saveSession hdb (getUploadSessionForUserForUpdate_some hget).2.1 rfl
          dsimp only at h
          split at h <;> cases h
          exacts [⟨hc.trackedAt, fun _ _ _ => hc.drained⟩, ⟨hc, fun _ h => nomatch h⟩]
      · cases h
        refine ⟨ht, fun _ _ hown y hy hyid hw => ?_⟩
        obtain ⟨x, hx, hget⟩ := (hown rfl).found hwf
        obtain rfl : y = x := eq_of_key_eq hwf.sessionIds hy hx
          (hyid.trans (getUploadSessionForUserForUpdate_some hget).2.1.symm)
        exact finalizeLockTx_error hget hw he
  all_goals
    have hc := run_closed (by simp) ht h
    exact ⟨.of_closed hc _, fun _ _ _ => hc.drained⟩

theorem AppendPc.step_ne_lock {a : AppendArgs} {fault : Bool} {pc pc' : AppendPc}
    (h : pc.step a fault w = (pc', w')) : pc' ≠ .lock := by
  cases pc <;> simp only [AppendPc.step, AppendPc.run] at h <;> (repeat' split at h) <;> cases h <;>
    exact fun h => nomatch h

theorem FinalizePc.run_ne_lock {svc : SoftwarePackageService} {fa : FinalizeArgs} {pc pc' : FinalizePc}
    (h : pc.run svc fa w = (pc', w')) : pc' ≠ .lock := by
  cases pc <;> simp only [FinalizePc.run] at h <;> (repeat' split at h) <;> cases h <;>
    exact fun h => nomatch h

theorem World.Fresh.drained {u : String} (h : w.Fresh u) : w.Drained u := fun x hx hid _ => h x hx hid

/-- Emptying or removing the temp file of a drained upload leaves it tracked. -/
theorem World.Drained.withStorage {u : String} (h : w.Drained u) {st : Storage}
    (h0 : st.getUploadSize u = 0) : (w.withStorage st).TrackedAt u :=
  World.Drained.trackedAt (w := w.withStorage st) h h0

theorem initUploadSession_fresh {svc : SoftwarePackageService} {k : Int} {f : PackageForm}
    {m : Option Int} {u : String} {r : UploadInitResult}
    (h : svc.initUploadSession k f m u w.db = .ok (r, w'.db)) : w'.Fresh u := by
  obtain ⟨s, hid, -, -, hb, -, hnew, hdb⟩ := initUploadSession_ok h
  intro x hx hxid
  rw [hdb] at hx
  rcases List.mem_append.mp hx with hx | hx
  · exact absurd hxid (hnew x hx)
  · rw [List.mem_singleton.mp hx, hb]

/-- What each call in progress relies on about its own upload. -/
def Proc.Tracked (w : World) : Proc → Prop
  | .initUpload _ _ _ u (.initStorage _) => w.Fresh u
  | .initUpload _ _ _ u _ => w.TrackedAt u
  | .append a pc => a.Tracked w pc
  | .single a .initStorage => w.Fresh a.uploadId
  | .single a (.append _ pc) =>
    a.append.Tracked w pc ∧ (∀ r, pc ≠ .done r) ∧ (pc = .lock → w.Fresh a.uploadId)
  | .single a (.finalize fa pc) =>
    fa.uploadId = a.uploadId ∧ (∀ r, pc ≠ .done r) ∧ fa.Tracked w pc ∧
      (pc = .lock → w.Owns fa.uploadId fa.userId)
  | .single a (.abort _) => w.Drained a.uploadId
  | .single a _ => w.TrackedAt a.uploadId
  | .complete _ _ (.finalize fa pc) => (∀ r, pc ≠ .done r) ∧ fa.Tracked w pc
  | .complete u _ _ => w.TrackedAt u
  | .cancel u _ .abort => w.Closed u
  | .cancel u _ _ => w.TrackedAt u
  | .ticket .. | .delete .. => True

/-- **A step of a call without a fault** keeps what the call relies on about its
    own upload, and a call that returns leaves the sessions of its upload
    recording the size of their temp file. -/
theorem Proc.step_tracked {svc : SoftwarePackageService} {p p' : Proc} (hwf : w.db.WF)
    (hnd : p.isDone = false) (ht : p.Tracked w) (h : p.step svc false w = (p', w')) :
    (p'.isDone = true → ∀ u, p.ownId = some u → w'.TrackedAt u) ∧
      (p'.isDone = false → p'.ownId = p.ownId ∧ p'.Tracked w') := by
  cases p with
  | initUpload k f m u pc =>
    cases pc with
    | init =>
      simp only [Proc.step, InitPc.step, Bool.false_eq_true, if_false] at h
      cases hT : w.tx (svc.initUploadSession k f m u) with
      | mk r w1 =>
        rw [hT] at h
        rcases World.tx_cases hT with ⟨r, rfl, hb, -⟩ | ⟨e, rfl, -, rfl⟩
        · cases h; exact ⟨nofun, fun _ => ⟨rfl, initUploadSession_fresh hb⟩⟩
        · cases h; exact ⟨fun _ _ h => Option.some.inj h ▸ ht, nofun⟩
    | initStorage r =>
      cases h
      exact ⟨fun _ _ h => Option.some.inj h ▸ ht.drained.withStorage (by simp), nofun⟩
    | done r => cases hnd
  | append a pc =>
    simp only [Proc.step] at h
    cases hT : pc.step a false w with
    | mk pc' w1 =>
      rw [hT] at h; cases h
      obtain ⟨ht', -⟩ := AppendPc.step_tracked hwf (fun r e => by cases e; cases hnd) ht hT
      refine ⟨fun hd _ hu => ?_, fun _ => ⟨rfl, ht'⟩⟩
      cases Option.some.inj hu
      rcases pc' with _ | _ | _ | _ | _ | _ | ⟨_ | _⟩ <;> first | exact ht' | exact ht'.1 | cases hd
  | single a pc =>
    cases pc with
    | init =>
      simp only [Proc.step, SinglePc.step, Bool.false_eq_true, if_false] at h
      cases hT : w.tx (svc.initUploadSession a.userId a.form none a.uploadId) with
      | mk r w1 =>
        rw [hT] at h
        rcases World.tx_cases hT with ⟨r, rfl, hb, -⟩ | ⟨e, rfl, -, rfl⟩
        · cases h; exact ⟨nofun, fun _ => ⟨rfl, initUploadSession_fresh hb⟩⟩
        · cases h; exact ⟨fun _ _ h => Option.some.inj h ▸ ht, nofun⟩
    | initStorage =>
      cases h
      exact ⟨nofun, fun _ => ⟨rfl, ht.drained.withStorage (by simp), fun _ h => (nomatch h), fun _ => ht⟩⟩
    | append hh apc =>
      cases hT : apc.step a.append false w with
      | mk apc' w1 =>
        simp only [Proc.step, SinglePc.step, hT] at h
        obtain ⟨ht', herr⟩ := AppendPc.step_tracked hwf ht.2.1 ht.1 hT
        have hne := AppendPc.step_ne_lock hT
        rcases apc' with _ | _ | _ | _ | _ | _ | ⟨e | r⟩ <;> cases h
        iterate 6 exact ⟨nofun, fun _ => ⟨rfl, ht', fun _ h => (nomatch h), fun e => absurd e hne⟩⟩
        · refine ⟨nofun, fun _ => ⟨rfl, ?_⟩⟩
          rcases herr e rfl with ⟨rfl, rfl⟩ | hc
          exacts [(ht.2.2 rfl).drained, hc.drained]
        · exact ⟨nofun, fun _ => ⟨rfl, rfl, fun _ h => (nomatch h), ht'.1, fun _ => ht'.2⟩⟩
    | finalize fa fpc =>
      cases hT : fpc.step svc fa false w with
      | mk fpc' w1 =>
        simp only [Proc.step, SinglePc.step, hT] at h
        rw [FinalizePc.step_false] at hT
        obtain ⟨hid, hpc, ht1, hown⟩ := ht
        obtain ⟨ht', herr⟩ := FinalizePc.run_tracked hwf hpc ht1 hT
        have hne := FinalizePc.run_ne_lock hT
        rcases fpc' with _ | _ | _ | _ | _ | _ | _ | _ | _ | ⟨e | v⟩ <;> cases h
        iterate 9 exact ⟨nofun, fun _ => ⟨rfl, hid, fun _ h => (nomatch h), ht', fun e => absurd e hne⟩⟩
        · refine ⟨nofun, fun _ => ⟨congrArg some hid.symm, ?_⟩⟩
          show World.Drained _ w1
          exact hid ▸ herr e rfl hown
        · exact ⟨fun _ _ hu => Option.some.inj hu ▸ ht', nofun⟩
    | abort e =>
      cases h
      exact ⟨fun _ _ hu => Option.some.inj hu ▸ ht.withStorage (by simp), nofun⟩
    | done r => cases hnd
  | complete u k pc =>
    cases pc with
    | «open» =>
      simp only [Proc.step, CompletePc.step, Bool.false_eq_true, if_false] at h
      split at h <;> cases h
      exacts [⟨fun _ _ hu => Option.some.inj hu ▸ ht, nofun⟩, ⟨nofun, fun _ => ⟨rfl, ht⟩⟩]
    | read hh c =>
      simp only [Proc.step, CompletePc.step, Bool.false_eq_true, if_false] at h
      split at h <;> cases h
      exacts [⟨nofun, fun _ => ⟨rfl, fun _ h => (nomatch h), ht⟩⟩, ⟨nofun, fun _ => ⟨rfl, ht⟩⟩]
    | finalize fa fpc =>
      cases hT : fpc.step svc fa false w with
      | mk fpc' w1 =>
        simp only [Proc.step, CompletePc.step, hT] at h
        rw [FinalizePc.step_false] at hT
        obtain ⟨ht', -⟩ := FinalizePc.run_tracked hwf ht.1 ht.2 hT
        rcases fpc' with _ | _ | _ | _ | _ | _ | _ | _ | _ | _ <;> cases h
        iterate 9 exact ⟨nofun, fun _ => ⟨rfl, fun _ h => (nomatch h), ht'⟩⟩
        exact ⟨fun _ _ hu => Option.some.inj hu ▸ ht', nofun⟩
    | done r => cases hnd
  | cancel u k pc =>
    cases pc with
    | lock =>
      simp only [Proc.step, CancelPc.step, Bool.false_eq_true, if_false] at h
      cases hT : w.tx (cancelTx u k) with
      | mk r w1 =>
        rw [hT] at h
        rcases World.tx_cases hT with ⟨⟨⟩, rfl, hb, -⟩ | ⟨e, rfl, -, rfl⟩
        · cases h
          obtain ⟨s, hget, -, hdb⟩ := cancelTx_ok hb
          exact ⟨nofun, fun _ => ⟨rfl, .of_saveSession hdb (getUploadSessionForUserForUpdate_some hget).2.1 rfl⟩⟩
        · cases h; exact ⟨fun _ _ hu => Option.some.inj hu ▸ ht, nofun⟩
    | abort =>
      cases h
      exact ⟨fun _ _ hu => Option.some.inj hu ▸ World.Closed.trackedAt ht, nofun⟩
    | done r => cases hnd
  | ticket k q v pc =>
    cases pc with
    | tx => cases h; exact ⟨fun _ _ h => (nomatch h), nofun⟩
    | done r => cases hnd
  | delete q k pc =>
    cases pc with
    | tx =>
      simp only [Proc.step, DeletePc.step, Bool.false_eq_true, if_false] at h
      split at h <;> cases h <;> exact ⟨fun _ _ h => (nomatch h), fun _ => ⟨rfl, trivial⟩⟩
    | deleteObjects keys =>
      cases keys with
      | nil => cases h; exact ⟨fun _ _ h => (nomatch h), nofun⟩
      | cons key keys =>
        simp only [Proc.step, DeletePc.step, Bool.false_eq_true, if_false] at h
        split at h <;> cases h <;> exact ⟨fun _ _ h => (nomatch h), fun _ => ⟨rfl, trivial⟩⟩
    | done r => cases hnd

end StepTracked

/-! ### Runs of one call at a time, with the faults the code catches -/

/-- Whether the code catches a fault at the call's next step: in the chunk loop
    of an append (a broken client stream or a failed write) the `except` handler
    takes over, and a failed `delete_object` is logged. -/
def Proc.catchesFault : Proc → Bool
  | .append _ (.chunks ..) | .single _ (.append _ (.chunks ..)) | .delete _ _ (.deleteObjects _) => true
  | _ => false

/-- Whether the code catches the fault the action injects, if it injects one. -/
def Sys.catches (s : Sys) : Action → Bool
  | .call _ => true
  | .step pid fault => !fault || s.procs[pid]?.all Proc.catchesFault

/-- Calls one at a time, whose I/O fails only where the code catches the fault. -/
def caughtSequential : Sys → Action → Prop := fun s a => sequential s a ∧ s.catches a = true

instance (s : Sys) (a : Action) : Decidable (caughtSequential s a) :=
  inferInstanceAs (Decidable (sequential s a ∧ s.catches a = true))

theorem Call.start_isDone (c : Call) : c.start.isDone = false := by
  cases c <;> rfl

/-- **An invariant of the runs that make one call at a time**, stated of the world
    and of the call in progress, if any: it holds of the empty store, a call that
    starts keeps it, and every step the run allows keeps it. `F p fault` says
    which faults the run allows the call `p`. -/
theorem Reachable.seq_induct {svc : SoftwarePackageService} {allowed : Sys → Action → Prop}
    {F : Proc → Bool → Prop}
    (hallowed : ∀ t a, allowed t a → sequential t a ∧
      ∀ pid fault p, a = .step pid fault → t.procs[pid]? = some p → F p fault)
    {K : World → Option Proc → Prop} (h0 : K World.empty none)
    (hstart : ∀ (c : Call) {w : World}, w.db.WF → K w none → K w (some c.start))
    (hstep : ∀ {p p' : Proc} {fault : Bool} {w w' : World}, w.db.WF → F p fault → p.isDone = false →
      K w (some p) → p.step svc fault w = (p', w') → K w' (if p'.isDone then none else some p'))
    {s : Sys} (h : Reachable svc allowed s) :
    (s.quiet → K s.world none) ∧ ∀ p ∈ s.procs, p.isDone = false → K s.world (some p) := by
  induction h with
  | empty => exact ⟨fun _ => h0, fun _ hp => by cases hp⟩
  | @next t t' a hr ha hs ih =>
    have hseq : Reachable svc sequential t := hr.mono fun t a h => (hallowed t a h).1
    rcases Sys.next_cases hs with ⟨c, rfl, rfl⟩ | ⟨pid, fault, p, p', rfl, hget, hnd, hst, hprocs⟩
    · -- a call starts once every earlier call is done
      have hq : t.quiet := (hallowed _ _ ha).1
      refine ⟨fun hq' => absurd (hq' _ (List.mem_append_right _ (.head _))) (by simp [Call.start_isDone]),
        fun q hq' hqd => ?_⟩
      rcases List.mem_append.mp hq' with hq' | hq'
      · exact absurd (hq q hq') (by simp [hqd])
      · rw [List.mem_singleton.mp hq']
        exact hstart c hseq.wf (ih.1 hq)
    · -- the call in progress steps
      have hK := hstep hseq.wf ((hallowed _ _ ha).2 pid fault p rfl hget) hnd
        (ih.2 p (List.getElem?_mem hget) hnd) hst
      refine ⟨fun hq => ?_, fun q hq hqd => ?_⟩
      · have hp' : p'.isDone = true :=
          hq p' (hprocs ▸ List.mem_set _ _ (List.getElem?_eq_some_iff.mp hget).1 _)
        simpa [hp'] using hK
      · rw [hprocs] at hq
        obtain ⟨i, hi⟩ := List.mem_iff_getElem?.mp hq
        rw [List.getElem?_set] at hi
        split_ifs at hi with e
        · cases hi
          simpa [hqd] using hK
        · exact absurd ((Sys.solo_of_reachable hseq pid i p q hget hi e).resolve_left (by simp [hnd]))
            (by simp [hqd])

/-- What the runs of one call at a time keep: the temp files stay apart, and every
    session records the size of its temp file, but those of the call in progress,
    which keeps what it relies on about its own upload. -/
def World.TrackedWith (w : World) : Option Proc → Prop
  | none => w.storage.WF ∧ w.Tracked
  | some p => w.storage.WF ∧ w.TrackedBut p.ownId ∧ p.Tracked w

theorem Call.start_tracked {w : World} (c : Call) (h : w.Tracked) : c.start.Tracked w := by
  cases c <;> first | trivial | exact h.trackedAt _

/-- **A fault the code catches** changes nothing yet: an append's chunk loop
    hands over to its `except` handler with what it relies on, and the deletion
    goes on to its next key. -/
theorem Proc.step_caught {svc : SoftwarePackageService} {p p' : Proc} {w w' : World}
    (hc : p.catchesFault = true) (ht : p.Tracked w) (h : p.step svc true w = (p', w')) :
    w' = w ∧ p'.ownId = p.ownId ∧ (p'.isDone = true → p.ownId = none) ∧
      (p'.isDone = false → p'.Tracked w') := by
  unfold Proc.catchesFault at hc
  split at hc
  · cases h; exact ⟨rfl, rfl, nofun, fun _ => ht.1⟩
  · cases h; exact ⟨rfl, rfl, nofun, fun _ => ⟨ht.1.1, nofun, nofun⟩⟩
  · rename_i keys
    cases keys <;> cases h <;> exact ⟨rfl, rfl, fun _ => rfl, fun _ => trivial⟩
  · cases hc

theorem World.TrackedWith.step {svc : SoftwarePackageService} {p p' : Proc} {w w' : World}
    {fault : Bool} (hwf : w.db.WF) (hnd : p.isDone = false) (hf : fault = true → p.catchesFault = true)
    (hK : w.TrackedWith (some p)) (h : p.step svc fault w = (p', w')) :
    w'.TrackedWith (if p'.isDone then none else some p') := by
  obtain ⟨hs, hb, ht⟩ := hK
  cases fault with
  | true =>
    obtain ⟨rfl, hown, hdone, hrun⟩ := Proc.step_caught (hf rfl) ht h
    cases hd : p'.isDone
    · rw [if_neg (by simp)]
      exact ⟨hs, hown ▸ hb, hrun hd⟩
    · rw [if_pos rfl]
      exact ⟨hs, (hdone hd ▸ hb).tracked_none⟩
  | false =>
    have hf := Proc.step_frame hwf hs h
    have hb' := hb.frame hf
    obtain ⟨hdone, hrun⟩ := Proc.step_tracked hwf hnd ht h
    cases hd : p'.isDone
    · obtain ⟨hown, ht'⟩ := hrun hd
      rw [if_neg (by simp)]
      exact ⟨hf.1.1, hown ▸ hb', ht'⟩
    · rw [if_pos rfl]
      refine ⟨hf.1.1, ?_⟩
      cases ho : p.ownId with
      | none => exact (ho ▸ hb').tracked_none
      | some u => exact (ho ▸ hb').tracked (hdone hd u ho)

/-- **Between calls, every PENDING or UPLOADING session records the size of its
    temp file**, in every run that makes one call at a time and meets faults only
    where the code catches them. -/
theorem Reachable.tracked {svc : SoftwarePackageService} {s : Sys}
    (h : Reachable svc caughtSequential s) (hq : s.quiet) : s.world.Tracked :=
  ((Reachable.seq_induct (F := fun p f => f = true → p.catchesFault = true) (K := fun w o => w.TrackedWith o)
    (fun _ _ h => ⟨h.1, fun _ _ _ e hget hf => by simpa [e, Sys.catches, hget, hf] using h.2⟩)
    ⟨Storage.wf_empty, fun _ h => nomatch h⟩
    (fun c _ _ h => ⟨h.1, h.2.but _, c.start_tracked h.2⟩)
    (fun hwf hf hnd hK hst => hK.step hwf hnd hf hst) h).1 hq).2

/-! ### The contract of one append -/

/-- `n` steps of an append, none of which meets a fault. -/
def AppendPc.exec (a : AppendArgs) : Nat → AppendPc → World → AppendPc × World
  | 0, pc, w => (pc, w)
  | n + 1, pc, w => exec a n (pc.step a false w).1 (pc.step a false w).2

/-- `append_upload_stream(a)` from its first block to its end, without a fault: the
    first block, a step per chunk, and at most three more. -/
def AppendArgs.exec (a : AppendArgs) (w : World) : AppendPc × World :=
  AppendPc.exec a (a.chunks.length + 4) .lock w

theorem AppendPc.exec_add (a : AppendArgs) (n m : Nat) (pc : AppendPc) (w : World) :
    exec a (n + m) pc w = exec a m (exec a n pc w).1 (exec a n pc w).2 := by
  induction n generalizing pc w with
  | zero => simp [exec]
  | succ n ih => rw [Nat.add_right_comm]; exact ih _ _

@[simp] theorem AppendPc.exec_done (a : AppendArgs) (n : Nat) (r : Except Err UploadAppendResult)
    (w : World) : exec a n (.done r) w = (.done r, w) := by
  induction n with
  | zero => rfl
  | succ n ih => exact ih

theorem AppendPc.exec_step {a : AppendArgs} {n : Nat} {pc pc' : AppendPc} {w w' : World}
    (h : pc.step a false w = (pc', w')) : exec a (n + 1) pc w = exec a n pc' w' := by
  simp only [exec, h]

theorem AppendPc.step_chunks_cons (a : AppendArgs) (m k : Nat) (c : Bytes) (rest : List Bytes)
    (w : World) :
    (AppendPc.chunks m k (c :: rest)).step a false w =
      if c.isEmpty then (.chunks m k rest, w)
      else if a.expectedOffset + ((k + c.length : Nat) : Int) > m then
        (.failSize (.validation "Upload exceeds maximum allowed file size"), w)
      else (.chunks m (k + c.length) rest, w.withStorage (w.storage.appendUploadChunk a.uploadId c)) :=
  rfl

/-- The longest prefix of `chunks` whose bytes fit in `budget`. -/
def fittingPrefix (budget : Int) : List Bytes → List Bytes
  | [] => []
  | c :: cs => if (c.length : Int) ≤ budget then c :: fittingPrefix (budget - c.length) cs else []

/-- `fittingPrefix` is a prefix, its bytes fit in a budget that is not negative, and
    no longer prefix fits. -/
theorem fittingPrefix_longest (budget : Int) (cs : List Bytes) :
    fittingPrefix budget cs <+: cs ∧
      (0 ≤ budget → ((fittingPrefix budget cs).flatten.length : Int) ≤ budget) ∧
      ∀ p, p <+: cs → (p.flatten.length : Int) ≤ budget → p.length ≤ (fittingPrefix budget cs).length := by
  induction cs generalizing budget with
  | nil => exact ⟨List.prefix_refl _, fun h => by simpa using h, fun p hp _ => by simp [List.prefix_nil.mp hp]⟩
  | cons c cs ih =>
    obtain ⟨hpre, hfit, hlong⟩ := ih (budget - c.length)
    unfold fittingPrefix
    split_ifs with hc
    · refine ⟨List.cons_prefix_cons.mpr ⟨rfl, hpre⟩, fun _ => ?_, fun p hp hpb => ?_⟩
      · have := hfit (by omega)
        simp only [List.flatten_cons, List.length_append]
        omega
      rcases p with _ | ⟨d, p⟩
      · simp
      · obtain ⟨rfl, hp'⟩ := List.cons_prefix_cons.mp hp
        simp only [List.flatten_cons, List.length_append, List.length_cons] at hpb ⊢
        have := hlong p hp' (by omega)
        omega
    · refine ⟨List.nil_prefix, fun h => by simpa using h, fun p hp hpb => ?_⟩
      rcases p with _ | ⟨d, p⟩
      · simp
      · obtain ⟨rfl, -⟩ := List.cons_prefix_cons.mp hp
        simp only [List.flatten_cons, List.length_append] at hpb
        omega

/-- **The chunk loop, when every chunk fits**: a step per chunk writes the
    non-empty chunks to the temp file, and the loop ends. -/
theorem AppendPc.exec_fit {a : AppendArgs} {m : Nat} :
    ∀ (rest : List Bytes) (k : Nat) (w : World),
      a.expectedOffset + ((k + rest.flatten.length : Nat) : Int) ≤ m →
      ∃ st : Storage, exec a (rest.length + 1) (.chunks m k rest) w = (.size, w.withStorage st) ∧
        (st.tempContent a.uploadId).getD [] = (w.storage.tempContent a.uploadId).getD [] ++ rest.flatten
  | [], k, w, _ => ⟨w.storage, rfl, by simp⟩
  | c :: rest, k, w, hfit => by
    simp only [List.flatten_cons, List.length_append] at hfit
    by_cases he : c.isEmpty
    · obtain rfl : c = [] := List.isEmpty_iff.mp he
      obtain ⟨st, hx, hb⟩ := exec_fit rest k w (by simpa using hfit)
      exact ⟨st, hx, by simpa using hb⟩
    · have hc : ¬(a.expectedOffset + ((k + c.length : Nat) : Int) > m) := by omega
      obtain ⟨st, hx, hb⟩ := @exec_fit a m rest (k + c.length)
        (w.withStorage (w.storage.appendUploadChunk a.uploadId c)) (by omega)
      refine ⟨st, (exec_step (by rw [step_chunks_cons, if_neg he, if_neg hc])).trans hx, ?_⟩
      rw [hb]
      simp [World.withStorage, Storage.tempContent_appendUploadChunk_getD]

/-- **The chunk loop, when a chunk does not fit**: it stops at the first chunk that
    would pass `max_size_bytes`, with the chunks before it written. -/
theorem AppendPc.exec_overflow {a : AppendArgs} {m : Nat} :
    ∀ (rest : List Bytes) (k : Nat) (w : World), a.expectedOffset + k ≤ m →
      (m : Int) < a.expectedOffset + ((k + rest.flatten.length : Nat) : Int) →
      ∃ j ≤ rest.length, ∃ st : Storage,
        exec a (j + 1) (.chunks m k rest) w =
          (.failSize (.validation "Upload exceeds maximum allowed file size"), w.withStorage st) ∧
        (st.tempContent a.uploadId).getD [] = (w.storage.tempContent a.uploadId).getD [] ++
          (fittingPrefix (m - a.expectedOffset - k) rest).flatten
  | [], k, w, hk, hover => absurd hover (by simp only [List.flatten_nil, List.length_nil]; omega)
  | c :: rest, k, w, hk, hover => by
    simp only [List.flatten_cons, List.length_append] at hover
    by_cases he : c.isEmpty
    · obtain rfl : c = [] := List.isEmpty_iff.mp he
      obtain ⟨j, hj, st, hx, hb⟩ := exec_overflow rest k w hk (by simpa using hover)
      refine ⟨j + 1, by simp; omega, st, hx, ?_⟩
      rw [hb, fittingPrefix, if_pos (by simp; omega)]
      simp
    · by_cases hc : a.expectedOffset + ((k + c.length : Nat) : Int) > m
      · refine ⟨0, by simp, w.storage, exec_step (by rw [step_chunks_cons, if_neg he, if_pos hc]; rfl), ?_⟩
        rw [fittingPrefix, if_neg (by omega)]
        simp
      · obtain ⟨j, hj, st, hx, hb⟩ := @exec_overflow a m rest (k + c.length)
          (w.withStorage (w.storage.appendUploadChunk a.uploadId c)) (by omega) (by omega)
        refine ⟨j + 1, by simp; omega, st,
          (exec_step (by rw [step_chunks_cons, if_neg he, if_neg hc])).trans hx, ?_⟩
        have hbudget : (m : Int) - a.expectedOffset - ((k + c.length : Nat) : Int) =
            (m - a.expectedOffset - k) - c.length := by omega
        rw [hb, hbudget, fittingPrefix, if_pos (by omega)]
        simp [World.withStorage, Storage.tempContent_appendUploadChunk_getD]

/-- What `append_upload_stream(a)`, run to its end with no I/O fault, does to the
    session row `r` of its upload id and user in `w`:
    * on a session that is not PENDING or UPLOADING, or that holds other than
      `expected_offset` bytes, it raises `ConflictError` and changes nothing;
    * when the chunks fit in `max_size_bytes`, it returns `expected_offset` plus
      their bytes, appends them to the temp file, and leaves the session UPLOADING
      with that offset;
    * when they do not, it raises `ValidationError`, appends the longest prefix of
      the chunks that fits, and leaves the session FAILED with the length of the
      temp file. -/
structure AppendContract (a : AppendArgs) (r : UploadSession) (w : World) : Prop where
  conflict : r.status.writable = false ∨ (r.bytesReceived : Int) ≠ a.expectedOffset →
    ∃ msg, a.exec w = (.done (.error (.conflict msg)), w)
  fits : r.status.writable → (r.bytesReceived : Int) = a.expectedOffset →
    a.expectedOffset + a.chunks.flatten.length ≤ r.maxSizeBytes →
    ∃ st : Storage,
      a.exec w = (.done (.ok ⟨a.uploadId, r.bytesReceived + a.chunks.flatten.length,
          UploadStatus.uploading.text⟩),
        ⟨w.db.saveSession { r with bytesReceived := r.bytesReceived + a.chunks.flatten.length,
                                   status := .uploading, errorMessage := none }, st⟩) ∧
      (st.tempContent a.uploadId).getD [] = (w.storage.tempContent a.uploadId).getD [] ++ a.chunks.flatten
  overflows : r.status.writable → (r.bytesReceived : Int) = a.expectedOffset →
    (r.maxSizeBytes : Int) < a.expectedOffset + a.chunks.flatten.length →
    ∃ st : Storage,
      a.exec w = (.done (.error (.validation "Upload exceeds maximum allowed file size")),
        ⟨w.db.saveSession { r with bytesReceived := ((st.tempContent a.uploadId).getD []).length,
                                   status := .failed, errorMessage := some "Chunk append failed" }, st⟩) ∧
      (st.tempContent a.uploadId).getD [] = (w.storage.tempContent a.uploadId).getD [] ++
        (fittingPrefix (r.maxSizeBytes - a.expectedOffset) a.chunks).flatten

section Contract

variable {a : AppendArgs} {w : World} {r : UploadSession}

/-- The first block on the session `r`, when it proceeds. -/
theorem AppendPc.step_lock_proceed (hwf : w.db.WF) (hr : r ∈ w.db.sessions) (hid : r.id = a.uploadId)
    (hk : r.userId = a.userId) (hw : r.status.writable) (ho : (r.bytesReceived : Int) = a.expectedOffset) :
    AppendPc.lock.step a false w =
      (.chunks r.maxSizeBytes 0 a.chunks, { w with db := w.db.saveSession { r with status := .uploading } }) ∧
      (w.db.saveSession { r with status := .uploading }).getUploadSessionForUserForUpdate a.uploadId a.userId =
        .ok (some { r with status := .uploading }) := by
  have hget : w.db.getUploadSessionForUserForUpdate a.uploadId a.userId = .ok (some r) := by
    rw [← hid, ← hk]; exact hwf.getUploadSessionForUserForUpdate hr
  have hget' : (w.db.saveSession { r with status := .uploading }).getUploadSessionForUserForUpdate
      a.uploadId a.userId = .ok (some { r with status := .uploading }) := by
    rw [← hid, ← hk]
    exact (hwf.saveSession (r := { r with status := .uploading }) hr rfl).getUploadSessionForUserForUpdate
      (Db.mem_saveSession_self hr rfl)
  refine ⟨?_, hget'⟩
  simp only [AppendPc.step, AppendPc.run, Bool.false_eq_true, if_false,
    World.tx_of_ok (appendLockTx_proceed hget hw ho)]

/-- An append on a session that is not writable, or from another offset, raises
    `ConflictError` from its first block and changes nothing; this needs nothing
    of the temp files. -/
theorem AppendArgs.exec_conflict (hwf : w.db.WF) (hr : r ∈ w.db.sessions) (hid : r.id = a.uploadId)
    (hk : r.userId = a.userId)
    (hbad : r.status.writable = false ∨ (r.bytesReceived : Int) ≠ a.expectedOffset) :
    ∃ msg, a.exec w = (.done (.error (.conflict msg)), w) := by
  have hget := hwf.getUploadSessionForUserForUpdate hr
  rw [hid, hk] at hget
  obtain ⟨msg, hlock⟩ := appendLockTx_conflict hget hbad
  refine ⟨msg, AppendPc.exec_step ?_ |>.trans (AppendPc.exec_done _ _ _ _)⟩
  simp only [AppendPc.step, AppendPc.run, Bool.false_eq_true, if_false, World.tx_of_error hlock]

/-- The contract holds of every session in a world whose PENDING and UPLOADING
    sessions record the size of their temp file. -/
theorem append_contract_of_tracked (hwf : w.db.WF) (ht : w.Tracked) (hr : r ∈ w.db.sessions)
    (hid : r.id = a.uploadId) (hk : r.userId = a.userId) : AppendContract a r w := by
  refine ⟨AppendArgs.exec_conflict hwf hr hid hk, fun hw ho hfit => ?fits, fun hw ho hover => ?overflows⟩
  case fits =>
    obtain ⟨hlock, hget⟩ := AppendPc.step_lock_proceed hwf hr hid hk hw ho
    obtain ⟨st, hx, hb⟩ := @AppendPc.exec_fit a r.maxSizeBytes a.chunks 0
      { w with db := w.db.saveSession { r with status := .uploading } } (by omega)
    have hsize : st.getUploadSize a.uploadId = r.bytesReceived + a.chunks.flatten.length := by
      rw [Storage.getUploadSize_eq_length, hb, List.length_append, ← Storage.getUploadSize_eq_length, ← hid,
        ← (ht r hr hw).1]
    refine ⟨st, ?_, hb⟩
    rw [AppendArgs.exec, AppendPc.exec_step hlock, show a.chunks.length + 3 = a.chunks.length + 1 + 2 by omega,
      AppendPc.exec_add, hx]
    simp only [AppendPc.exec, AppendPc.step, AppendPc.run, Bool.false_eq_true, if_false, World.withStorage, hsize,
      World.tx, Db.atomically, appendFinishTx_of_found hget, Db.saveSession_saveSession]
  case overflows =>
    obtain ⟨hlock, hget⟩ := AppendPc.step_lock_proceed hwf hr hid hk hw ho
    have hmax := (ht r hr hw).2
    obtain ⟨j, hj, st, hx, hb⟩ := @AppendPc.exec_overflow a r.maxSizeBytes a.chunks 0
      { w with db := w.db.saveSession { r with status := .uploading } } (by omega) (by omega)
    refine ⟨st, ?_, by simpa using hb⟩
    rw [AppendArgs.exec, AppendPc.exec_step hlock,
      show a.chunks.length + 3 = j + 1 + (a.chunks.length - j + 2) by omega, AppendPc.exec_add, hx]
    simp only [AppendPc.exec, AppendPc.step, AppendPc.run, Bool.false_eq_true, if_false, World.withStorage,
      World.tx, Db.atomically, appendFailTx_of_found hget, Db.saveSession_saveSession,
      Storage.getUploadSize_eq_length, AppendPc.exec_done]

end Contract

/-- **The append contract.** In every reachable state, under any interleaving and
    any faults, an append on a session that is not writable, or from another
    offset, raises `ConflictError` and changes nothing. In a state reached by calls
    made one at a time, whose I/O fails only where the code catches the fault,
    every PENDING or UPLOADING session records the size of its temp file and holds
    at most its `max_size_bytes`, and `append_upload_stream` on any session, run
    without a fault, keeps `AppendContract`. -/
theorem append_contract {svc : SoftwarePackageService} :
    (∀ s, Reachable svc anyOrder s → ∀ a : AppendArgs, ∀ r ∈ s.world.db.sessions, r.id = a.uploadId →
      r.userId = a.userId → r.status.writable = false ∨ (r.bytesReceived : Int) ≠ a.expectedOffset →
      ∃ msg, a.exec s.world = (.done (.error (.conflict msg)), s.world)) ∧
    ∀ s, Reachable svc caughtSequential s → s.quiet →
      s.world.Tracked ∧ ∀ a : AppendArgs, ∀ r ∈ s.world.db.sessions, r.id = a.uploadId →
        r.userId = a.userId → AppendContract a r s.world :=
  ⟨fun _ hs _ _ hr hid hk => AppendArgs.exec_conflict hs.wf hr hid hk,
    fun _ hs hq => ⟨hs.tracked hq, fun _ _ hr hid hk => append_contract_of_tracked hs.wf (hs.tracked hq) hr hid hk⟩⟩

/-- User 1 opens session `u1` through the init route. -/
def openUpload : List Action :=
  [.call (.initUpload 1 (exampleForm "tool" "1.0") none "u1"), .step 0 false, .step 0 false]

/-- User 1 opens `u1` and appends `[1]` and `[2]` from offset 0: the first chunk is
    written, the client stream breaks before the second, and the handler records
    the one byte and marks the session FAILED. -/
def brokenStream : List Action :=
  openUpload ++ [.call (.appendUploadStream ⟨"u1", 1, 0, [[1], [2]]⟩), .step 1 false, .step 1 false,
    .step 1 true, .step 1 false, .step 1 false]

theorem append_contract_after_broken_stream :
    (Sys.reachedBy exampleService caughtSequential brokenStream).world.db.sessions.map
        (fun s => (s.id, s.status, s.bytesReceived)) = [("u1", .failed, 1)] ∧
      (∀ a : AppendArgs, ∀ r ∈ (Sys.reachedBy exampleService caughtSequential brokenStream).world.db.sessions,
        r.id = a.uploadId → r.userId = a.userId →
        r.status.writable = false ∨ (r.bytesReceived : Int) ≠ a.expectedOffset →
        ∃ msg, a.exec (Sys.reachedBy exampleService caughtSequential brokenStream).world =
          (.done (.error (.conflict msg)), (Sys.reachedBy exampleService caughtSequential brokenStream).world)) ∧
      (Sys.reachedBy exampleService caughtSequential brokenStream).world.Tracked ∧
      ∀ a : AppendArgs, ∀ r ∈ (Sys.reachedBy exampleService caughtSequential brokenStream).world.db.sessions,
        r.id = a.uploadId → r.userId = a.userId →
        AppendContract a r (Sys.reachedBy exampleService caughtSequential brokenStream).world :=
  have hs : Reachable exampleService caughtSequential
      (Sys.reachedBy exampleService caughtSequential brokenStream) := .reachedBy (by decide)
  ⟨by decide, append_contract.1 _ (hs.mono fun _ _ _ => trivial), append_contract.2 _ hs (by decide)⟩

/-! ### A fault after the chunk loop -/

/-- User 1 opens `u1` through the init route and appends `[1]` from offset 0; the
    chunk is written, and `get_upload_size` then fails. -/
def faultAfterWrite : List Action :=
  openUpload ++ [.call (.appendUploadStream ⟨"u1", 1, 0, [[1]]⟩), .step 1 false, .step 1 false,
    .step 1 false, .step 1 true]

/-- After that run of one call at a time, session `u1` is UPLOADING with
    `bytes_received` 0 while its temp file holds one byte; an append of `[2]` from
    offset 0, with no fault, returns offset 2 rather than 1, and the conclusion of
    `append_contract` fails. -/
theorem append_offset_after_fault :
    Reachable exampleService sequential (Sys.reachedBy exampleService sequential faultAfterWrite) ∧
      (Sys.reachedBy exampleService sequential faultAfterWrite).quiet ∧
      (Sys.reachedBy exampleService sequential faultAfterWrite).world.db.sessions.map
        (fun s => (s.id, s.userId, s.status, s.bytesReceived)) = [("u1", 1, .uploading, 0)] ∧
      (Sys.reachedBy exampleService sequential faultAfterWrite).world.storage.getUploadSize "u1" = 1 ∧
      ((⟨"u1", 1, 0, [[2]]⟩ : AppendArgs).exec (Sys.reachedBy exampleService sequential faultAfterWrite).world).1 =
        .done (.ok ⟨"u1", 2, UploadStatus.uploading.text⟩) ∧
      ¬((Sys.reachedBy exampleService sequential faultAfterWrite).world.Tracked ∧
        ∀ a : AppendArgs, ∀ r ∈ (Sys.reachedBy exampleService sequential faultAfterWrite).world.db.sessions,
          r.id = a.uploadId → r.userId = a.userId →
          AppendContract a r (Sys.reachedBy exampleService sequential faultAfterWrite).world) := by
  obtain ⟨r, hr, hw, hne⟩ : ∃ r ∈ (Sys.reachedBy exampleService sequential faultAfterWrite).world.db.sessions,
      r.status.writable ∧
        r.bytesReceived ≠ (Sys.reachedBy exampleService sequential faultAfterWrite).world.storage.getUploadSize r.id := by
    decide
  exact ⟨.reachedBy (by decide), by decide, by decide, by decide, rfl, fun h => hne (h.1 r hr hw).1⟩

end TechPulse
