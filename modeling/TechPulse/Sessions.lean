import TechPulse.Quota

/-!
# The upload-session state machine

An upload session moves PENDING → UPLOADING → FINALIZING → COMPLETED, and to
FAILED from any status but COMPLETED. The blocks that write a session check its
status in their first block only: the last block of `append_upload_stream`
sets UPLOADING whatever the status has become since its first block, and the
lock of its first block is released before the chunks are written. Under
concurrency a cancelled session is made UPLOADING again
(`failed_session_reopened`), and two appends at the same offset both pass the
offset check and both write (`appends_overrun_max_size`).

`_finalize_upload_with_checksum` commits FINALIZING in its first block, and only
its version insert and its compensation write the session again, so every other
way it raises leaves the session FINALIZING (`FinalizePc.run_sessions`); a quota
rejection does so in a run of one call at a time (`session_stranded_finalizing`).

In a run of one call at a time the blocks see the status their call has set
(`Proc.StatusHeld`), and every step keeps each status or changes it as the state
machine allows (`session_status_follows_machine`).
-/

namespace TechPulse

/-- The status of session `id`. -/
def Db.statusOf (db : Db) (id : String) : Option UploadStatus :=
  (db.sessions.find? (·.id = id)).map (·.status)

/-- The changes of status the state machine allows: PENDING → UPLOADING,
    UPLOADING → UPLOADING, PENDING or UPLOADING → FINALIZING, FINALIZING →
    COMPLETED, and any status but COMPLETED → FAILED. -/
def UploadStatus.Allowed : UploadStatus → UploadStatus → Bool
  | .pending, .uploading | .uploading, .uploading | .pending, .finalizing
  | .uploading, .finalizing | .finalizing, .completed => true
  | a, .failed => a != .completed
  | _, _ => false

/-! ### The finalization writes the session twice -/

/-- After its first block, a finalization step writes the session rows only in
    the version insert or the compensation. -/
theorem FinalizePc.run_sessions {svc : SoftwarePackageService} {fa : FinalizeArgs} {w w' : World}
    {pc pc' : FinalizePc} (h : pc.run svc fa w = (pc', w')) (hpc : pc ≠ .lock) :
    w'.db.sessions = w.db.sessions ∨ (∃ s b, pc = .insert s b) ∨ ∃ b, pc = .compensate b := by
  rcases run_db h with e | ⟨rfl, -⟩ | ⟨r, hb⟩ | ⟨r, hb⟩ | ⟨s, b, r, rfl, -⟩ | ⟨b, rfl, -⟩
  · exact .inl (e ▸ rfl)
  · exact absurd rfl hpc
  · rcases blobLookupTx_ok hb with ⟨-, hdb, -⟩ | ⟨B, -, -, -, -, hdb⟩ <;> exact .inl (hdb ▸ rfl)
  · rcases blobReconcileTx_ok hb with ⟨B, -, -, -, -, hdb⟩ | ⟨-, -, hdb⟩ <;> exact .inl (hdb ▸ rfl)
  · exact .inr (.inl ⟨s, b, rfl⟩)
  · exact .inr (.inr ⟨b, rfl⟩)

/-- User 1 uploads five bytes in one request, against a quota of four. -/
def overQuota : List Action :=
  [.call (.uploadSingleRequest ⟨1, exampleForm "tool" "1.0", [[1, 2, 3, 4, 5]], "u1"⟩)] ++
    List.replicate 11 (.step 0 false)

/-- Calls one at a time: the upload is rejected by the quota and has returned,
    and its session stays FINALIZING. -/
theorem session_stranded_finalizing :
    Reachable exampleService sequential (Sys.reachedBy exampleService sequential overQuota) ∧
      (Sys.reachedBy exampleService sequential overQuota).quiet ∧
      (Sys.reachedBy exampleService sequential overQuota).world.db.statusOf "u1" = some .finalizing :=
  ⟨.reachedBy (by decide), by decide, by decide⟩

/-! ### Steps of the state machine -/

/-- The session rows change as the state machine allows: every status is kept or
    changes as `UploadStatus.Allowed` allows, no row disappears, and a new row is
    PENDING. -/
def Db.StatusStep (db db' : Db) : Prop :=
  ∀ id, (∀ a, db.statusOf id = some a →
      ∃ b, db'.statusOf id = some b ∧ (a = b ∨ UploadStatus.Allowed a b = true)) ∧
    ∀ b, db.statusOf id = none → db'.statusOf id = some b → b = .pending

namespace Db

/-- The status of a row, found by its unique id. -/
theorem statusOf_of_mem {db : Db} (hnd : (db.sessions.map (·.id)).Nodup) {s : UploadSession}
    (hs : s ∈ db.sessions) : db.statusOf s.id = some s.status := by
  unfold statusOf
  cases h : db.sessions.find? (·.id = s.id) with
  | none => exact absurd (List.find?_eq_none.mp h s hs) (by simp)
  | some x =>
    have hx : x.id = s.id := by simpa using List.find?_some h
    rw [eq_of_key_eq hnd (List.mem_of_find?_eq_some h) hs hx]
    rfl

theorem statusOf_saveSession (db : Db) (r : UploadSession) (id : String) :
    (db.saveSession r).statusOf id =
      if id = r.id then (db.statusOf id).map fun _ => r.status else db.statusOf id := by
  unfold statusOf saveSession
  rw [List.find?_map]
  have hp : ((fun x : UploadSession => decide (x.id = id)) ∘ fun c => if c.id = r.id then r else c) =
      fun x => decide (x.id = id) := by
    funext c
    by_cases hc : c.id = r.id <;> by_cases e : id = r.id <;> simp_all [eq_comm]
  rw [hp]
  cases hf : db.sessions.find? (fun x => decide (x.id = id)) with
  | none => split_ifs <;> rfl
  | some x =>
    have hx : x.id = id := by simpa using List.find?_some hf
    by_cases e : id = r.id <;> simp [e, hx]

theorem statusOf_congr {db db' : Db} (h : db'.sessions = db.sessions) : db'.statusOf = db.statusOf := by
  funext id; simp [statusOf, h]

theorem StatusStep.of_sessions {db db' : Db} (h : db'.sessions = db.sessions) : db.StatusStep db' := by
  intro id
  rw [statusOf_congr h]
  exact ⟨fun a ha => ⟨a, ha, .inl rfl⟩, fun _ hn hb => by rw [hn] at hb; cases hb⟩

/-- Writing back a session row under its id, with a status the state machine
    allows from the row's status, is a step of the state machine. -/
theorem StatusStep.save {db : Db} (hnd : (db.sessions.map (·.id)).Nodup) {s r : UploadSession}
    (hs : s ∈ db.sessions) (hid : r.id = s.id)
    (hab : s.status = r.status ∨ UploadStatus.Allowed s.status r.status = true) :
    db.StatusStep (db.saveSession r) := by
  intro id
  rw [statusOf_saveSession]
  split_ifs with e
  · rw [e, hid, statusOf_of_mem hnd hs]
    exact ⟨fun a ha => by cases ha; exact ⟨_, rfl, hab⟩, fun _ hn => by cases hn⟩
  · exact ⟨fun a ha => ⟨a, ha, .inl rfl⟩, fun _ hn hb => by rw [hn] at hb; cases hb⟩

theorem statusOf_saveSession_self {db : Db} (hnd : (db.sessions.map (·.id)).Nodup)
    {s r : UploadSession} (hs : s ∈ db.sessions) (hid : r.id = s.id) :
    (db.saveSession r).statusOf s.id = some r.status := by
  rw [statusOf_saveSession, if_pos hid.symm, statusOf_of_mem hnd hs]
  rfl

/-- Adding a PENDING session row is a step of the state machine. -/
theorem StatusStep.newSession {db : Db} {s : UploadSession} (hp : s.status = .pending) :
    db.StatusStep { db with sessions := db.sessions ++ [s] } := by
  intro id
  simp only [statusOf, List.find?_append]
  cases hf : db.sessions.find? (fun x => decide (x.id = id)) with
  | some x => exact ⟨fun a ha => ⟨a, ha, .inl rfl⟩, fun _ hn _ => by cases hn⟩
  | none =>
    refine ⟨fun _ ha => (by cases ha), fun b _ hb => ?_⟩
    by_cases e : s.id = id <;> simp_all [List.find?]


/-- The status of the row that `get_upload_session_for_user_for_update` returns. -/
theorem statusOf_of_get {db : Db} (hwf : db.WF) {u : String} {k : Int} {s : UploadSession}
    (h : db.getUploadSessionForUserForUpdate u k = .ok (some s)) : db.statusOf u = some s.status := by
  obtain ⟨hm, rfl, -⟩ := getUploadSessionForUserForUpdate_some h
  exact statusOf_of_mem hwf.sessionIds hm

theorem StatusStep.of_eq_left {db db1 db' : Db} (h : db1.sessions = db.sessions)
    (hs : db1.StatusStep db') : db.StatusStep db' := by
  rwa [Db.StatusStep, Db.statusOf_congr h] at hs

end Db

/-! ### What each block does to the statuses -/

theorem appendLockTx_status {u : String} {k o : Int} {db db' : Db} {m : Nat} (hwf : db.WF)
    (h : appendLockTx u k o db = .ok (m, db')) : db.StatusStep db' ∧ db'.statusOf u = some .uploading := by
  obtain ⟨s, hget, hst, -, -, rfl⟩ := appendLockTx_ok h
  obtain ⟨hm, rfl, -⟩ := getUploadSessionForUserForUpdate_some hget
  exact ⟨Db.StatusStep.save hwf.sessionIds hm rfl
    (by revert hst; cases s.status <;> simp [UploadStatus.Allowed]),
    Db.statusOf_saveSession_self hwf.sessionIds hm rfl⟩

theorem appendFailTx_status {u : String} {k : Int} {n : Nat} {db db' : Db} (hwf : db.WF)
    (hu : db.statusOf u = some .uploading) (h : appendFailTx u k n db = .ok ((), db')) :
    db.StatusStep db' := by
  rcases appendFailTx_ok h with ⟨-, rfl⟩ | ⟨s, hget, rfl⟩
  · exact .of_sessions rfl
  · have hst := Option.some.inj ((Db.statusOf_of_get hwf hget).symm.trans hu)
    obtain ⟨hm, rfl, -⟩ := getUploadSessionForUserForUpdate_some hget
    exact Db.StatusStep.save hwf.sessionIds hm rfl (.inr (by rw [hst]; rfl))

theorem appendFinishTx_status {u : String} {k : Int} {n : Nat} {db db' : Db}
    {r : UploadAppendResult} (hwf : db.WF) (hu : db.statusOf u = some .uploading)
    (h : appendFinishTx u k n db = .ok (r, db')) : db.StatusStep db' := by
  obtain ⟨s, hget, -, rfl⟩ := appendFinishTx_ok h
  have hst := Option.some.inj ((Db.statusOf_of_get hwf hget).symm.trans hu)
  obtain ⟨hm, rfl, -⟩ := getUploadSessionForUserForUpdate_some hget
  exact Db.StatusStep.save hwf.sessionIds hm rfl (.inl hst)

theorem finalizeLockTx_status {u : String} {k : Int} {db db' : Db} {o : LockOutcome}
    (hwf : db.WF) (h : finalizeLockTx u k db = .ok (o, db')) :
    db.StatusStep db' ∧ ∀ s, o = .proceed s → db'.statusOf u = some .finalizing := by
  obtain ⟨s, hget, ⟨-, -, -, rfl, rfl⟩ | ⟨hc, hf, hfin, -, rfl, rfl⟩⟩ := finalizeLockTx_ok h
  · exact ⟨.of_sessions rfl, fun _ h => by cases h⟩
  · obtain ⟨hm, rfl, -⟩ := getUploadSessionForUserForUpdate_some hget
    exact ⟨Db.StatusStep.save hwf.sessionIds hm rfl
      (by revert hc hf hfin; cases s.status <;> simp [UploadStatus.Allowed]),
      fun _ _ => Db.statusOf_saveSession_self hwf.sessionIds hm rfl⟩

theorem versionInsertTx_status {a : FinalizeArgs} {s : UploadSession} {b : Nat} {db db' : Db}
    {r : Nat} (hwf : db.WF) (hu : db.statusOf a.uploadId = some .finalizing)
    (h : versionInsertTx a s b db = .ok (r, db')) : db.StatusStep db' := by
  obtain ⟨pkg, db1, sess, hup, -, -, -, hmem, hid, -, rfl⟩ := versionInsertTx_ok h
  have h1 : db1.sessions = db.sessions := by
    rcases (upsertPackage_ok hup).2.2.2 with ⟨p, -, -, -, -, rfl⟩ | ⟨-, -, rfl⟩ <;> rfl
  have hst : sess.status = .finalizing := by
    rw [← hid, ← Db.statusOf_congr h1] at hu
    exact Option.some.inj ((Db.statusOf_of_mem (h1 ▸ hwf.sessionIds) hmem).symm.trans hu)
  exact Db.StatusStep.of_eq_left h1
    (Db.StatusStep.save (h1 ▸ hwf.sessionIds) hmem rfl (.inr (by rw [hst]; rfl)))

theorem compensateTx_status {a : FinalizeArgs} {b : Nat} {db db' : Db} (hwf : db.WF)
    (hu : db.statusOf a.uploadId = some .finalizing) (h : compensateTx a b db = .ok ((), db')) :
    db.StatusStep db' := by
  obtain ⟨db1, h1, h2⟩ := compensateTx_ok h
  have hs : db1.sessions = db.sessions := by rcases h1 with rfl | ⟨d, -, -, rfl⟩ <;> rfl
  rcases h2 with rfl | ⟨s, hget, rfl⟩
  · exact .of_sessions hs
  · obtain ⟨hm, hid, -⟩ := getUploadSessionForUserForUpdate_some hget
    have hst : s.status = .finalizing :=
      Option.some.inj ((Db.statusOf_of_mem hwf.sessionIds (hs ▸ hm)).symm.trans (hid ▸ hu))
    exact .of_eq_left hs (.save (hs ▸ hwf.sessionIds) hm rfl (.inr (by rw [hst]; rfl)))

theorem cancelTx_status {u : String} {k : Int} {db db' : Db} (hwf : db.WF)
    (h : cancelTx u k db = .ok ((), db')) : db.StatusStep db' := by
  obtain ⟨s, hget, hc, rfl⟩ := cancelTx_ok h
  obtain ⟨hm, rfl, -⟩ := getUploadSessionForUserForUpdate_some hget
  exact Db.StatusStep.save hwf.sessionIds hm rfl
    (.inr (by revert hc; cases s.status <;> simp [UploadStatus.Allowed]))

theorem initUploadSession_status {svc : SoftwarePackageService} {k : Int} {f : PackageForm}
    {m : Option Int} {u : String} {db db' : Db} {r : UploadInitResult}
    (h : svc.initUploadSession k f m u db = .ok (r, db')) : db.StatusStep db' := by
  obtain ⟨s, -, -, hp, -, -, -, rfl⟩ := initUploadSession_ok h
  exact .newSession hp

/-! ### The status a call in progress relies on -/

/-- Whether an append has committed its first block and not returned. -/
def AppendPc.writing : AppendPc → Bool
  | .lock | .done _ => false
  | _ => true

section StatusSteps

variable {w w' : World}

theorem AppendPc.step_status {a : AppendArgs} {fault : Bool} {pc pc' : AppendPc} (hwf : w.db.WF)
    (hJ : pc.writing → w.db.statusOf a.uploadId = some .uploading)
    (h : pc.step a fault w = (pc', w')) :
    w.db.StatusStep w'.db ∧ (pc'.writing → w'.db.statusOf a.uploadId = some .uploading) := by
  have keep : w' = w ∨ w'.db = w.db → pc.writing = true →
      w.db.StatusStep w'.db ∧ (pc'.writing → w'.db.statusOf a.uploadId = some .uploading) := by
    rintro (rfl | e) hw
    · exact ⟨.of_sessions rfl, fun _ => hJ hw⟩
    · exact ⟨.of_sessions (congrArg Db.sessions e), fun _ => e ▸ hJ hw⟩
  cases pc with
  | done r => cases h; exact ⟨.of_sessions rfl, fun h => by cases h⟩
  | chunks m k rest =>
    cases fault
    case true => cases h; exact keep (.inl rfl) rfl
    cases rest with
    | nil => cases h; exact keep (.inl rfl) rfl
    | cons c rest =>
      simp only [AppendPc.step, AppendPc.run, Bool.false_eq_true, if_false] at h
      split_ifs at h <;> cases h <;> exact keep (.inr rfl) rfl
  | failSize e => cases fault <;> cases h <;> exact keep (.inl rfl) rfl
  | size => cases fault <;> cases h <;> exact keep (.inl rfl) rfl
  | lock =>
    cases fault
    case true => cases h; exact ⟨.of_sessions rfl, fun h => by cases h⟩
    simp only [AppendPc.step, AppendPc.run, Bool.false_eq_true, if_false] at h
    split at h <;> cases h
    · exact ⟨World.tx_db ‹_› (.of_sessions rfl) fun _ _ hb => (appendLockTx_status hwf hb).1,
        fun h => by cases h⟩
    · obtain ⟨_, -, hb, -⟩ | ⟨_, ⟨⟩, -⟩ := World.tx_cases ‹_›
      exact ⟨(appendLockTx_status hwf hb).1, fun _ => (appendLockTx_status hwf hb).2⟩
  | failTx e n =>
    cases fault
    case true => cases h; exact ⟨.of_sessions rfl, fun h => by cases h⟩
    simp only [AppendPc.step, AppendPc.run, Bool.false_eq_true, if_false] at h
    split at h <;> cases h <;>
      exact ⟨World.tx_db ‹_› (.of_sessions rfl) fun _ _ hb => appendFailTx_status hwf (hJ rfl) hb,
        fun h => by cases h⟩
  | finish n =>
    cases fault
    case true => cases h; exact ⟨.of_sessions rfl, fun h => by cases h⟩
    simp only [AppendPc.step, AppendPc.run, Bool.false_eq_true, if_false] at h
    split at h <;> cases h <;>
      exact ⟨World.tx_db ‹_› (.of_sessions rfl) fun _ _ hb => appendFinishTx_status hwf (hJ rfl) hb,
        fun h => by cases h⟩

theorem FinalizePc.step_status {svc : SoftwarePackageService} {fa : FinalizeArgs} {fault : Bool}
    {pc pc' : FinalizePc} (hwf : w.db.WF)
    (hJ : pc.locked → w.db.statusOf fa.uploadId = some .finalizing)
    (h : pc.step svc fa fault w = (pc', w')) :
    w.db.StatusStep w'.db ∧ (pc'.locked → w'.db.statusOf fa.uploadId = some .finalizing) := by
  rcases step_db h with ⟨rfl, r, rfl⟩ | hr
  · exact ⟨.of_sessions rfl, fun h => by cases h⟩
  clear h
  rename' hr => h
  cases pc
  case lock =>
    simp only [FinalizePc.run] at h
    cases hT : w.tx (finalizeLockTx fa.uploadId fa.userId) with
    | mk r w1 =>
      rw [hT] at h
      rcases World.tx_cases hT with ⟨o, rfl, hb, -⟩ | ⟨e, rfl, -, rfl⟩
      · obtain ⟨hs, hf⟩ := finalizeLockTx_status hwf hb
        cases o with
        | replay v => cases h; exact ⟨hs, fun h => by cases h⟩
        | proceed s =>
          dsimp only at h
          split at h <;> cases h
          · exact ⟨hs, fun h => by cases h⟩
          · exact ⟨hs, fun _ => hf s rfl⟩
      · cases h; exact ⟨.of_sessions rfl, fun h => by cases h⟩
  case insert s b =>
    simp only [FinalizePc.run] at h
    cases hT : w.tx (versionInsertTx fa s b) with
    | mk r w1 =>
      rw [hT] at h
      rcases World.tx_cases hT with ⟨v, rfl, hb, -⟩ | ⟨e, rfl, -, rfl⟩
      · cases h; exact ⟨versionInsertTx_status hwf (hJ rfl) hb, fun h => by cases h⟩
      · dsimp only at h
        split at h <;> cases h
        · exact ⟨.of_sessions rfl, fun _ => hJ rfl⟩
        · exact ⟨.of_sessions rfl, fun h => by cases h⟩
  case compensate b =>
    simp only [FinalizePc.run] at h
    cases hT : w.tx (compensateTx fa b) with
    | mk r w1 =>
      rw [hT] at h
      rcases World.tx_cases hT with ⟨⟨⟩, rfl, hb, -⟩ | ⟨e, rfl, -, rfl⟩
      · cases h; exact ⟨compensateTx_status hwf (hJ rfl) hb, fun h => by cases h⟩
      · cases h; exact ⟨.of_sessions rfl, fun h => by cases h⟩
  case done r => cases h; exact ⟨.of_sessions rfl, fun h => by cases h⟩
  all_goals
    rcases run_sessions h (by simp) with e | ⟨_, _, he⟩ | ⟨_, he⟩
    · exact ⟨.of_sessions e, fun _ => by rw [Db.statusOf_congr e]; exact hJ rfl⟩
    all_goals cases he

/-- The status each call in progress has set on its session and relies on: an
    append between its first block and its return finds the session UPLOADING,
    a finalization between its first block and its return finds it FINALIZING. -/
def Proc.StatusHeld (db : Db) : Proc → Prop
  | .append a pc => pc.writing → db.statusOf a.uploadId = some .uploading
  | .single a (.append _ pc) => pc.writing → db.statusOf a.uploadId = some .uploading
  | .single _ (.finalize fa pc) | .complete _ _ (.finalize fa pc) =>
    pc.locked → db.statusOf fa.uploadId = some .finalizing
  | _ => True

theorem Proc.step_status {svc : SoftwarePackageService} {fault : Bool} {p p' : Proc}
    (hwf : w.db.WF) (hJ : p.StatusHeld w.db) (h : p.step svc fault w = (p', w')) :
    w.db.StatusStep w'.db ∧ p'.StatusHeld w'.db := by
  cases p with
  | initUpload k f m u pc =>
    cases pc <;> simp only [Proc.step, InitPc.step] at h <;> (repeat' split at h) <;> cases h <;>
      first
      | exact ⟨.of_sessions rfl, trivial⟩
      | exact ⟨(World.tx_db (by assumption) (.of_sessions rfl)
          fun _ _ hb => initUploadSession_status hb), trivial⟩
  | append a pc =>
    simp only [Proc.step] at h; cases h
    exact AppendPc.step_status hwf hJ rfl
  | single a pc =>
    cases pc with
    | append hh apc =>
      cases hT : apc.step a.append fault w with
      | mk apc' w1 =>
        simp only [Proc.step, SinglePc.step, hT] at h
        obtain ⟨hs, hJ'⟩ := AppendPc.step_status (a := a.append) hwf hJ hT
        rcases apc' with _ | _ | _ | _ | _ | _ | ⟨_ | _⟩ <;> cases h <;>
          first | exact ⟨hs, hJ'⟩ | exact ⟨hs, trivial⟩ | exact ⟨hs, fun h => by cases h⟩
    | finalize fa fpc =>
      cases hT : fpc.step svc fa fault w with
      | mk fpc' w1 =>
        simp only [Proc.step, SinglePc.step, hT] at h
        obtain ⟨hs, hJ'⟩ := FinalizePc.step_status hwf hJ hT
        rcases fpc' with _ | _ | _ | _ | _ | _ | _ | _ | _ | ⟨_ | _⟩ <;> cases h <;>
          first | exact ⟨hs, hJ'⟩ | exact ⟨hs, trivial⟩
    | _ =>
      simp only [Proc.step, SinglePc.step] at h
      (repeat' split at h) <;> cases h <;>
        first
        | exact ⟨.of_sessions rfl, trivial⟩
        | exact ⟨.of_sessions rfl, fun h => by cases h⟩
        | exact ⟨(World.tx_db (by assumption) (.of_sessions rfl)
            fun _ _ hb => initUploadSession_status hb), trivial⟩
  | complete u k pc =>
    cases pc with
    | finalize fa fpc =>
      cases hT : fpc.step svc fa fault w with
      | mk fpc' w1 =>
        simp only [Proc.step, CompletePc.step, hT] at h
        obtain ⟨hs, hJ'⟩ := FinalizePc.step_status hwf hJ hT
        rcases fpc' with _ | _ | _ | _ | _ | _ | _ | _ | _ | ⟨_ | _⟩ <;> cases h <;>
          first | exact ⟨hs, hJ'⟩ | exact ⟨hs, trivial⟩
    | _ =>
      simp only [Proc.step, CompletePc.step] at h
      (repeat' split at h) <;> cases h <;>
        first | exact ⟨.of_sessions rfl, trivial⟩ | exact ⟨.of_sessions rfl, fun h => by cases h⟩
  | cancel u k pc =>
    cases pc <;> simp only [Proc.step, CancelPc.step] at h <;> (repeat' split at h) <;> cases h <;>
      first
      | exact ⟨.of_sessions rfl, trivial⟩
      | exact ⟨(World.tx_db (by assumption) (.of_sessions rfl) fun _ _ hb => cancelTx_status hwf hb), trivial⟩
  | ticket k q v pc =>
    cases pc with
    | tx =>
      cases fault
      · cases hT : w.tx (getDownloadTicketTx q v) with
        | mk r w1 =>
          simp only [Proc.step, TicketPc.step, hT, Bool.false_eq_true, if_false] at h
          cases h
          refine ⟨World.tx_db hT (.of_sessions rfl) fun _ _ hb => ?_, trivial⟩
          obtain ⟨x, -, rfl⟩ := getDownloadTicketTx_ok hb
          exact .of_sessions rfl
      · cases h; exact ⟨.of_sessions rfl, trivial⟩
    | done r => cases h; exact ⟨.of_sessions rfl, trivial⟩
  | delete q k pc =>
    cases pc <;> simp only [Proc.step, DeletePc.step] at h <;> (repeat' split at h) <;> cases h <;>
      first
      | exact ⟨.of_sessions rfl, trivial⟩
      | exact ⟨World.tx_db (by assumption) (.of_sessions rfl) fun _ _ hb =>
          .of_sessions (deletePackageTx_tables hwf hb).2.2, trivial⟩

end StatusSteps

/-! ### Runs of one call at a time -/

theorem Proc.statusHeld_of_isDone {db : Db} {p : Proc} (h : p.isDone = true) : p.StatusHeld db := by
  cases p <;> first | trivial | (rename_i pc; cases pc <;> first | trivial | exact fun h => by cases h)

/-- In a run of one call at a time, every call in progress finds its session in
    the status it has set. -/
theorem Reachable.statusHeld {svc : SoftwarePackageService} {s : Sys}
    (h : Reachable svc sequential s) : ∀ p ∈ s.procs, p.StatusHeld s.world.db :=
  (Reachable.seq_inv (I := fun _ => True) (J := fun p w => p.StatusHeld w.db) trivial
    (fun c {_} _ _ => by cases c <;> first | trivial | exact fun h => by cases h)
    (fun hd => Proc.statusHeld_of_isDone hd)
    (fun hw _ hJ hst => ⟨trivial, (Proc.step_status hw hJ hst).2⟩) h).2.2

/-- **Calls made one at a time follow the upload-session state machine.** From
    every state that a run of one call at a time reaches, the next action keeps
    each session's status or changes it as `UploadStatus.Allowed` allows, removes
    no session, and adds sessions only as PENDING. -/
theorem session_status_follows_machine {svc : SoftwarePackageService} {s s' : Sys} {a : Action}
    (h : Reachable svc sequential s) (hn : s.next svc a = some s') :
    s.world.db.StatusStep s'.world.db := by
  rcases Sys.next_cases hn with ⟨c, -, rfl⟩ | ⟨pid, fault, p, p', -, hget, -, hst, -⟩
  · exact .of_sessions rfl
  · exact (Proc.step_status h.wf (h.statusHeld p (List.getElem?_mem hget)) hst).1

/-- User 1's one-shot upload has opened its session and its temp file; the first
    block of its append takes the session from PENDING to UPLOADING. -/
theorem session_status_follows_machine_first_append :
    Reachable exampleService sequential (Sys.reachedBy exampleService sequential (overQuota.take 3)) ∧
      ∃ s', (Sys.reachedBy exampleService sequential (overQuota.take 3)).next exampleService
          (.step 0 false) = some s' ∧
        (Sys.reachedBy exampleService sequential (overQuota.take 3)).world.db.StatusStep s'.world.db := by
  have h : Reachable exampleService sequential
      (Sys.reachedBy exampleService sequential (overQuota.take 3)) := .reachedBy (by decide)
  refine ⟨h, ?_⟩
  cases hn : (Sys.reachedBy exampleService sequential (overQuota.take 3)).next exampleService
      (.step 0 false) with
  | none => exact absurd (congrArg Option.isSome hn) (by decide)
  | some s' => exact ⟨s', rfl, session_status_follows_machine h hn⟩

/-! ### Concurrent appends and cancels -/

/-- User 1 opens session `u1`; an append of one byte passes its first block and
    writes its chunk; the session is cancelled; the append then reads the size
    of the removed temp file and runs its last block. -/
def cancelDuringAppend : List Action :=
  [.call (.initUpload 1 (exampleForm "tool" "1.0") none "u1"), .step 0 false, .step 0 false,
   .call (.appendUploadStream ⟨"u1", 1, 0, [[1]]⟩), .step 1 false, .step 1 false,
   .call (.cancelUpload "u1" 1), .step 2 false, .step 2 false,
   .step 1 false, .step 1 false]

/-- With no I/O fault, the append's last block takes the session from FAILED
    back to UPLOADING, a change the state machine does not allow. -/
theorem failed_session_reopened :
    Reachable exampleService noFault (Sys.reachedBy exampleService noFault cancelDuringAppend) ∧
      (Sys.reachedBy exampleService noFault cancelDuringAppend).world.db.statusOf "u1" = some .failed ∧
      ((Sys.reachedBy exampleService noFault cancelDuringAppend).next exampleService
        (.step 1 false)).map (·.world.db.statusOf "u1") = some (some .uploading) ∧
      UploadStatus.Allowed .failed .uploading = false :=
  ⟨.reachedBy (by decide), by decide, by decide, rfl⟩

/-- Session `u1` takes at most two bytes. Two appends at offset 0, of two bytes
    each, both pass the first block before either writes, and both run to their
    end. -/
def twoAppendsAtZero : List Action :=
  [.call (.initUpload 1 (exampleForm "tool" "1.0") (some 2) "u1"), .step 0 false, .step 0 false,
   .call (.appendUploadStream ⟨"u1", 1, 0, [[1, 2]]⟩),
   .call (.appendUploadStream ⟨"u1", 1, 0, [[3, 4]]⟩),
   .step 1 false, .step 2 false, .step 1 false, .step 2 false,
   .step 1 false, .step 1 false, .step 1 false, .step 2 false, .step 2 false, .step 2 false]

/-- With no I/O fault, the temp file holds four bytes, `bytes_received` is 4
    against `max_size_bytes` 2, and both appends have returned. -/
theorem appends_overrun_max_size :
    Reachable exampleService noFault (Sys.reachedBy exampleService noFault twoAppendsAtZero) ∧
      (Sys.reachedBy exampleService noFault twoAppendsAtZero).world.storage.tempContent "u1" =
        some [1, 2, 3, 4] ∧
      (Sys.reachedBy exampleService noFault twoAppendsAtZero).world.db.sessions.map
        (fun s => (s.bytesReceived, s.maxSizeBytes)) = [(4, 2)] ∧
      (Sys.reachedBy exampleService noFault twoAppendsAtZero).quiet :=
  ⟨.reachedBy (by decide), by decide, by decide, by decide⟩

end TechPulse
