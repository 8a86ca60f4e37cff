import TechPulse.Steps

/-!
# `complete_upload` reads before it checks

`complete_upload` (`app/services/software_package_service.py`, lines 274–283)
hashes the temp file of the upload id it is given, in the read loop of
`stream_upload`, and only then calls `_finalize_upload_with_checksum`, whose
first block looks the session up for the user. Two things follow.

* The finalization replays a COMPLETED session: it returns the session's version
  and writes nothing (`finalize_replays_completed`). But by then the temp file has
  been promoted or discarded, so `complete_upload` on a completed session raises
  `FileNotFoundError` before it gets there (`complete_upload_not_replayed`).
* Whether `complete_upload` raises `FileNotFoundError` or `NotFoundError` for
  another user's upload id depends on whether that user's temp file exists
  (`complete_upload_reveals_other_users_upload`).
-/

namespace TechPulse

/-! ### The replay of a completed session -/

/-- **The finalization replays a completed session.** On a COMPLETED session that
    records its version `v`, the first block of `_finalize_upload_with_checksum`
    returns `v`, and the world is left as it was. -/
theorem finalize_replays_completed (svc : SoftwarePackageService) (fa : FinalizeArgs) {w : World}
    (hwf : w.db.WF) {s : UploadSession} (hs : s ∈ w.db.sessions) (hu : s.id = fa.uploadId)
    (hk : s.userId = fa.userId) (hc : s.status = .completed) {v : Nat}
    (hv : s.completedFileVersionId = some v) :
    FinalizePc.lock.step svc fa false w = (.done (.ok v), w) := by
  have hget := hwf.getUploadSessionForUserForUpdate hs
  rw [hu, hk] at hget
  have hlock : finalizeLockTx fa.uploadId fa.userId w.db = .ok (.replay v, w.db) := by
    simp [finalizeLockTx, hget, hc, hv, bind, Except.bind, pure, Except.pure]
  simp only [FinalizePc.step, Bool.false_eq_true, if_false, FinalizePc.run, World.tx_of_ok hlock]

/-- User 1 uploads `[1, 2]` for version 1.0 of `tool` in one request. -/
def uploadOnce : List Action :=
  [.call (.uploadSingleRequest ⟨1, exampleForm "tool" "1.0", [[1, 2]], "u1"⟩)] ++
    List.replicate 14 (.step 0 false)

theorem finalize_replays_completed_after_upload :
    FinalizePc.lock.step exampleService ⟨"u1", 1, "", 0⟩ false
        (Sys.reachedBy exampleService sequential uploadOnce).world =
      (.done (.ok 1), (Sys.reachedBy exampleService sequential uploadOnce).world) := by
  have hr : Reachable exampleService sequential (Sys.reachedBy exampleService sequential uploadOnce) :=
    .reachedBy (by decide)
  exact finalize_replays_completed exampleService ⟨"u1", 1, "", 0⟩ hr.wf
    (s := (Sys.reachedBy exampleService sequential uploadOnce).world.db.sessions.head (by decide))
    (List.head_mem _) rfl rfl rfl rfl

/-- After a one-shot upload has completed, session `u1` is COMPLETED with version 1
    and its temp file is gone; `complete_upload("u1", 1)` then raises
    `FileNotFoundError` in its first step, without a fault, instead of returning 1. -/
theorem complete_upload_not_replayed :
    Reachable exampleService sequential (Sys.reachedBy exampleService sequential uploadOnce) ∧
      (Sys.reachedBy exampleService sequential uploadOnce).quiet ∧
      (Sys.reachedBy exampleService sequential uploadOnce).world.db.sessions.map
        (fun s => (s.id, s.userId, s.status, s.completedFileVersionId)) =
        [("u1", 1, .completed, some 1)] ∧
      (Sys.reachedBy exampleService sequential uploadOnce).world.storage.tempContent "u1" = none ∧
      CompletePc.open.step exampleService "u1" 1 false
          (Sys.reachedBy exampleService sequential uploadOnce).world =
        (.done (.error (.fileNotFound "u1")), (Sys.reachedBy exampleService sequential uploadOnce).world) :=
  ⟨.reachedBy (by decide), by decide, by decide, by decide, rfl⟩

/-! ### Other users' uploads -/

/-- Two worlds that differ at most in the upload sessions of users other than `k`
    and in the temp files of those sessions. -/
def World.AgreeFor (k : Int) (w w' : World) : Prop :=
  w.db.sessions.filter (·.userId = k) = w'.db.sessions.filter (·.userId = k) ∧
    w.db.packages = w'.db.packages ∧ w.db.versions = w'.db.versions ∧ w.db.blobs = w'.db.blobs ∧
    (∀ key, w.storage.objectContent key = w'.storage.objectContent key) ∧
    ∀ u, (∀ s ∈ w.db.sessions ++ w'.db.sessions, s.id = u → s.userId = k) →
      w.storage.tempContent u = w'.storage.tempContent u

/-- User 2 opens upload session `u2` through the init route. -/
def otherUserOpens : List Action :=
  [.call (.initUpload 2 (exampleForm "tool" "1.0") none "u2"), .step 0 false, .step 0 false]

/-- User 1 calls `complete_upload("u2", 1)` as call `pid`, which takes `n` steps. -/
def completeOthers (pid n : Nat) : List Action :=
  .call (.completeUpload "u2" 1) :: List.replicate n (.step pid false)

/-- Runs of one call at a time reach the empty store and the store where user 2
    has opened `u2`, two worlds that differ only in user 2's session and temp file.
    From the first, user 1's `complete_upload("u2", 1)` raises `FileNotFoundError`;
    from the second it reads and hashes user 2's temp file, and raises
    `NotFoundError`. -/
theorem complete_upload_reveals_other_users_upload :
    Reachable exampleService sequential (Sys.reachedBy exampleService sequential otherUserOpens) ∧
      (Sys.reachedBy exampleService sequential otherUserOpens).quiet ∧ Sys.empty.quiet ∧
      World.AgreeFor 1 (Sys.reachedBy exampleService sequential otherUserOpens).world Sys.empty.world ∧
      (Sys.reachedBy exampleService sequential (otherUserOpens ++ completeOthers 1 3)).procs.getLast? =
        some (.complete "u2" 1 (.done (.error (.notFound "Upload session not found")))) ∧
      (Sys.reachedBy exampleService sequential (completeOthers 0 1)).procs.getLast? =
        some (.complete "u2" 1 (.done (.error (.fileNotFound "u2")))) := by
  have hs : (Sys.reachedBy exampleService sequential otherUserOpens).world.storage =
      (Storage.empty.createTemp "u2" []) := rfl
  refine ⟨.reachedBy (by decide), by decide, by decide, ⟨by decide, rfl, rfl, rfl, fun _ => ?_, fun u hu => ?_⟩,
    rfl, rfl⟩
  · rw [hs]; rfl
  · by_cases h : u = "u2"
    · obtain ⟨x, hx, hid, hk⟩ : ∃ x ∈ (Sys.reachedBy exampleService sequential otherUserOpens).world.db.sessions,
          x.id = "u2" ∧ x.userId = 2 := by decide
      exact absurd ((hk.symm.trans (hu x (List.mem_append_left _ hx) (hid.trans h.symm)))) (by decide)
    · rw [hs]
      simp [Storage.tempContent, Storage.createTemp, h, Sys.empty, World.empty, Storage.empty]

end TechPulse
