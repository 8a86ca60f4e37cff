import TechPulse.WellFormed

/-!
# What one step of a call does to the database

A step of an init, an append, a cancel or a download commits at most a
bookkeeping block, whether or not its I/O fails. A step of a deletion commits
the deletion's block or nothing. Every other step of an upload or a completion
is a step of the finalization it runs. `Proc.step_cases` says this once; proofs
about whole runs case on it and never unfold `Proc.step`.
-/

namespace TechPulse

/-! ### Calls that only keep books -/

section Bookkeeping

variable {w w' : World}

theorem AppendPc.step_bookkeeping {a : AppendArgs} {fault : Bool} {pc pc' : AppendPc}
    (h : pc.step a fault w = (pc', w')) : w.db.Bookkeeping w'.db := by
  cases pc with
  | done r => cases h; exact .refl _
  | chunks m k rest =>
    simp only [AppendPc.step] at h
    split at h
    · cases h; exact .refl _
    · cases rest with
      | nil => cases h; exact .refl _
      | cons c rest =>
        simp only [AppendPc.run] at h
        split at h
        · cases h; exact .refl _
        · split at h <;> cases h <;> exact .refl _
  | lock =>
    simp only [AppendPc.step, AppendPc.run] at h
    split at h
    · cases h; exact .refl _
    · cases hT : w.tx (appendLockTx a.uploadId a.userId a.expectedOffset) with
      | mk r w1 =>
        have : w.db.Bookkeeping w1.db :=
          World.tx_db hT (.refl _) fun _ _ hb => .session (appendLockTx_edit hb)
        rw [hT] at h
        cases r <;> cases h <;> exact this
  | failSize e =>
    simp only [AppendPc.step, AppendPc.run] at h
    split at h <;> cases h <;> exact .refl _
  | failTx e n =>
    simp only [AppendPc.step, AppendPc.run] at h
    split at h
    · cases h; exact .refl _
    · cases hT : w.tx (appendFailTx a.uploadId a.userId n) with
      | mk r w1 =>
        have : w.db.Bookkeeping w1.db :=
          World.tx_db hT (.refl _) fun _ _ hb => .session (appendFailTx_edit hb)
        rw [hT] at h
        cases r <;> cases h <;> exact this
  | size =>
    simp only [AppendPc.step, AppendPc.run] at h
    split at h <;> cases h <;> exact .refl _
  | finish n =>
    simp only [AppendPc.step, AppendPc.run] at h
    split at h
    · cases h; exact .refl _
    · cases hT : w.tx (appendFinishTx a.uploadId a.userId n) with
      | mk r w1 =>
        have : w.db.Bookkeeping w1.db :=
          World.tx_db hT (.refl _) fun _ _ hb => .session (appendFinishTx_edit hb)
        rw [hT] at h
        cases r <;> cases h <;> exact this

theorem initUploadSession_bookkeeping {svc : SoftwarePackageService} {u : Int} {f : PackageForm}
    {m : Option Int} {i : String} {r : Except Err UploadInitResult}
    (hT : w.tx (svc.initUploadSession u f m i) = (r, w')) : w.db.Bookkeeping w'.db :=
  World.tx_db hT (.refl _) fun _ _ hb => by
    obtain ⟨s, hid, -, -, -, -, hs, rfl⟩ := initUploadSession_ok hb
    exact .newSession fun x hx => hid ▸ hs x hx

theorem InitPc.step_bookkeeping {svc : SoftwarePackageService} {u : Int} {f : PackageForm}
    {m : Option Int} {i : String} {fault : Bool} {pc pc' : InitPc}
    (h : pc.step svc u f m i fault w = (pc', w')) : w.db.Bookkeeping w'.db := by
  cases pc with
  | init =>
    simp only [InitPc.step] at h
    split at h
    · cases h; exact .refl _
    · cases hT : w.tx (svc.initUploadSession u f m i) with
      | mk r w1 =>
        rw [hT] at h
        cases r <;> cases h <;> exact initUploadSession_bookkeeping hT
  | initStorage r =>
    simp only [InitPc.step] at h
    split at h <;> cases h <;> exact .refl _
  | done r => cases h; exact .refl _

theorem CancelPc.step_bookkeeping {u : String} {k : Int} {fault : Bool} {pc pc' : CancelPc}
    (h : pc.step u k fault w = (pc', w')) : w.db.Bookkeeping w'.db := by
  cases pc with
  | lock =>
    simp only [CancelPc.step] at h
    split at h
    · cases h; exact .refl _
    · cases hT : w.tx (cancelTx u k) with
      | mk r w1 =>
        have : w.db.Bookkeeping w1.db :=
          World.tx_db hT (.refl _) fun _ _ hb => .session (cancelTx_edit hb)
        rw [hT] at h
        cases r <;> cases h <;> exact this
  | abort =>
    simp only [CancelPc.step] at h
    split at h <;> cases h <;> exact .refl _
  | done r => cases h; exact .refl _

theorem TicketPc.step_bookkeeping {p v : Nat} {fault : Bool} {pc pc' : TicketPc}
    (h : pc.step p v fault w = (pc', w')) : w.db.Bookkeeping w'.db := by
  cases pc with
  | tx =>
    simp only [TicketPc.step] at h
    split at h
    · cases h; exact .refl _
    · cases hT : w.tx (getDownloadTicketTx p v) with
      | mk r w1 =>
        have : w.db.Bookkeeping w1.db := World.tx_db hT (.refl _) fun _ _ hb => by
          obtain ⟨x, hx, rfl⟩ := getDownloadTicketTx_ok hb
          exact .download hx
        rw [hT] at h
        cases h; exact this
  | done r => cases h; exact .refl _

end Bookkeeping

/-! ### Finalizations in progress -/

/-- The blob on which a finalization holds a reference: taken in its lookup or
    reconcile block, not yet spent by its version insert or its compensation. -/
def FinalizePc.pendingBlob : FinalizePc → Option Nat
  | .abort _ b | .insert _ b | .compensate b => some b
  | _ => none

/-- Whether the finalization has committed its first block and not returned. -/
def FinalizePc.locked : FinalizePc → Bool
  | .lock | .done _ => false
  | _ => true

/-- The finalization a call is running, with its arguments. -/
def Proc.finalizing : Proc → Option (FinalizeArgs × FinalizePc)
  | .single _ (.finalize fa pc) | .complete _ _ (.finalize fa pc) => some (fa, pc)
  | _ => none

/-- The blob on which a call holds a reference. -/
def Proc.pendingBlob (p : Proc) : Option Nat := p.finalizing.bind fun f => f.2.pendingBlob

theorem FinalizePc.step_false {svc : SoftwarePackageService} {fa : FinalizeArgs} {w : World}
    (pc : FinalizePc) : pc.step svc fa false w = pc.run svc fa w := by
  cases pc <;> rfl

theorem Proc.pendingBlob_of_finalizing {p : Proc} {fa : FinalizeArgs} {pc : FinalizePc}
    (hf : p.finalizing = some (fa, pc)) : p.pendingBlob = pc.pendingBlob := by
  simp [Proc.pendingBlob, hf]

theorem Proc.pendingBlob_of_not_finalizing {p : Proc} (hf : p.finalizing = none) :
    p.pendingBlob = none := by
  simp [Proc.pendingBlob, hf]

/-- **What a finalization step does to the database**: it commits one of the
    finalization's blocks, or leaves the database as it was. -/
theorem FinalizePc.run_db {svc : SoftwarePackageService} {fa : FinalizeArgs} {w w' : World}
    {pc pc' : FinalizePc} (h : pc.run svc fa w = (pc', w')) :
    w'.db = w.db ∨
      (pc = .lock ∧ ∃ o, finalizeLockTx fa.uploadId fa.userId w.db = .ok (o, w'.db)) ∨
      (∃ r, blobLookupTx fa.checksum fa.sizeBytes w.db = .ok (r, w'.db)) ∨
      (∃ r, blobReconcileTx fa.checksum fa.sizeBytes (buildStorageKey fa.checksum) w.db =
        .ok (r, w'.db)) ∨
      (∃ s b r, pc = .insert s b ∧ pc' = .done (.ok r) ∧ versionInsertTx fa s b w.db = .ok (r, w'.db)) ∨
      ∃ b, pc = .compensate b ∧ compensateTx fa b w.db = .ok ((), w'.db) := by
  cases pc with
  | lock =>
    simp only [FinalizePc.run] at h
    cases hT : w.tx (finalizeLockTx fa.uploadId fa.userId) with
    | mk r w1 =>
      rw [hT] at h
      rcases World.tx_cases hT with ⟨o, rfl, hb, -⟩ | ⟨e, rfl, -, rfl⟩
      · have : w' = w1 := by
          cases o with
          | replay v => cases h; rfl
          | proceed s => dsimp only at h; split at h <;> cases h <;> rfl
        exact .inr (.inl ⟨rfl, o, this ▸ hb⟩)
      · cases h; exact .inl rfl
  | scan s => simp only [FinalizePc.run] at h; split at h <;> cases h <;> exact .inl rfl
  | quota s =>
    simp only [FinalizePc.run] at h
    cases hT : w.tx (quotaTx svc fa.userId fa.sizeBytes) with
    | mk r w1 =>
      have : w1.db = w.db := World.tx_db hT (P := fun d d' => d' = d) rfl fun _ _ hb => (quotaTx_ok hb).1
      rw [hT] at h
      cases r <;> cases h <;> exact .inl this
  | lookup s =>
    simp only [FinalizePc.run] at h
    cases hT : w.tx (blobLookupTx fa.checksum fa.sizeBytes) with
    | mk r w1 =>
      rw [hT] at h
      rcases World.tx_cases hT with ⟨o, rfl, hb, -⟩ | ⟨e, rfl, -, rfl⟩
      · have : w' = w1 := by rcases o with _ | _ <;> cases h <;> rfl
        exact .inr (.inr (.inl ⟨o, this ▸ hb⟩))
      · cases h; exact .inl rfl
  | abort s b => cases h; exact .inl rfl
  | promote s => simp only [FinalizePc.run] at h; split at h <;> cases h <;> exact .inl rfl
  | reconcile s =>
    simp only [FinalizePc.run] at h
    cases hT : w.tx (blobReconcileTx fa.checksum fa.sizeBytes (buildStorageKey fa.checksum)) with
    | mk r w1 =>
      rw [hT] at h
      rcases World.tx_cases hT with ⟨b, rfl, hb, -⟩ | ⟨e, rfl, -, rfl⟩
      · cases h; exact .inr (.inr (.inr (.inl ⟨b, hb⟩)))
      · cases h; exact .inl rfl
  | insert s b =>
    simp only [FinalizePc.run] at h
    cases hT : w.tx (versionInsertTx fa s b) with
    | mk r w1 =>
      rw [hT] at h
      rcases World.tx_cases hT with ⟨v, rfl, hb, -⟩ | ⟨e, rfl, -, rfl⟩
      · cases h; exact .inr (.inr (.inr (.inr (.inl ⟨s, b, v, rfl, rfl, hb⟩))))
      · dsimp only at h; split at h <;> cases h <;> exact .inl rfl
  | compensate b =>
    simp only [FinalizePc.run] at h
    cases hT : w.tx (compensateTx fa b) with
    | mk r w1 =>
      rw [hT] at h
      rcases World.tx_cases hT with ⟨⟨⟩, rfl, hb, -⟩ | ⟨e, rfl, -, rfl⟩
      · cases h; exact .inr (.inr (.inr (.inr (.inr ⟨b, rfl, hb⟩))))
      · cases h; exact .inl rfl
  | done r => cases h; exact .inl rfl

/-- A faulty step ends the finalization and leaves the world as it was. -/
theorem FinalizePc.step_db {svc : SoftwarePackageService} {fa : FinalizeArgs} {fault : Bool}
    {w w' : World} {pc pc' : FinalizePc} (h : pc.step svc fa fault w = (pc', w')) :
    (w' = w ∧ ∃ r, pc' = .done r) ∨ pc.run svc fa w = (pc', w') := by
  cases fault
  · exact .inr ((FinalizePc.step_false pc).symm.trans h)
  · cases pc <;> (cases h; exact .inl ⟨rfl, _, rfl⟩)

/-- A finalization step writes packages or versions only in its version insert. -/
theorem FinalizePc.run_tables {svc : SoftwarePackageService} {fa : FinalizeArgs} {w w' : World}
    {pc pc' : FinalizePc} (h : pc.run svc fa w = (pc', w')) :
    (w'.db.packages = w.db.packages ∧ w'.db.versions = w.db.versions) ∨
      ∃ s b r, pc = .insert s b ∧ pc' = .done (.ok r) ∧ versionInsertTx fa s b w.db = .ok (r, w'.db) := by
  rcases run_db h with e | ⟨-, o, hb⟩ | ⟨r, hb⟩ | ⟨r, hb⟩ | hi | ⟨b, -, hb⟩
  · exact .inl (e ▸ ⟨rfl, rfl⟩)
  · exact .inl (finalizeLockTx_edit hb).tables
  · rcases blobLookupTx_ok hb with ⟨-, hdb, -⟩ | ⟨B, -, -, -, -, hdb⟩ <;> exact .inl (hdb ▸ ⟨rfl, rfl⟩)
  · rcases blobReconcileTx_ok hb with ⟨B, -, -, -, -, hdb⟩ | ⟨-, -, hdb⟩ <;> exact .inl (hdb ▸ ⟨rfl, rfl⟩)
  · exact .inr hi
  · obtain ⟨db1, rfl | ⟨d, -, -, rfl⟩, he⟩ := compensateTx_edit hb
    · exact .inl he.tables
    · exact .inl he.tables

theorem FinalizePc.run_wf {svc : SoftwarePackageService} {fa : FinalizeArgs} {w w' : World}
    {pc pc' : FinalizePc} (h : pc.run svc fa w = (pc', w')) (hw : w.db.WF) : w'.db.WF := by
  rcases run_db h with e | ⟨-, o, hb⟩ | ⟨r, hb⟩ | ⟨r, hb⟩ | ⟨s, b, r, -, -, hb⟩ | ⟨b, -, hb⟩
  · exact e ▸ hw
  · exact (finalizeLockTx_edit hb).wf hw
  · exact (blobLookupTx_wf hw hb).1
  · exact (blobReconcileTx_wf hw hb).1
  · exact (versionInsertTx_wf hw hb).1
  · exact (compensateTx_wf hw hb).1

theorem Proc.finalizing_of_isDone {p : Proc} (h : p.isDone = true) : p.finalizing = none := by
  cases p with
  | single a pc => cases pc <;> first | rfl | cases h
  | complete u k pc => cases pc <;> first | rfl | cases h
  | _ => rfl

@[simp] theorem Call.start_finalizing (c : Call) : c.start.finalizing = none := by
  cases c <;> rfl

/-! ### One step of any call -/

/-- **What one step of a call does.** Outside a finalization it commits a
    bookkeeping block and enters at most a finalization's first block; or it
    commits a package deletion; or it is one step of the finalization the call
    runs, which the call then keeps running or has finished. -/
theorem Proc.step_cases {svc : SoftwarePackageService} {fault : Bool} {w w' : World}
    {p p' : Proc} (h : p.step svc fault w = (p', w')) :
    (p.finalizing = none ∧ w.db.Bookkeeping w'.db ∧
        ∀ fa pc, p'.finalizing = some (fa, pc) → pc = .lock) ∨
      (∃ q u keys, p.finalizing = none ∧ p'.finalizing = none ∧
        deletePackageTx q u w.db = .ok (keys, w'.db)) ∨
      ∃ fa pc pc', p.finalizing = some (fa, pc) ∧ pc.step svc fa fault w = (pc', w') ∧
        p'.pendingBlob = pc'.pendingBlob ∧
        ∀ fa' pc'', p'.finalizing = some (fa', pc'') → fa' = fa ∧ pc'' = pc' := by
  have quiet : ∀ {q q' : Proc}, q.finalizing = none → q'.finalizing = none →
      ∀ {db'}, w.db.Bookkeeping db' →
        (q.finalizing = none ∧ w.db.Bookkeeping db' ∧
          ∀ fa pc, q'.finalizing = some (fa, pc) → pc = .lock) :=
    fun h0 h1 _ hb => ⟨h0, hb, fun _ _ h => by rw [h1] at h; cases h⟩
  cases p with
  | initUpload u f m i pc =>
    simp only [Proc.step] at h; cases h
    exact .inl (quiet (by rfl) (by rfl) (InitPc.step_bookkeeping rfl))
  | append a pc =>
    simp only [Proc.step] at h; cases h
    exact .inl (quiet (by rfl) (by rfl) (AppendPc.step_bookkeeping rfl))
  | cancel u k pc =>
    simp only [Proc.step] at h; cases h
    exact .inl (quiet (by rfl) (by rfl) (CancelPc.step_bookkeeping rfl))
  | ticket u q v pc =>
    simp only [Proc.step] at h; cases h
    exact .inl (quiet (by rfl) (by rfl) (TicketPc.step_bookkeeping rfl))
  | delete q u pc =>
    cases pc with
    | tx =>
      simp only [Proc.step, DeletePc.step] at h
      split at h
      · cases h; exact .inl (quiet (by rfl) (by rfl) (.refl _))
      · cases hT : w.tx (deletePackageTx q u) with
        | mk r w1 =>
          rw [hT] at h
          rcases World.tx_cases hT with ⟨keys, rfl, hb, -⟩ | ⟨e, rfl, -, rfl⟩
          · cases h; exact .inr (.inl ⟨q, u, keys, rfl, rfl, hb⟩)
          · cases h; exact .inl (quiet (by rfl) (by rfl) (.refl _))
    | deleteObjects keys =>
      cases keys with
      | nil => cases h; exact .inl (quiet (by rfl) (by rfl) (.refl _))
      | cons k keys =>
        simp only [Proc.step, DeletePc.step] at h
        split at h
        · cases h; exact .inl (quiet (by rfl) (by rfl) (.refl _))
        · split at h <;> cases h <;> exact .inl (quiet (by rfl) (by rfl) (.refl _))
    | done r => cases h; exact .inl (quiet (by rfl) (by rfl) (.refl _))
  | single a pc =>
    cases pc with
    | init =>
      simp only [Proc.step, SinglePc.step] at h
      split at h
      · cases h; exact .inl (quiet (by rfl) (by rfl) (.refl _))
      · cases hT : w.tx (svc.initUploadSession a.userId a.form none a.uploadId) with
        | mk r w1 =>
          rw [hT] at h
          cases r <;> cases h <;> exact .inl (quiet (by rfl) (by rfl) (initUploadSession_bookkeeping hT))
    | initStorage =>
      simp only [Proc.step, SinglePc.step] at h
      split at h <;> cases h <;> exact .inl (quiet (by rfl) (by rfl) (.refl _))
    | append hh apc =>
      simp only [Proc.step, SinglePc.step] at h
      cases hT : apc.step a.append fault w with
      | mk apc' w1 =>
        have hb := AppendPc.step_bookkeeping hT
        rw [hT] at h
        rcases apc' with _ | _ | _ | _ | _ | _ | ⟨_ | _⟩ <;> cases h <;>
          exact .inl ⟨rfl, hb, fun _ _ h => by cases h <;> rfl⟩
    | finalize fa fpc =>
      simp only [Proc.step, SinglePc.step] at h
      cases hT : fpc.step svc fa fault w with
      | mk fpc' w1 =>
        rw [hT] at h
        rcases fpc' with _ | _ | _ | _ | _ | _ | _ | _ | _ | ⟨_ | _⟩ <;> cases h <;>
          exact .inr (.inr ⟨fa, fpc, _, rfl, hT, rfl, fun _ _ h => by cases h <;> exact ⟨rfl, rfl⟩⟩)
    | abort e =>
      simp only [Proc.step, SinglePc.step] at h
      split at h <;> cases h <;> exact .inl (quiet (by rfl) (by rfl) (.refl _))
    | done r => cases h; exact .inl (quiet (by rfl) (by rfl) (.refl _))
  | complete u k pc =>
    cases pc with
    | «open» =>
      simp only [Proc.step, CompletePc.step] at h
      split at h
      · cases h; exact .inl (quiet (by rfl) (by rfl) (.refl _))
      · split at h <;> cases h <;> exact .inl (quiet (by rfl) (by rfl) (.refl _))
    | read hh c =>
      simp only [Proc.step, CompletePc.step] at h
      split at h
      · cases h; exact .inl (quiet (by rfl) (by rfl) (.refl _))
      · split at h <;> cases h <;> exact .inl ⟨rfl, .refl _, fun _ _ h => by cases h <;> rfl⟩
    | finalize fa fpc =>
      simp only [Proc.step, CompletePc.step] at h
      cases hT : fpc.step svc fa fault w with
      | mk fpc' w1 =>
        rw [hT] at h
        rcases fpc' with _ | _ | _ | _ | _ | _ | _ | _ | _ | _ <;> cases h <;>
          exact .inr (.inr ⟨fa, fpc, _, rfl, hT, rfl, fun _ _ h => by cases h <;> exact ⟨rfl, rfl⟩⟩)
    | done r => cases h; exact .inl (quiet (by rfl) (by rfl) (.refl _))

/-! ### The database over whole runs -/

theorem Proc.step_wf {svc : SoftwarePackageService} {fault : Bool} {w w' : World} {p p' : Proc}
    (h : p.step svc fault w = (p', w')) (hw : w.db.WF) : w'.db.WF := by
  rcases step_cases h with ⟨-, hb, -⟩ | ⟨q, u, keys, -, -, hT⟩ | ⟨fa, pc, pc', -, hpc, -⟩
  · exact hb.wf hw
  · exact (deletePackageTx_wf hw hT).1
  · rcases FinalizePc.step_db hpc with ⟨rfl, -⟩ | hr
    exacts [hw, FinalizePc.run_wf hr hw]

/-- **What an action does to the system**: a new call joins the calls in
    progress, or a call that has not returned takes one step. -/
theorem Sys.next_cases {svc : SoftwarePackageService} {s s' : Sys} {a : Action}
    (h : s.next svc a = some s') :
    (∃ c, a = .call c ∧ s' = { s with procs := s.procs ++ [c.start] }) ∨
      ∃ pid fault p p', a = .step pid fault ∧ s.procs[pid]? = some p ∧ p.isDone = false ∧
        p.step svc fault s.world = (p', s'.world) ∧ s'.procs = s.procs.set pid p' := by
  cases a with
  | call c => cases h; exact .inl ⟨c, rfl, rfl⟩
  | step pid fault =>
    simp only [Sys.next] at h
    cases hget : s.procs[pid]? with
    | none => rw [hget] at h; cases h
    | some p =>
      rw [hget] at h
      dsimp only at h
      split at h
      · cases h
      · cases hst : p.step svc fault s.world with
        | mk p' w' =>
          rw [hst] at h
          cases h
          exact .inr ⟨pid, fault, p, p', rfl, hget, by simpa using ‹¬p.isDone = true›, hst, rfl⟩

theorem Sys.next_world {svc : SoftwarePackageService} {s s' : Sys} {a : Action}
    (h : s.next svc a = some s') :
    s'.world = s.world ∨ ∃ p ∈ s.procs, ∃ fault p', p.step svc fault s.world = (p', s'.world) := by
  rcases Sys.next_cases h with ⟨c, -, rfl⟩ | ⟨pid, fault, p, p', -, hget, -, hst, -⟩
  · exact .inl rfl
  · exact .inr ⟨p, List.getElem?_mem hget, fault, p', hst⟩

/-- **A property of the database over whole runs.** What holds of the empty
    store and what every step of every call keeps, from a database with its
    keys, holds in every reachable state, with the keys. -/
theorem Reachable.db_inv {svc : SoftwarePackageService} {allowed : Sys → Action → Prop}
    {P : Db → Prop} (h0 : P Db.empty)
    (hstep : ∀ {p p' : Proc} {fault : Bool} {w w' : World}, w.db.WF → P w.db →
      p.step svc fault w = (p', w') → P w'.db)
    {s : Sys} (h : Reachable svc allowed s) : s.world.db.WF ∧ P s.world.db := by
  induction h with
  | empty => exact ⟨Db.wf_empty, h0⟩
  | next _ _ hs ih =>
    rcases Sys.next_world hs with e | ⟨p, -, fault, p', hst⟩
    · exact e ▸ ih
    · exact ⟨Proc.step_wf hst ih.1, hstep ih.1 ih.2 hst⟩

theorem Reachable.wf {svc : SoftwarePackageService} {allowed : Sys → Action → Prop} {s : Sys}
    (h : Reachable svc allowed s) : s.world.db.WF :=
  (Reachable.db_inv (P := fun _ => True) trivial (fun _ _ _ => trivial) h).1

/-! ### Calls one at a time -/

/-- At most one call is in progress. -/
def Sys.Solo (s : Sys) : Prop :=
  ∀ (i j : Nat) (p q : Proc), s.procs[i]? = some p → s.procs[j]? = some q → i ≠ j → p.isDone = true ∨ q.isDone = true

theorem Sys.solo_of_reachable {svc : SoftwarePackageService} {s : Sys}
    (h : Reachable svc sequential s) : s.Solo := by
  induction h with
  | empty => intro i _ _ _ hp; simp [Sys.empty] at hp
  | @next t _ _ _ ha hs ih =>
    rcases Sys.next_cases hs with ⟨c, rfl, rfl⟩ | ⟨pid, fault, p, p', rfl, hget, hnd, -, hprocs⟩
    · -- a call starts only once every earlier call is done
      have hdone : ∀ i q, i < t.procs.length → (t.procs ++ [c.start])[i]? = some q → q.isDone = true :=
        fun i q hi hq => ha q (List.getElem?_mem (by rwa [List.getElem?_append_left hi] at hq))
      intro i j q r hq hr hij
      rcases lt_or_le i t.procs.length with hi | hi
      · exact .inl (hdone i q hi hq)
      rcases lt_or_le j t.procs.length with hj | hj
      · exact .inr (hdone j r hj hr)
      have := (List.getElem?_eq_some_iff.mp hq).1
      have := (List.getElem?_eq_some_iff.mp hr).1
      simp only [List.length_append, List.length_singleton] at *
      omega
    · -- only the call in progress steps
      intro i j q r hq hr hij
      rw [hprocs, List.getElem?_set] at hq hr
      split_ifs at hq hr with hi _ hj <;> (try cases hq) <;> (try cases hr)
      · exact absurd (hi.symm.trans hj) hij
      · exact .inr ((ih pid j p r hget hr hj).resolve_left (by simp [hnd]))
      · exact .inl ((ih pid i p q hget hq hi).resolve_left (by simp [hnd]))
      · exact ih i j q r hq hr hij

/-- **An invariant of the runs that make one call at a time.** A property `I` of
    the world and a property `J` of each call, that holds of a call before its
    first step and of every call that has returned, and that every step of a
    call keeps together with `I`, hold in every state such a run reaches. -/
theorem Reachable.seq_inv {svc : SoftwarePackageService} {I : World → Prop}
    {J : Proc → World → Prop} (h0 : I World.empty)
    (hstart : ∀ (c : Call) {w : World}, w.db.WF → I w → J c.start w)
    (hdone : ∀ {p : Proc} {w : World}, p.isDone = true → J p w)
    (hstep : ∀ {p p' : Proc} {fault : Bool} {w w' : World}, w.db.WF → I w → J p w →
      p.step svc fault w = (p', w') → I w' ∧ J p' w')
    {s : Sys} (h : Reachable svc sequential s) :
    s.world.db.WF ∧ I s.world ∧ ∀ p ∈ s.procs, J p s.world := by
  induction h with
  | empty => exact ⟨Db.wf_empty, h0, fun _ hp => by cases hp⟩
  | @next t _ _ hr ha hs ih =>
    obtain ⟨hwf, hI, hJ⟩ := ih
    rcases Sys.next_cases hs with ⟨c, rfl, rfl⟩ | ⟨pid, fault, p, p', rfl, hget, hnd, hst, hprocs⟩
    · refine ⟨hwf, hI, fun q hq => ?_⟩
      rcases List.mem_append.mp hq with hq | hq
      · exact hdone (ha q hq)
      · rw [List.mem_singleton.mp hq]
        exact hstart c hwf hI
    · obtain ⟨hI', hJ'⟩ := hstep hwf hI (hJ p (List.getElem?_mem hget)) hst
      refine ⟨Proc.step_wf hst hwf, hI', fun q hq => ?_⟩
      rw [hprocs] at hq
      obtain ⟨i, hi⟩ := List.mem_iff_getElem?.mp hq
      rw [List.getElem?_set] at hi
      split_ifs at hi with e
      · cases hi
        exact hJ'
      · exact hdone ((Sys.solo_of_reachable hr pid i p q hget hi e).resolve_left (by simp [hnd]))

end TechPulse
