import Mathlib.Algebra.Order.BigOperators.Group.List
import Mathlib.Algebra.Order.Group.Nat
import TechPulse.Packages

/-!
# The per-user quota

`_finalize_upload_with_checksum` reads the user's usage
(`get_total_uploaded_bytes_for_user`) in one block and inserts the version in a
later one. Two finalizations of the same user that both read the usage before
either inserts both pass, and the usage ends above the quota
(`quota_exceeded_by_concurrent_uploads`).

When calls are made one at a time, nothing changes the usage between the check
and the insert, and every user's usage stays within the quota in every state
(`quota_respected_sequentially`). The proof carries, for the call in progress,
that a finalization past its quota block has checked its size against the
current usage; the usage changes only by the version insert, which adds
exactly that size, and by package deletion, which only lowers it.
-/

namespace TechPulse

namespace Db

/-- Every version row belongs to a package row. -/
def VersionsOwned (db : Db) : Prop := ∀ v ∈ db.versions, ∃ p ∈ db.packages, p.id = v.packageId

theorem versionsOwned_empty : Db.empty.VersionsOwned := fun _ h => by cases h

/-- Every user's usage is within the quota. -/
def WithinQuota (quota : Nat) (db : Db) : Prop := ∀ u, db.getTotalUploadedBytesForUser u ≤ quota

/-- The usage reads the version rows only up to their download counters. -/
theorem getTotalUploadedBytesForUser_clear (db : Db) (u : Int) :
    db.getTotalUploadedBytesForUser u =
      (((db.versions.map fun v => { v with downloadCount := 0 }).filter (db.ownedBy u)).map
        (·.sizeBytes)).sum := by
  simp only [getTotalUploadedBytesForUser, List.filter_map, List.map_map]
  rfl

theorem getTotalUploadedBytesForUser_congr {db db' : Db} (hp : db'.packages = db.packages)
    (hv : db'.versions = db.versions) : db'.getTotalUploadedBytesForUser = db.getTotalUploadedBytesForUser := by
  unfold getTotalUploadedBytesForUser ownedBy
  rw [hp, hv]

theorem Bookkeeping.usage {db db' : Db} (hwf : db.WF) (hb : db.Bookkeeping db') (u : Int) :
    db'.getTotalUploadedBytesForUser u = db.getTotalUploadedBytesForUser u := by
  have hown : db'.ownedBy u = db.ownedBy u := by unfold ownedBy; rw [hb.packages]
  rw [getTotalUploadedBytesForUser_clear, getTotalUploadedBytesForUser_clear, hb.versions hwf.versionIds,
    hown]

theorem Bookkeeping.versionsOwned {db db' : Db} (hwf : db.WF) (hb : db.Bookkeeping db')
    (ho : db.VersionsOwned) : db'.VersionsOwned := by
  intro v hv
  have hv' : { v with downloadCount := 0 } ∈ db.versions.map fun v => { v with downloadCount := 0 } :=
    hb.versions hwf.versionIds ▸ List.mem_map_of_mem _ hv
  obtain ⟨x, hx, hxv⟩ := List.mem_map.mp hv'
  rw [hb.packages]
  exact (congrArg (·.packageId) hxv : x.packageId = v.packageId) ▸ ho x hx

end Db

/-! ### The blocks that change the usage -/

theorem any_congr_of_mem {α : Type} {l : List α} {f g : α → Bool} (h : ∀ x ∈ l, f x = g x) :
    l.any f = l.any g := by
  induction l with
  | nil => rfl
  | cons x l ih =>
    simp only [List.any_cons, h x (List.mem_cons_self _ _), ih fun y hy => h y (List.mem_cons_of_mem _ hy)]

/-- A package deletion lowers every user's usage, and leaves no version row
    without its package. -/
theorem deletePackageTx_usage {db db' : Db} {p : Nat} {u : Int} {keys : List String} (h : db.WF)
    (ho : db.VersionsOwned) (hT : deletePackageTx p u db = .ok (keys, db')) :
    db'.VersionsOwned ∧ ∀ k, db'.getTotalUploadedBytesForUser k ≤ db.getTotalUploadedBytesForUser k := by
  obtain ⟨hp, hv, -⟩ := deletePackageTx_tables h hT
  -- a version that stays keeps its package, so it keeps its owner
  have hkeep : ∀ v ∈ db'.versions, ∀ k, db'.ownedBy k v = db.ownedBy k v := by
    intro v hv' k
    rw [hv, List.mem_filter, decide_eq_true_eq] at hv'
    simp only [Db.ownedBy, hp, List.any_filter]
    refine any_congr_of_mem fun q _ => ?_
    by_cases hq : q.id = v.packageId <;> simp [hq, hv'.2]
  refine ⟨fun v hv' => ?_, fun k => ?_⟩
  · obtain ⟨q, hq, hqv⟩ := ho v (by rw [hv] at hv'; exact (List.mem_filter.mp hv').1)
    refine ⟨q, ?_, hqv⟩
    rw [hv, List.mem_filter, decide_eq_true_eq] at hv'
    rw [hp, List.mem_filter, decide_eq_true_eq]
    exact ⟨hq, hqv ▸ hv'.2⟩
  · have hf : db'.versions.filter (db'.ownedBy k) = db'.versions.filter (db.ownedBy k) :=
      List.filter_congr fun v hv' => hkeep v hv' k
    simp only [Db.getTotalUploadedBytesForUser, hf]
    refine List.Sublist.sum_le_sum ?_ fun _ _ => Nat.zero_le _
    rw [hv]
    exact ((List.filter_sublist _).filter _).map _

/-- `upsert_package` keeps the owner of every package that has a version. -/
theorem upsertPackage_ownedBy {db db1 : Db} {o : Int} {nm d c l : String} {pub : Bool}
    {lv : String} {pkg : SoftwarePackage} (h : db.WF)
    (hup : db.upsertPackage o nm d c l pub lv = .ok (pkg, db1)) {v : FileVersion}
    (hv : ∃ p ∈ db.packages, p.id = v.packageId) (k : Int) : db1.ownedBy k v = db.ownedBy k v := by
  obtain ⟨ho, -, -, ⟨p, hp, hpo, -, hid, rfl⟩ | ⟨hid, -, rfl⟩⟩ := upsertPackage_ok hup
  · simp only [Db.ownedBy, Db.savePackage, List.any_map]
    refine any_congr_of_mem fun q hq => ?_
    by_cases e : q.id = pkg.id
    · obtain rfl : q = p := eq_of_key_eq h.packageIds hq hp (e.trans hid)
      simp only [Function.comp_apply, if_pos e]
      rw [hid, ho, hpo]
    · simp only [Function.comp_apply, if_neg e]
  · obtain ⟨q, hq, hqv⟩ := hv
    have hne : pkg.id ≠ v.packageId := by rw [hid, ← hqv]; exact (Db.nextRowId_ne hq).symm
    simp [Db.ownedBy, List.any_append, hne]

/-- The version insert adds its size to the usage of the finalizing user, and
    to no one else's. -/
theorem versionInsertTx_usage {a : FinalizeArgs} {s : UploadSession} {b r : Nat} {db db' : Db}
    (h : db.WF) (ho : db.VersionsOwned) (hT : versionInsertTx a s b db = .ok (r, db')) :
    db'.VersionsOwned ∧ ∀ k, db'.getTotalUploadedBytesForUser k =
      db.getTotalUploadedBytesForUser k + if k = a.userId then a.sizeBytes else 0 := by
  obtain ⟨pkg, db1, sess, hup, -, -, rfl, -, -, -, rfl⟩ := versionInsertTx_ok hT
  obtain ⟨-, hv1, -⟩ := upsertPackage_tables hup
  obtain ⟨hpo, -, -, -⟩ := upsertPackage_ok hup
  have h1 := upsertPackage_wf h hup
  have hpkg : pkg ∈ db1.packages := by
    rcases upsertPackage_ok hup with ⟨-, -, -, ⟨p, hp, -, -, hid, rfl⟩ | ⟨-, -, rfl⟩⟩
    · exact List.mem_map.mpr ⟨p, hp, if_pos hid.symm⟩
    · exact List.mem_append_right _ (List.mem_singleton_self _)
  -- the packages of the earlier versions are still there
  have hold : ∀ v ∈ db.versions, ∃ q ∈ db1.packages, q.id = v.packageId := by
    intro v hv
    obtain ⟨q, hq, hqv⟩ := ho v hv
    rcases upsertPackage_ok hup with ⟨-, -, -, ⟨p, -, -, -, hid, rfl⟩ | ⟨-, -, rfl⟩⟩
    · by_cases e : q.id = pkg.id
      · exact ⟨pkg, List.mem_map.mpr ⟨q, hq, if_pos e⟩, e ▸ hqv⟩
      · exact ⟨q, List.mem_map.mpr ⟨q, hq, if_neg e⟩, hqv⟩
    · exact ⟨q, List.mem_append_left _ hq, hqv⟩
  refine ⟨fun v hv => ?_, fun k => ?_⟩
  · simp only [Db.saveSession_versions, Db.saveSession_packages, List.mem_append,
      List.mem_singleton] at hv ⊢
    rcases hv with hv | rfl
    · exact hold v (hv1 ▸ hv)
    · exact ⟨pkg, hpkg, rfl⟩
  · have hnew : ∀ v : FileVersion, v.packageId = pkg.id → db1.ownedBy k v = decide (k = a.userId) := by
      intro v hv
      rw [Db.ownedBy, Bool.eq_iff_iff, List.any_eq_true, decide_eq_true_iff]
      constructor
      · rintro ⟨q, hq, hqk⟩
        simp only [decide_eq_true_eq] at hqk
        rw [← hqk.2, ← hpo, eq_of_key_eq h1.packageIds hq hpkg (hqk.1.trans hv)]
      · rintro rfl
        exact ⟨pkg, hpkg, by simp [hpo, hv]⟩
    have hf : db.versions.filter (db1.ownedBy k) = db.versions.filter (db.ownedBy k) :=
      List.filter_congr fun v hv => upsertPackage_ownedBy h hup (ho v hv) k
    show (((db1.versions ++ ([_] : List FileVersion)).filter (db1.ownedBy k)).map
      fun v : FileVersion => v.sizeBytes).sum = _
    rw [hv1, List.filter_append, hf, List.filter_singleton, hnew _ rfl]
    by_cases hk : k = a.userId <;> simp [hk, Db.getTotalUploadedBytesForUser]

/-! ### A finalization past its quota check -/

/-- The finalization has passed its quota block. -/
def FinalizePc.pastQuota : FinalizePc → Bool
  | .lookup _ | .abort _ _ | .promote _ | .reconcile _ | .insert _ _ | .compensate _ => true
  | _ => false

/-- A step enters the states past the quota block only from the quota block,
    which has checked the size against the usage of a database it left alone. -/
theorem FinalizePc.run_pastQuota {svc : SoftwarePackageService} {fa : FinalizeArgs} {w w' : World}
    {pc pc' : FinalizePc} (h : pc.run svc fa w = (pc', w')) (hq : pc'.pastQuota = true) :
    pc.pastQuota = true ∨
      (w'.db = w.db ∧ w.db.getTotalUploadedBytesForUser fa.userId + fa.sizeBytes ≤ svc.userQuotaBytes) := by
  cases pc with
  | lock =>
    simp only [FinalizePc.run] at h
    cases hT : w.tx (finalizeLockTx fa.uploadId fa.userId) with
    | mk r w1 =>
      rw [hT] at h
      rcases r with _ | ⟨_ | _⟩ <;> dsimp only at h
      · cases h; cases hq
      · cases h; cases hq
      · split at h <;> cases h <;> cases hq
  | scan s => simp only [FinalizePc.run] at h; split at h <;> cases h <;> cases hq
  | quota s =>
    simp only [FinalizePc.run] at h
    cases hT : w.tx (quotaTx svc fa.userId fa.sizeBytes) with
    | mk r w1 =>
      rw [hT] at h
      rcases World.tx_cases hT with ⟨⟨⟩, rfl, hb, -⟩ | ⟨e, rfl, -, rfl⟩
      · cases h
        exact .inr (quotaTx_ok hb)
      · cases h; cases hq
  | done r => cases h; cases hq
  | _ => exact .inl rfl

/-- What a call past its quota check relies on: its size still fits the usage. -/
def Proc.QuotaHeld (svc : SoftwarePackageService) (p : Proc) (db : Db) : Prop :=
  ∀ fa pc, p.finalizing = some (fa, pc) → pc.pastQuota = true →
    db.getTotalUploadedBytesForUser fa.userId + fa.sizeBytes ≤ svc.userQuotaBytes

/-- **One step of a call** keeps every user within the quota, when the call
    relies on a check that still holds. -/
theorem Proc.step_quota {svc : SoftwarePackageService} {fault : Bool} {w w' : World} {p p' : Proc}
    (hw : w.db.WF) (hI : w.db.WithinQuota svc.userQuotaBytes ∧ w.db.VersionsOwned)
    (hJ : p.QuotaHeld svc w.db) (h : p.step svc fault w = (p', w')) :
    (w'.db.WithinQuota svc.userQuotaBytes ∧ w'.db.VersionsOwned) ∧ p'.QuotaHeld svc w'.db := by
  obtain ⟨hq, ho⟩ := hI
  rcases step_cases h with ⟨-, hb, hf'⟩ | ⟨q, u, keys, -, hf', hT⟩ | ⟨fa, pc, pc', hf, hpc, -, hf'⟩
  · refine ⟨⟨fun k => hb.usage hw k ▸ hq k, hb.versionsOwned hw ho⟩, fun fa pc h => ?_⟩
    rw [hf' fa pc h]
    intro hl; cases hl
  · obtain ⟨ho', hle⟩ := deletePackageTx_usage hw ho hT
    exact ⟨⟨fun k => (hle k).trans (hq k), ho'⟩, fun _ _ h => by rw [hf'] at h; cases h⟩
  · have hJ' := hJ fa pc hf
    rcases FinalizePc.step_db hpc with ⟨rfl, r, rfl⟩ | hr
    · exact ⟨⟨hq, ho⟩, fun fa' pc'' h => by obtain ⟨-, rfl⟩ := hf' fa' pc'' h; intro hl; cases hl⟩
    rcases FinalizePc.run_tables hr with ⟨hp, hv⟩ | ⟨s, b, r, rfl, rfl, hi⟩
    · -- no write to packages or versions: the usage is what it was
      have hu : ∀ k, w'.db.getTotalUploadedBytesForUser k = w.db.getTotalUploadedBytesForUser k :=
        congrFun (Db.getTotalUploadedBytesForUser_congr hp hv)
      refine ⟨⟨fun k => hu k ▸ hq k, fun v hv' => hp ▸ ho v (hv ▸ hv')⟩, fun fa' pc'' h hl => ?_⟩
      obtain ⟨rfl, rfl⟩ := hf' fa' pc'' h
      rcases FinalizePc.run_pastQuota hr hl with hpq | ⟨hdb, hle⟩
      · rw [hu]; exact hJ' hpq
      · rw [hdb]; exact hle
    · -- the insert adds the size it checked, and the finalization returns
      obtain ⟨ho', hu⟩ := versionInsertTx_usage hw ho hi
      refine ⟨⟨fun k => ?_, ho'⟩, fun fa' pc'' h hl => ?_⟩
      · rw [hu k]
        by_cases hk : k = fa.userId
        · rw [if_pos hk, hk]; exact hJ' rfl
        · rw [if_neg hk, Nat.add_zero]; exact hq k
      · obtain ⟨-, rfl⟩ := hf' fa' pc'' h
        cases hl

/-! ### Runs -/

/-- **The quota, one call at a time.** When every call starts after the earlier
    ones have returned or raised, every user's usage is within the quota in
    every state reached from the empty store, I/O faults included. -/
theorem quota_respected_sequentially {svc : SoftwarePackageService} {s : Sys}
    (h : Reachable svc sequential s) (u : Int) :
    s.world.db.getTotalUploadedBytesForUser u ≤ svc.userQuotaBytes :=
  (Reachable.seq_inv (I := fun w => w.db.WithinQuota svc.userQuotaBytes ∧ w.db.VersionsOwned)
    (J := fun p w => p.QuotaHeld svc w.db) ⟨fun _ => Nat.zero_le _, Db.versionsOwned_empty⟩
    (by intro c _ _ _ _ _ hf; rw [Call.start_finalizing] at hf; cases hf)
    (by intro _ _ hd _ _ hf; rw [Proc.finalizing_of_isDone hd] at hf; cases hf)
    (fun hw hI hJ hst => Proc.step_quota hw hI hJ hst) h).2.1.1 u

theorem quota_respected_after_upload :
    Reachable exampleService sequential (Sys.reachedBy exampleService sequential uploadOne) ∧
      ∀ u, (Sys.reachedBy exampleService sequential uploadOne).world.db.getTotalUploadedBytesForUser u ≤
        exampleService.userQuotaBytes := by
  have h : Reachable exampleService sequential (Sys.reachedBy exampleService sequential uploadOne) :=
    .reachedBy (by decide)
  exact ⟨h, quota_respected_sequentially h⟩

/-- User 1 uploads three bytes to package `a` up to the step after its quota
    block; meanwhile user 1 uploads three other bytes to package `b`, which
    completes; then the first upload completes. -/
def twoUploadsOneQuota : List Action :=
  [.call (.uploadSingleRequest ⟨1, exampleForm "a" "1.0", [[1, 2, 3]], "u1"⟩)] ++
    List.replicate 10 (.step 0 false) ++
  [.call (.uploadSingleRequest ⟨1, exampleForm "b" "1.0", [[4, 5, 6]], "u2"⟩)] ++
    List.replicate 14 (.step 1 false) ++ List.replicate 4 (.step 0 false)

/-- From the empty store, where user 1 uses nothing, with no I/O fault, user 1
    ends up using six bytes against a quota of four. -/
theorem quota_exceeded_by_concurrent_uploads :
    Reachable exampleService noFault (Sys.reachedBy exampleService noFault twoUploadsOneQuota) ∧
      exampleService.userQuotaBytes <
        (Sys.reachedBy exampleService noFault twoUploadsOneQuota).world.db.getTotalUploadedBytesForUser 1 :=
  ⟨.reachedBy (by decide), by decide⟩

end TechPulse
