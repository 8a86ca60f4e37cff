import TechPulse.Steps

/-!
# Packages, their versions, and package deletion

`latest_version` is a denormalized copy of the label of a package's newest
version. `upsert_package` writes it in the block that inserts that version, so
the block commits both or neither; `delete_package_for_owner` removes a package
with all its versions in one block. In every reachable state, whatever the
interleaving and whatever fails, every package has a version and
`latest_version` is the label of the last one inserted (`package_latest_version`).
Rows stay in insertion order in the model: `add_file_version` appends, and no
write reorders them.

The block of `delete_package_for_owner` is described exactly
(`delete_package_for_owner_effect`): the package and its versions go, each
blob's count drops by the number of its versions that went, and the blobs whose
count reaches zero go with their storage keys scheduled for `delete_object`. The
session rows are left as they were, so a session's `completed_file_version_id`
can name a version that no longer exists (`completed_version_dangles`).
-/

namespace TechPulse

namespace Db

/-! ### The last version of a package -/

/-- The version row last inserted for a package. -/
def lastVersionOf (db : Db) (packageId : Nat) : Option FileVersion :=
  (db.versions.filter (·.packageId = packageId)).getLast?

/-- Every package has a version row, and `latest_version` is the label of the
    last one. -/
def Catalog (db : Db) : Prop :=
  ∀ p ∈ db.packages, ∃ v, db.lastVersionOf p.id = some v ∧ p.latestVersion = some v.version

theorem catalog_empty : Db.empty.Catalog := fun _ h => by cases h

@[simp] theorem lastVersionOf_saveSession (db : Db) (s : UploadSession) :
    (db.saveSession s).lastVersionOf = db.lastVersionOf := rfl

/-- The labels of the last versions read the version rows only up to their
    download counters. -/
theorem lastVersionOf_version_congr {db db' : Db}
    (h : db'.versions.map (fun v => { v with downloadCount := 0 }) =
      db.versions.map (fun v => { v with downloadCount := 0 })) (i : Nat) :
    (db'.lastVersionOf i).map (·.version) = (db.lastVersionOf i).map (·.version) := by
  have key : ∀ d : Db, (d.lastVersionOf i).map (·.version) =
      ((d.versions.map fun v => { v with downloadCount := 0 }).filter (·.packageId = i)).getLast?.map
        (·.version) := fun d => by
    simp [lastVersionOf, List.filter_map, List.getLast?_map, Function.comp_def]
  rw [key, key, h]

theorem lastVersionOf_concat (db : Db) (v : FileVersion) (i : Nat) :
    ({ db with versions := db.versions ++ [v] } : Db).lastVersionOf i =
      if v.packageId = i then some v else db.lastVersionOf i := by
  by_cases hv : v.packageId = i <;> simp [lastVersionOf, List.filter_append, hv]

theorem Catalog.of_labels {db db' : Db} (hc : db.Catalog) (hp : db'.packages = db.packages)
    (hl : ∀ p ∈ db.packages,
      (db'.lastVersionOf p.id).map (·.version) = (db.lastVersionOf p.id).map (·.version)) :
    db'.Catalog := by
  intro p hp'
  rw [hp] at hp'
  obtain ⟨v, hv, hlv⟩ := hc p hp'
  have := hl p hp'
  rw [hv, Option.map_some'] at this
  obtain ⟨v', hv', hvv⟩ := Option.map_eq_some'.mp this
  exact ⟨v', hv', hlv.trans (congrArg some hvv.symm)⟩

theorem Catalog.of_tables {db db' : Db} (hc : db.Catalog) (hp : db'.packages = db.packages)
    (hv : db'.versions = db.versions) : db'.Catalog :=
  hc.of_labels hp fun p _ => by simp only [lastVersionOf, hv]

theorem Bookkeeping.catalog {db db' : Db} (hwf : db.WF) (hb : db.Bookkeeping db') (hc : db.Catalog) :
    db'.Catalog :=
  hc.of_labels hb.packages fun p _ => lastVersionOf_version_congr (hb.versions hwf.versionIds) p.id

end Db

/-! ### The version insert keeps the catalog -/

/-- After `upsert_package` a package row is the upserted one, or an earlier row
    under another id. -/
theorem upsertPackage_packages {db db1 : Db} {o : Int} {nm d c l : String} {pub : Bool}
    {lv : String} {pkg : SoftwarePackage} (h : db.upsertPackage o nm d c l pub lv = .ok (pkg, db1)) :
    ∀ q ∈ db1.packages, q = pkg ∨ (q ∈ db.packages ∧ q.id ≠ pkg.id) := by
  obtain ⟨-, -, -, ⟨p, -, -, -, -, rfl⟩ | ⟨hid, -, rfl⟩⟩ := upsertPackage_ok h
  · intro q hq
    obtain ⟨q0, hq0, rfl⟩ := List.mem_map.mp hq
    by_cases e : q0.id = pkg.id
    · exact .inl (if_pos e)
    · exact .inr ⟨by rwa [if_neg e], by rwa [if_neg e]⟩
  · intro q hq
    rcases List.mem_append.mp hq with hq | hq
    · exact .inr ⟨hq, by rw [hid]; exact Db.nextRowId_ne hq⟩
    · exact .inl (List.mem_singleton.mp hq)

theorem versionInsertTx_catalog {a : FinalizeArgs} {s : UploadSession} {b r : Nat} {db db' : Db}
    (hc : db.Catalog) (hT : versionInsertTx a s b db = .ok (r, db')) : db'.Catalog := by
  obtain ⟨pkg, db1, sess, hup, -, -, rfl, -, -, -, rfl⟩ := versionInsertTx_ok hT
  obtain ⟨-, hv1, -⟩ := upsertPackage_tables hup
  obtain ⟨-, -, hlv, -⟩ := upsertPackage_ok hup
  intro q hq
  simp only [Db.saveSession_packages, Db.lastVersionOf_saveSession, Db.lastVersionOf_concat] at hq ⊢
  rcases upsertPackage_packages hup q hq with rfl | ⟨hq, hne⟩
  · exact ⟨_, if_pos rfl, hlv⟩
  · rw [if_neg (Ne.symm hne)]
    simpa only [Db.lastVersionOf, hv1] using hc q hq

/-! ### The block of `delete_package_for_owner` -/

/-- What deleting the versions `vs` leaves of blob row `B`, in the words of the
    contract: its count drops by the number of those versions bound to it, and
    the row goes once that count reaches zero. -/
def releaseBlob (vs : List FileVersion) (B : FileBlob) : Option FileBlob :=
  let k := vs.countP (·.blobId = B.id)
  if 0 < k ∧ B.referenceCount ≤ k then none else some { B with referenceCount := B.referenceCount - k }

@[simp] theorem Db.decrementBlobRefcount_id (b : FileBlob) : (Db.decrementBlobRefcount b).id = b.id :=
  rfl

theorem releaseBlob_nil : releaseBlob [] = some := funext fun B => by simp [releaseBlob]

theorem releaseBlob_cons_of_ne {v : FileVersion} {B : FileBlob} (vs : List FileVersion)
    (h : v.blobId ≠ B.id) : releaseBlob (v :: vs) B = releaseBlob vs B := by
  simp [releaseBlob, List.countP_cons, h]

/-- A version bound to `B` takes one off its count, as the loop's
    `decrement_blob_refcount` does. -/
theorem releaseBlob_cons_of_eq {v : FileVersion} {B : FileBlob} (vs : List FileVersion)
    (h : v.blobId = B.id) :
    releaseBlob (v :: vs) B =
      if (Db.decrementBlobRefcount B).referenceCount = 0 then none
      else releaseBlob vs (Db.decrementBlobRefcount B) := by
  simp only [releaseBlob, List.countP_cons, h, decide_True, if_true, Db.decrementBlobRefcount]
  split_ifs <;> first | rfl | omega | rw [Nat.sub_sub, Nat.add_comm]

theorem deleteVersionsLoop_versions : ∀ (vs : List FileVersion) (db : Db) (keys : List String),
    (deleteVersionsLoop vs db keys).1.versions = db.versions.filter fun x => vs.all (x.id ≠ ·.id)
  | [], db, keys => by simp [deleteVersionsLoop]
  | v :: vs, db, keys => by
    have e : db.versions.filter (fun x => (v :: vs).all (x.id ≠ ·.id)) =
        (db.deleteFileVersion v).versions.filter fun x => vs.all (x.id ≠ ·.id) := by
      simp only [Db.deleteFileVersion, List.filter_filter, List.all_cons, Bool.and_comm]
    rw [e]
    simp only [deleteVersionsLoop]
    split
    · exact deleteVersionsLoop_versions vs _ _
    · split <;> exact deleteVersionsLoop_versions vs _ _

/-- The loop over a package's versions removes exactly the package's versions. -/
theorem Db.WF.deleteVersionsLoop_package {db : Db} (h : db.WF) (p : Nat) (keys : List String) :
    (deleteVersionsLoop (db.listAllFileVersionsForPackage p) db keys).1.versions =
      db.versions.filter (·.packageId ≠ p) := by
  rw [deleteVersionsLoop_versions]
  refine List.filter_congr fun x hx => ?_
  rw [Bool.eq_iff_iff, List.all_eq_true, decide_eq_true_iff]
  simp only [Db.listAllFileVersionsForPackage, List.mem_filter, decide_eq_true_eq]
  exact ⟨fun H hxp => H x ⟨hx, hxp⟩ rfl,
    fun hxp v ⟨hv, hvp⟩ e => hxp (hvp ▸ congrArg (·.packageId) (eq_of_key_eq h.versionIds hx hv e))⟩

theorem deleteVersionsLoop_blobs_eq : ∀ (vs : List FileVersion) (db : Db) (keys : List String),
    db.WF → (deleteVersionsLoop vs db keys).1.blobs = db.blobs.filterMap (releaseBlob vs)
  | [], db, _, _ => by simp [deleteVersionsLoop, releaseBlob_nil]
  | v :: vs, db, keys, h => by
    simp only [deleteVersionsLoop]
    cases hg : db.getBlobById v.blobId with
    | none =>
      rw [deleteVersionsLoop_blobs_eq vs _ _ (h.deleteFileVersion v)]
      refine List.filterMap_congr fun B hB => (releaseBlob_cons_of_ne vs fun e => ?_).symm
      rw [e, h.getBlobById hB] at hg
      cases hg
    | some b =>
      obtain ⟨hb, hid⟩ := Db.getBlobById_some hg
      have hrel := releaseBlob_cons_of_eq vs hid.symm
      have hother : ∀ B ∈ db.blobs, B.id ≠ b.id → releaseBlob (v :: vs) B = releaseBlob vs B :=
        fun B _ hne => releaseBlob_cons_of_ne vs (hid ▸ Ne.symm hne)
      dsimp only
      split
      · rename_i h0
        rw [deleteVersionsLoop_blobs_eq vs _ _ ((h.deleteFileVersion v).deleteBlob _)]
        simp only [Db.deleteBlob, Db.deleteFileVersion_blobs, List.filterMap_filter, Db.decrementBlobRefcount]
        refine List.filterMap_congr fun B hB => ?_
        by_cases e : B.id = b.id
        · rw [eq_of_key_eq h.blobIds hB hb e, hrel, if_pos h0]
          simp
        · simp [e, hother B hB e]
      · rename_i h0
        have h1 : ((db.deleteFileVersion v).saveBlob (Db.decrementBlobRefcount b)).WF :=
          (h.deleteFileVersion v).saveBlob hb rfl rfl rfl
        rw [deleteVersionsLoop_blobs_eq vs _ _ h1]
        simp only [Db.saveBlob, Db.deleteFileVersion_blobs, List.filterMap_map]
        refine List.filterMap_congr fun B hB => ?_
        by_cases e : B.id = b.id
        · rw [eq_of_key_eq h.blobIds hB hb e, hrel, if_neg h0]
          simp [Db.decrementBlobRefcount]
        · simp [Function.comp_def, Db.decrementBlobRefcount, e, hother B hB e]

/-- The loop schedules the storage key of every blob row it removes, and no other. -/
theorem deleteVersionsLoop_keys : ∀ (vs : List FileVersion) (db : Db) (keys : List String),
    db.WF → ∀ key, key ∈ (deleteVersionsLoop vs db keys).2 ↔
      key ∈ keys ∨ ∃ B ∈ db.blobs, releaseBlob vs B = none ∧ B.storageKey = key
  | [], db, keys, _, key => by simp [deleteVersionsLoop, releaseBlob_nil]
  | v :: vs, db, keys, h, key => by
    simp only [deleteVersionsLoop]
    cases hg : db.getBlobById v.blobId with
    | none =>
      rw [deleteVersionsLoop_keys vs _ _ (h.deleteFileVersion v)]
      refine or_congr_right (exists_congr fun B => and_congr_right fun hB => ?_)
      rw [releaseBlob_cons_of_ne vs fun e => by rw [e, h.getBlobById hB] at hg; cases hg]
    | some b =>
      obtain ⟨hb, hid⟩ := Db.getBlobById_some hg
      have hrel := releaseBlob_cons_of_eq vs hid.symm
      have hother : ∀ B ∈ db.blobs, B.id ≠ b.id → releaseBlob (v :: vs) B = releaseBlob vs B :=
        fun B _ hne => releaseBlob_cons_of_ne vs (hid ▸ Ne.symm hne)
      dsimp only
      split
      · rename_i h0
        rw [deleteVersionsLoop_keys vs _ _ ((h.deleteFileVersion v).deleteBlob _)]
        simp only [Db.deleteBlob, Db.deleteFileVersion_blobs, List.mem_filter, List.mem_append,
          List.mem_singleton, decide_eq_true_eq]
        constructor
        · rintro ((hk | rfl) | ⟨B, ⟨hB, hne⟩, hr, rfl⟩)
          · exact .inl hk
          · exact .inr ⟨b, hb, by rw [hrel, if_pos h0], rfl⟩
          · exact .inr ⟨B, hB, by rw [hother B hB hne]; exact hr, rfl⟩
        · rintro (hk | ⟨B, hB, hr, rfl⟩)
          · exact .inl (.inl hk)
          · by_cases e : B.id = b.id
            · exact .inl (.inr (by rw [eq_of_key_eq h.blobIds hB hb e]; rfl))
            · exact .inr ⟨B, ⟨hB, e⟩, by rw [← hother B hB e]; exact hr, rfl⟩
      · rename_i h0
        have h1 : ((db.deleteFileVersion v).saveBlob (Db.decrementBlobRefcount b)).WF :=
          (h.deleteFileVersion v).saveBlob hb rfl rfl rfl
        rw [deleteVersionsLoop_keys vs _ _ h1]
        simp only [Db.saveBlob, Db.deleteFileVersion_blobs, List.mem_map, Db.decrementBlobRefcount_id]
        refine or_congr_right ⟨?_, ?_⟩
        · rintro ⟨_, ⟨B, hB, rfl⟩, hr, rfl⟩
          by_cases e : B.id = b.id
          · simp only [if_pos e] at hr ⊢
            exact ⟨b, hb, by rw [hrel, if_neg h0]; exact hr, rfl⟩
          · simp only [if_neg e] at hr ⊢
            exact ⟨B, hB, by rw [hother B hB e]; exact hr, rfl⟩
        · rintro ⟨B, hB, hr, rfl⟩
          by_cases e : B.id = b.id
          · rw [eq_of_key_eq h.blobIds hB hb e, hrel, if_neg h0] at hr
            refine ⟨_, ⟨b, hb, if_pos rfl⟩, hr, ?_⟩
            rw [eq_of_key_eq h.blobIds hB hb e]
            rfl
          · exact ⟨B, ⟨B, hB, if_neg e⟩, by rw [← hother B hB e]; exact hr, rfl⟩

theorem Db.getPackageById_some {db : Db} {p : Nat} {pkg : SoftwarePackage}
    (h : db.getPackageById p = some pkg) : pkg ∈ db.packages ∧ pkg.id = p :=
  ⟨List.mem_of_find?_eq_some h, by simpa using List.find?_some h⟩

theorem Db.WF.getPackageById {db : Db} (h : db.WF) {pkg : SoftwarePackage} (hp : pkg ∈ db.packages) :
    db.getPackageById pkg.id = some pkg := by
  cases hf : db.getPackageById pkg.id with
  | none => exact absurd (List.find?_eq_none.mp hf pkg hp) (by simp)
  | some q =>
    obtain ⟨hq, hid⟩ := Db.getPackageById_some hf
    rw [eq_of_key_eq h.packageIds hq hp hid]

/-- The tables the deletion block leaves, for a package of its caller. -/
theorem deletePackageTx_tables {db db' : Db} {p : Nat} {u : Int} {keys : List String} (h : db.WF)
    (hT : deletePackageTx p u db = .ok (keys, db')) :
    db'.packages = db.packages.filter (·.id ≠ p) ∧ db'.versions = db.versions.filter (·.packageId ≠ p) ∧
      db'.sessions = db.sessions := by
  obtain ⟨pkg, hpkg, -, rfl, -⟩ := deletePackageTx_ok hT
  obtain ⟨-, rfl⟩ := Db.getPackageById_some hpkg
  obtain ⟨hp, hs⟩ := deleteVersionsLoop_tables (db.listAllFileVersionsForPackage pkg.id) db []
  exact ⟨by simp only [Db.deletePackage, hp], h.deleteVersionsLoop_package _ _, hs⟩

theorem deletePackageTx_catalog {db db' : Db} {p : Nat} {u : Int} {keys : List String} (h : db.WF)
    (hc : db.Catalog) (hT : deletePackageTx p u db = .ok (keys, db')) : db'.Catalog := by
  obtain ⟨hp, hv, -⟩ := deletePackageTx_tables h hT
  intro q hq
  rw [hp, List.mem_filter, decide_eq_true_eq] at hq
  obtain ⟨v, hlast, hlv⟩ := hc q hq.1
  refine ⟨v, ?_, hlv⟩
  rw [Db.lastVersionOf, hv, List.filter_filter, ← hlast, Db.lastVersionOf]
  congr 1
  refine List.filter_congr fun x _ => ?_
  by_cases hx : x.packageId = q.id <;> simp [hx, hq.2]

/-! ### Deleting a package -/

/-- **The block of `delete_package_for_owner`.** In a sequentially reachable
    state, a caller other than the owner of `pkg` gets the permission error and
    the world is left as it was. The owner's call commits: `pkg` and its
    versions go, each blob row is released by the versions that went, the
    sessions and the files stay, and the storage keys scheduled for
    `delete_object` are those of the blob rows removed. -/
theorem delete_package_for_owner_effect {svc : SoftwarePackageService} {s : Sys}
    (h : Reachable svc sequential s) {pkg : SoftwarePackage} (hp : pkg ∈ s.world.db.packages) :
    (∀ u, u ≠ pkg.ownerId → s.world.tx (deletePackageTx pkg.id u) =
        (.error (.permission "Only the package owner can delete this package"), s.world)) ∧
      ∃ keys w', s.world.tx (deletePackageTx pkg.id pkg.ownerId) = (.ok keys, w') ∧
        w'.storage = s.world.storage ∧
        w'.db.packages = s.world.db.packages.filter (·.id ≠ pkg.id) ∧
        w'.db.versions = s.world.db.versions.filter (·.packageId ≠ pkg.id) ∧
        w'.db.blobs = s.world.db.blobs.filterMap
          (releaseBlob (s.world.db.listAllFileVersionsForPackage pkg.id)) ∧
        w'.db.sessions = s.world.db.sessions ∧
        ∀ key, key ∈ keys ↔ ∃ B ∈ s.world.db.blobs,
          releaseBlob (s.world.db.listAllFileVersionsForPackage pkg.id) B = none ∧
            B.storageKey = key := by
  have hwf := h.wf
  have hget := hwf.getPackageById hp
  refine ⟨fun u hu => World.tx_of_error (by simp [deletePackageTx, hget, Ne.symm hu]; rfl), ?_⟩
  have hT : deletePackageTx pkg.id pkg.ownerId s.world.db =
      .ok ((deleteVersionsLoop (s.world.db.listAllFileVersionsForPackage pkg.id) s.world.db []).2,
        (deleteVersionsLoop (s.world.db.listAllFileVersionsForPackage pkg.id) s.world.db []).1.deletePackage
          pkg) := by
    simp [deletePackageTx, hget]
    rfl
  obtain ⟨hpk, hv, hs⟩ := deletePackageTx_tables hwf hT
  exact ⟨_, _, World.tx_of_ok hT, rfl, hpk, hv, deleteVersionsLoop_blobs_eq _ _ _ hwf, hs,
    fun key => (deleteVersionsLoop_keys _ _ _ hwf key).trans (or_iff_right (List.not_mem_nil key))⟩

/-- User 1 uploads version 1.0 of a package in one request, which completes. -/
def uploadOne : List Action :=
  [.call (.uploadSingleRequest ⟨1, exampleForm "tool" "1.0", [[1, 2]], "u1"⟩)] ++
    List.replicate 14 (.step 0 false)

/-- The package that upload creates. -/
def uploadedPackage : SoftwarePackage :=
  ⟨1, 1, "tool", "A command-line tool", "student projects", "Python", true, some "1.0"⟩

theorem delete_package_for_owner_effect_after_upload :
    Reachable exampleService sequential (Sys.reachedBy exampleService sequential uploadOne) ∧
      uploadedPackage ∈ (Sys.reachedBy exampleService sequential uploadOne).world.db.packages ∧
      let s := Sys.reachedBy exampleService sequential uploadOne
      (∀ u, u ≠ uploadedPackage.ownerId → s.world.tx (deletePackageTx uploadedPackage.id u) =
          (.error (.permission "Only the package owner can delete this package"), s.world)) ∧
        ∃ keys w', s.world.tx (deletePackageTx uploadedPackage.id uploadedPackage.ownerId) =
            (.ok keys, w') ∧
          w'.storage = s.world.storage ∧
          w'.db.packages = s.world.db.packages.filter (·.id ≠ uploadedPackage.id) ∧
          w'.db.versions = s.world.db.versions.filter (·.packageId ≠ uploadedPackage.id) ∧
          w'.db.blobs = s.world.db.blobs.filterMap
            (releaseBlob (s.world.db.listAllFileVersionsForPackage uploadedPackage.id)) ∧
          w'.db.sessions = s.world.db.sessions ∧
          ∀ key, key ∈ keys ↔ ∃ B ∈ s.world.db.blobs,
            releaseBlob (s.world.db.listAllFileVersionsForPackage uploadedPackage.id) B = none ∧
              B.storageKey = key := by
  have h : Reachable exampleService sequential (Sys.reachedBy exampleService sequential uploadOne) :=
    .reachedBy (by decide)
  have hp : uploadedPackage ∈ (Sys.reachedBy exampleService sequential uploadOne).world.db.packages := by
    decide
  exact ⟨h, hp, delete_package_for_owner_effect h hp⟩

/-- The foreign key `upload_sessions.completed_file_version_id`: a completed
    session names an existing version row. -/
def Db.CompletedVersionsExist (db : Db) : Prop :=
  ∀ s ∈ db.sessions, ∀ v ∈ s.completedFileVersionId, ∃ r ∈ db.versions, r.id = v

instance (db : Db) : Decidable db.CompletedVersionsExist :=
  inferInstanceAs (Decidable (∀ s ∈ db.sessions, ∀ v ∈ s.completedFileVersionId, ∃ r ∈ db.versions, r.id = v))

/-- The upload above, then its owner deletes the package; the deletion runs to
    its end. -/
def uploadThenDelete : List Action :=
  uploadOne ++ [.call (.deletePackageForOwner 1 1)] ++ List.replicate 3 (.step 1 false)

/-- Deleting the package leaves session `u1` completed with the id of the
    version row it removed. -/
theorem completed_version_dangles :
    Reachable exampleService sequential (Sys.reachedBy exampleService sequential uploadOne) ∧
      (Sys.reachedBy exampleService sequential uploadOne).world.db.CompletedVersionsExist ∧
      Reachable exampleService sequential (Sys.reachedBy exampleService sequential uploadThenDelete) ∧
      (Sys.reachedBy exampleService sequential uploadThenDelete).world.db.packages = [] ∧
      ¬(Sys.reachedBy exampleService sequential uploadThenDelete).world.db.CompletedVersionsExist :=
  ⟨.reachedBy (by decide), by decide, .reachedBy (by decide), by decide, by decide⟩

/-! ### A deletion racing an upload of the same bytes -/

/-- Every blob row that a version row is bound to has its object in the
    permanent namespace, of the blob's size and digest. -/
def World.BlobsStored (sha256 : Bytes → String) (w : World) : Prop :=
  ∀ v ∈ w.db.versions, ∀ b ∈ w.db.blobs, b.id = v.blobId →
    ∃ c ∈ w.storage.objectContent b.storageKey, c.length = b.sizeBytes ∧ sha256 c = b.checksumSha256

instance (sha256 : Bytes → String) (w : World) : Decidable (w.BlobsStored sha256) :=
  inferInstanceAs (Decidable (∀ v ∈ w.db.versions, ∀ b ∈ w.db.blobs, b.id = v.blobId →
    ∃ c ∈ w.storage.objectContent b.storageKey, c.length = b.sizeBytes ∧ sha256 c = b.checksumSha256))

/-- User 1 uploads a payload and deletes the package; the deletion commits its
    block, which removes the blob row, and stops before `delete_object`. User 2
    then uploads the same payload: the lookup finds no blob, `promote_upload`
    finds the object still there and discards the temp file, and the reconcile
    block adds a new blob row for that key. The deletion then deletes the
    object. -/
def deleteRacesUpload : List Action :=
  uploadOne ++ [.call (.deletePackageForOwner 1 1), .step 1 false] ++
  [.call (.uploadSingleRequest ⟨2, exampleForm "tool" "1.0", [[1, 2]], "u2"⟩)] ++
    List.replicate 14 (.step 2 false) ++
  [.step 1 false, .step 1 false]

/-- With no I/O fault, user 2's version ends bound to a blob whose object is
    gone. -/
theorem version_bound_to_deleted_object :
    Reachable exampleService noFault (Sys.reachedBy exampleService noFault deleteRacesUpload) ∧
      ¬(Sys.reachedBy exampleService noFault deleteRacesUpload).world.BlobsStored stubSha256 :=
  ⟨.reachedBy (by decide), by decide⟩

/-! ### Every run keeps the catalog -/

theorem Proc.step_catalog {svc : SoftwarePackageService} {fault : Bool} {w w' : World} {p p' : Proc}
    (hw : w.db.WF) (hc : w.db.Catalog) (h : p.step svc fault w = (p', w')) : w'.db.Catalog := by
  rcases step_cases h with ⟨-, hb, -⟩ | ⟨q, u, keys, -, -, hT⟩ | ⟨fa, pc, pc', -, hpc, -⟩
  · exact hb.catalog hw hc
  · exact deletePackageTx_catalog hw hc hT
  · rcases FinalizePc.step_db hpc with ⟨rfl, -⟩ | hr
    · exact hc
    · rcases FinalizePc.run_tables hr with ⟨hp, hv⟩ | ⟨s, b, r, -, -, hi⟩
      exacts [hc.of_tables hp hv, versionInsertTx_catalog hc hi]

/-- **Package/version denormalization.** In every state that any interleaving
    of the service's calls reaches from the empty store, I/O faults included,
    every package has a version row and its `latest_version` is the label of
    the version row last inserted for it. -/
theorem package_latest_version {svc : SoftwarePackageService} {s : Sys}
    (h : Reachable svc anyOrder s) :
    ∀ p ∈ s.world.db.packages, ∃ v,
      (s.world.db.versions.filter (·.packageId = p.id)).getLast? = some v ∧
        p.latestVersion = some v.version :=
  (Reachable.db_inv Db.catalog_empty (fun hw hc hst => Proc.step_catalog hw hc hst) h).2

/-- Versions 1.0 and 1.1 of one package, uploaded by user 1 in turn. -/
def twoVersions : List Action :=
  [.call (.uploadSingleRequest ⟨1, exampleForm "tool" "1.0", [[1]], "u1"⟩)] ++
    List.replicate 14 (.step 0 false) ++
  [.call (.uploadSingleRequest ⟨1, exampleForm "tool" "1.1", [[1, 2]], "u2"⟩)] ++
    List.replicate 14 (.step 1 false)

theorem package_latest_version_two_versions :
    Reachable exampleService anyOrder (Sys.reachedBy exampleService anyOrder twoVersions) ∧
      ∀ p ∈ (Sys.reachedBy exampleService anyOrder twoVersions).world.db.packages, ∃ v,
        ((Sys.reachedBy exampleService anyOrder twoVersions).world.db.versions.filter
          (·.packageId = p.id)).getLast? = some v ∧ p.latestVersion = some v.version := by
  have h : Reachable exampleService anyOrder (Sys.reachedBy exampleService anyOrder twoVersions) :=
    .reachedBy (by decide)
  exact ⟨h, package_latest_version h⟩

example : (Sys.reachedBy exampleService anyOrder twoVersions).world.db.packages.map
    (·.latestVersion) = [some "1.1"] := by decide

end TechPulse
