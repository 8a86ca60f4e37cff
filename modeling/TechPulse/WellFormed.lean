import Mathlib.Data.List.Nodup
import TechPulse.TxSpec

/-!
# The keys the database enforces

SQLite enforces the primary keys and the unique constraints of the four tables,
so in every database the service reaches the ids of each table are distinct,
an owner has one package of a name, a (checksum, size) pair has one blob, and
an upload id one session. `Db.WF` collects these facts, and every committed
block keeps them.

`Db.Keeps db db'` is what a committed block keeps of rows it does not own: a
blob row keeps its checksum and size under its id, and no session row is lost.
`Db.Bookkeeping` names the blocks that touch neither blobs nor versions' blob
ids: the session blocks and the download counter.
-/

namespace TechPulse

/-! ### Lists of rows under a unique key -/

/-- Writing back a changed row under a unique id leaves a column the change
    keeps as it was, row for row. -/
theorem map_replace_of_nodup {α κ β : Type} [DecidableEq κ] {l : List α} {id : α → κ}
    {f : α → β} (hnd : (l.map id).Nodup) {B B' : α} (hB : B ∈ l) (hid : id B' = id B)
    (hf : f B' = f B) : (l.map fun c => if id c = id B' then B' else c).map f = l.map f := by
  simp only [List.map_map]
  refine List.map_congr_left fun c hc => ?_
  show f (if id c = id B' then B' else c) = f c
  by_cases h : id c = id B'
  · rw [if_pos h, hf, List.inj_on_of_nodup_map hnd hc hB (h.trans hid)]
  · rw [if_neg h]

theorem nodup_map_concat {α β : Type} {l : List α} {f : α → β} {a : α} (h : (l.map f).Nodup)
    (ha : ∀ x ∈ l, f x ≠ f a) : ((l ++ [a]).map f).Nodup := by
  rw [List.map_append, List.nodup_append]
  refine ⟨h, List.nodup_singleton _, fun x hx hy => ?_⟩
  obtain ⟨y, hy', rfl⟩ := List.mem_map.mp hx
  exact ha y hy' (List.mem_singleton.mp hy)

theorem nodup_map_filter {α β : Type} {l : List α} {f : α → β} (p : α → Bool)
    (h : (l.map f).Nodup) : ((l.filter p).map f).Nodup :=
  h.sublist ((List.filter_sublist l).map f)

/-- The row a unique key names is the only row with that key. -/
theorem eq_of_key_eq {α κ : Type} {l : List α} {id : α → κ} (hnd : (l.map id).Nodup)
    {x y : α} (hx : x ∈ l) (hy : y ∈ l) (h : id x = id y) : x = y :=
  List.inj_on_of_nodup_map hnd hx hy h

/-! ### The invariant -/

/-- The keys SQLite enforces, as facts about the tables. -/
structure Db.WF (db : Db) : Prop where
  packageIds : (db.packages.map (·.id)).Nodup
  packageKeys : (db.packages.map fun p => (p.ownerId, p.name)).Nodup
  blobIds : (db.blobs.map (·.id)).Nodup
  blobKeys : (db.blobs.map fun b => (b.checksumSha256, b.sizeBytes)).Nodup
  versionIds : (db.versions.map (·.id)).Nodup
  sessionIds : (db.sessions.map (·.id)).Nodup

theorem Db.wf_empty : Db.empty.WF := ⟨.nil, .nil, .nil, .nil, .nil, .nil⟩

/-- What a committed block keeps of the rows it does not own. -/
structure Db.Keeps (db db' : Db) : Prop where
  blobs : ∀ B' ∈ db'.blobs, ∀ B ∈ db.blobs, B'.id = B.id →
    B'.checksumSha256 = B.checksumSha256 ∧ B'.sizeBytes = B.sizeBytes
  sessions : ∀ s ∈ db.sessions, ∃ s' ∈ db'.sessions, s'.id = s.id ∧ s'.userId = s.userId

namespace Db

variable {db : Db}

theorem Keeps.refl (db : Db) (hwf : db.WF) : db.Keeps db where
  blobs B' hB' B hB h := by rw [eq_of_key_eq hwf.blobIds hB' hB h]; exact ⟨rfl, rfl⟩
  sessions s hs := ⟨s, hs, rfl, rfl⟩

theorem Keeps.of_eq (hwf : db.WF) {db' : Db} (hb : db'.blobs = db.blobs)
    (hs : db'.sessions = db.sessions) : db.Keeps db' :=
  ⟨hb ▸ (Keeps.refl db hwf).blobs, hs ▸ (Keeps.refl db hwf).sessions⟩

/-- Two blocks in a row keep what each keeps, when the second adds no blob row. -/
theorem Keeps.trans {db1 db' : Db} (h1 : db.Keeps db1) (h2 : db1.Keeps db')
    (hb : db'.blobs = db1.blobs) : db.Keeps db' where
  blobs B' hB' B hB e := h1.blobs B' (hb ▸ hB') B hB e
  sessions s hs :=
    let ⟨s1, hs1, e1, e2⟩ := h1.sessions s hs
    let ⟨s', hs', e3, e4⟩ := h2.sessions s1 hs1
    ⟨s', hs', e3.trans e1, e4.trans e2⟩

theorem Keeps.saveBlob (hwf : db.WF) {B B' : FileBlob} (hB : B ∈ db.blobs) (hid : B'.id = B.id)
    (hc : B'.checksumSha256 = B.checksumSha256) (hn : B'.sizeBytes = B.sizeBytes) :
    db.Keeps (db.saveBlob B') where
  blobs X' hX' X hX e := by
    obtain ⟨Y, hY, rfl⟩ := List.mem_map.mp hX'
    by_cases hy : Y.id = B'.id
    · simp only [if_pos hy] at e ⊢
      rw [eq_of_key_eq hwf.blobIds hX hB (e.symm.trans hid)]
      exact ⟨hc, hn⟩
    · simp only [if_neg hy] at e ⊢
      rw [eq_of_key_eq hwf.blobIds hY hX e]
      exact ⟨rfl, rfl⟩
  sessions := (Keeps.refl db hwf).sessions

theorem Keeps.addBlob (hwf : db.WF) {B : FileBlob} (hid : ∀ x ∈ db.blobs, x.id ≠ B.id) :
    db.Keeps { db with blobs := db.blobs ++ [B] } where
  blobs X' hX' X hX e := by
    rcases List.mem_append.mp hX' with hX' | hX'
    · exact (Keeps.refl db hwf).blobs X' hX' X hX e
    · rw [List.mem_singleton.mp hX'] at e
      exact absurd e.symm (hid X hX)
  sessions := (Keeps.refl db hwf).sessions

/-! ### One write at a time -/

namespace WF

theorem saveSession (h : db.WF) {s r : UploadSession} (hs : s ∈ db.sessions) (hid : r.id = s.id) :
    (db.saveSession r).WF := by
  refine { h with sessionIds := ?_ }
  simpa only [Db.saveSession, map_replace_of_nodup h.sessionIds hs hid hid] using h.sessionIds

theorem addSession (h : db.WF) {s : UploadSession} (hs : ∀ x ∈ db.sessions, x.id ≠ s.id) :
    ({ db with sessions := db.sessions ++ [s] } : Db).WF :=
  { h with sessionIds := nodup_map_concat h.sessionIds hs }

theorem saveBlob (h : db.WF) {B B' : FileBlob} (hB : B ∈ db.blobs) (hid : B'.id = B.id)
    (hc : B'.checksumSha256 = B.checksumSha256) (hn : B'.sizeBytes = B.sizeBytes) :
    (db.saveBlob B').WF := by
  refine { h with blobIds := ?_, blobKeys := ?_ }
  · simpa only [Db.saveBlob, map_replace_of_nodup h.blobIds hB hid hid] using h.blobIds
  · simpa only [Db.saveBlob, map_replace_of_nodup h.blobIds hB hid (f := fun b =>
      (b.checksumSha256, b.sizeBytes)) (by simp only [hc, hn])] using h.blobKeys

theorem addBlob (h : db.WF) {B : FileBlob} (hid : ∀ x ∈ db.blobs, x.id ≠ B.id)
    (hkey : ∀ x ∈ db.blobs, ¬(x.checksumSha256 = B.checksumSha256 ∧ x.sizeBytes = B.sizeBytes)) :
    ({ db with blobs := db.blobs ++ [B] } : Db).WF :=
  { h with
    blobIds := nodup_map_concat h.blobIds hid
    blobKeys := nodup_map_concat h.blobKeys fun x hx he => hkey x hx (Prod.mk.inj he) }

theorem deleteBlob (h : db.WF) (B : FileBlob) : (db.deleteBlob B).WF :=
  { h with
    blobIds := nodup_map_filter _ h.blobIds
    blobKeys := nodup_map_filter _ h.blobKeys }

theorem saveFileVersion (h : db.WF) {v v' : FileVersion} (hv : v ∈ db.versions) (hid : v'.id = v.id) :
    (db.saveFileVersion v').WF := by
  refine { h with versionIds := ?_ }
  simpa only [Db.saveFileVersion, map_replace_of_nodup h.versionIds hv hid hid] using h.versionIds

theorem addFileVersion (h : db.WF) {v : FileVersion} (hid : ∀ x ∈ db.versions, x.id ≠ v.id) :
    ({ db with versions := db.versions ++ [v] } : Db).WF :=
  { h with versionIds := nodup_map_concat h.versionIds hid }

theorem deleteFileVersion (h : db.WF) (v : FileVersion) : (db.deleteFileVersion v).WF :=
  { h with versionIds := nodup_map_filter _ h.versionIds }

theorem savePackage (h : db.WF) {p p' : SoftwarePackage} (hp : p ∈ db.packages) (hid : p'.id = p.id)
    (ho : p'.ownerId = p.ownerId) (hn : p'.name = p.name) : (db.savePackage p').WF := by
  refine { h with packageIds := ?_, packageKeys := ?_ }
  · simpa only [Db.savePackage, map_replace_of_nodup h.packageIds hp hid hid] using h.packageIds
  · simpa only [Db.savePackage, map_replace_of_nodup h.packageIds hp hid (f := fun p =>
      (p.ownerId, p.name)) (by simp only [ho, hn])] using h.packageKeys

theorem addPackage (h : db.WF) {p : SoftwarePackage} (hid : ∀ x ∈ db.packages, x.id ≠ p.id)
    (hkey : ∀ x ∈ db.packages, ¬(x.ownerId = p.ownerId ∧ x.name = p.name)) :
    ({ db with packages := db.packages ++ [p] } : Db).WF :=
  { h with
    packageIds := nodup_map_concat h.packageIds hid
    packageKeys := nodup_map_concat h.packageKeys fun x hx he => hkey x hx (Prod.mk.inj he) }

theorem deletePackage (h : db.WF) (p : SoftwarePackage) : (db.deletePackage p).WF :=
  { h with
    packageIds := nodup_map_filter _ h.packageIds
    packageKeys := nodup_map_filter _ h.packageKeys }

end WF

/-- A fresh rowid is the id of no row. -/
theorem nextRowId_ne {α : Type} {l : List α} {id : α → Nat} {x : α} (hx : x ∈ l) :
    id x ≠ nextRowId (l.map id) :=
  fun he => nextRowId_not_mem _ (he ▸ List.mem_map_of_mem id hx)

/-! ### Reading a blob row by id -/

theorem getBlobById_some {i : Nat} {B : FileBlob} (h : db.getBlobById i = some B) :
    B ∈ db.blobs ∧ B.id = i := by
  unfold Db.getBlobById at h
  exact ⟨List.mem_of_find?_eq_some h, by simpa using List.find?_some h⟩

theorem WF.getBlobById (h : db.WF) {B : FileBlob} (hB : B ∈ db.blobs) :
    db.getBlobById B.id = some B := by
  cases hf : db.getBlobById B.id with
  | none => exact absurd (List.find?_eq_none.mp hf B hB) (by simp)
  | some C =>
    obtain ⟨hC, hid⟩ := getBlobById_some hf
    rw [eq_of_key_eq h.blobIds hC hB hid]

/-- The row a unique key names is what the key's query returns. -/
theorem filter_eq_singleton {α : Type} {l : List α} {p : α → Bool} {x : α}
    (hlen : (l.filter p).length ≤ 1) (hx : x ∈ l) (hp : p x) : l.filter p = [x] := by
  have hm : x ∈ l.filter p := List.mem_filter.mpr ⟨hx, hp⟩
  match hl : l.filter p, hlen with
  | [], _ => rw [hl] at hm; cases hm
  | [y], _ => rw [hl] at hm; rw [List.mem_singleton.mp hm]
  | _ :: _ :: _, h => simp at h

/-- A unique key filters the table down to at most one row. -/
theorem WF.sessions_filter (h : db.WF) (u : String) (k : Int) :
    (db.sessions.filter fun s => s.id = u ∧ s.userId = k).length ≤ 1 :=
  length_filter_le_one h.sessionIds (c := u) fun _ _ hx => (of_decide_eq_true hx).1

theorem WF.packages_filter (h : db.WF) (o : Int) (nm : String) :
    (db.packages.filter fun p => p.ownerId = o ∧ p.name = nm).length ≤ 1 :=
  length_filter_le_one h.packageKeys (c := (o, nm)) (by simp)

theorem WF.blobs_filter (h : db.WF) (c : String) (n : Nat) :
    (db.blobs.filter fun b => b.checksumSha256 = c ∧ b.sizeBytes = n).length ≤ 1 :=
  length_filter_le_one h.blobKeys (c := (c, n)) (by simp)

theorem WF.getBlobByChecksumAndSize (h : db.WF) {B : FileBlob} (hB : B ∈ db.blobs) :
    db.getBlobByChecksumAndSize B.checksumSha256 B.sizeBytes = .ok (some B) := by
  unfold Db.getBlobByChecksumAndSize
  rw [filter_eq_singleton (h.blobs_filter _ _) hB (by simp)]
  rfl

theorem WF.getUploadSessionForUserForUpdate (h : db.WF) {s : UploadSession} (hs : s ∈ db.sessions) :
    db.getUploadSessionForUserForUpdate s.id s.userId = .ok (some s) := by
  unfold Db.getUploadSessionForUserForUpdate
  rw [filter_eq_singleton (h.sessions_filter _ _) hs (by simp)]
  rfl

/-! ### Whole blocks -/

theorem SessionEdit.blobs {db' : Db} (he : db.SessionEdit db') : db'.blobs = db.blobs := by
  rcases he with rfl | ⟨_, _, _, _, _, rfl⟩ <;> rfl

theorem SessionEdit.tables {db' : Db} (he : db.SessionEdit db') :
    db'.packages = db.packages ∧ db'.versions = db.versions := by
  rcases he with rfl | ⟨_, _, _, _, _, rfl⟩ <;> exact ⟨rfl, rfl⟩

theorem SessionEdit.wf (h : db.WF) {db' : Db} (he : db.SessionEdit db') : db'.WF := by
  rcases he with rfl | ⟨s, hs, r, hid, -, rfl⟩
  exacts [h, h.saveSession hs hid]

theorem SessionEdit.keeps (h : db.WF) {db' : Db} (he : db.SessionEdit db') : db.Keeps db' := by
  rcases he with rfl | ⟨s, hs, r, hid, huid, rfl⟩
  · exact Keeps.refl _ h
  · refine ⟨(Keeps.refl db h).blobs, fun x hx => ?_⟩
    by_cases hx' : x.id = r.id
    · have hxs : x = s := eq_of_key_eq h.sessionIds hx hs (hx'.trans hid)
      refine ⟨r, List.mem_map.mpr ⟨x, hx, if_pos hx'⟩, hx'.symm, hxs ▸ huid⟩
    · exact ⟨x, List.mem_map.mpr ⟨x, hx, if_neg hx'⟩, rfl, rfl⟩

/-- The blocks that touch neither blob rows nor versions' blob ids nor packages:
    a session row rewritten or added, or a download counted. -/
inductive Bookkeeping (db : Db) : Db → Prop
  | session {db' : Db} : db.SessionEdit db' → Bookkeeping db db'
  | newSession {s : UploadSession} : (∀ x ∈ db.sessions, x.id ≠ s.id) →
      Bookkeeping db { db with sessions := db.sessions ++ [s] }
  | download {v : FileVersion} : v ∈ db.versions →
      Bookkeeping db (db.saveFileVersion (incrementFileVersionDownloadCount v))

theorem Bookkeeping.refl (db : Db) : db.Bookkeeping db := .session (.inl rfl)

theorem Bookkeeping.wf (h : db.WF) {db' : Db} : db.Bookkeeping db' → db'.WF
  | .session he => he.wf h
  | .newSession hs => h.addSession hs
  | .download hv => h.saveFileVersion hv rfl

theorem Bookkeeping.keeps (h : db.WF) {db' : Db} : db.Bookkeeping db' → db.Keeps db'
  | .session he => he.keeps h
  | .newSession _ =>
    ⟨(Keeps.refl db h).blobs, fun s hs => ⟨s, List.mem_append_left _ hs, rfl, rfl⟩⟩
  | .download _ => ⟨(Keeps.refl db h).blobs, (Keeps.refl db h).sessions⟩

theorem Bookkeeping.blobs {db' : Db} (h : db.Bookkeeping db') : db'.blobs = db.blobs := by
  rcases h with he | _ | _
  exacts [he.blobs, rfl, rfl]

theorem Bookkeeping.packages {db' : Db} (h : db.Bookkeeping db') : db'.packages = db.packages := by
  rcases h with (rfl | ⟨_, _, _, _, _, rfl⟩) | _ | _ <;> rfl

/-- A bookkeeping block keeps every version row but its download counter. -/
theorem Bookkeeping.versions (h : (db.versions.map (·.id)).Nodup) {db' : Db} (hb : db.Bookkeeping db') :
    db'.versions.map (fun v => { v with downloadCount := 0 }) =
      db.versions.map (fun v => { v with downloadCount := 0 }) := by
  rcases hb with (rfl | ⟨_, _, _, _, _, rfl⟩) | _ | hv
  iterate 3 rfl
  exact map_replace_of_nodup h hv rfl rfl

end Db

/-! ### The blocks that write blobs, versions or packages -/

section Blocks

variable {db db' : Db}

theorem blobLookupTx_wf {c : String} {n : Nat} {r : Option Nat} (h : db.WF)
    (hT : blobLookupTx c n db = .ok (r, db')) : db'.WF ∧ db.Keeps db' := by
  rcases blobLookupTx_ok hT with ⟨-, rfl, -⟩ | ⟨b, hb, -, -, -, rfl⟩
  · exact ⟨h, .refl _ h⟩
  · exact ⟨h.saveBlob hb rfl rfl rfl, .saveBlob h hb rfl rfl rfl⟩

theorem blobReconcileTx_wf {c : String} {n : Nat} {k : String} {r : Nat} (h : db.WF)
    (hT : blobReconcileTx c n k db = .ok (r, db')) : db'.WF ∧ db.Keeps db' := by
  rcases blobReconcileTx_ok hT with ⟨b, hb, -, -, -, rfl⟩ | ⟨rfl, hkey, rfl⟩
  · exact ⟨h.saveBlob hb rfl rfl rfl, .saveBlob h hb rfl rfl rfl⟩
  · exact ⟨h.addBlob (fun _ hx => Db.nextRowId_ne hx) hkey, .addBlob h fun _ hx => Db.nextRowId_ne hx⟩

theorem upsertPackage_wf {o : Int} {nm d c l : String} {pub : Bool} {lv : String}
    {pkg : SoftwarePackage} (h : db.WF) (hup : db.upsertPackage o nm d c l pub lv = .ok (pkg, db')) :
    db'.WF := by
  obtain ⟨ho, hn, -, ⟨p, hp, hpo, hpn, hid, rfl⟩ | ⟨hid, hkey, rfl⟩⟩ := upsertPackage_ok hup
  · exact h.savePackage hp hid (ho.trans hpo.symm) (hn.trans hpn.symm)
  · exact h.addPackage (fun _ hx => hid ▸ Db.nextRowId_ne hx) (ho ▸ hn ▸ hkey)

theorem versionInsertTx_wf {a : FinalizeArgs} {s : UploadSession} {b r : Nat} (h : db.WF)
    (hT : versionInsertTx a s b db = .ok (r, db')) : db'.WF ∧ db.Keeps db' := by
  obtain ⟨pkg, db1, sess, hup, -, -, rfl, hsess, -, -, rfl⟩ := versionInsertTx_ok hT
  obtain ⟨hb1, -, hs1⟩ := upsertPackage_tables hup
  have h2 := (upsertPackage_wf h hup).addFileVersion (fun _ hx => Db.nextRowId_ne hx)
    (v := FileVersion.mk _ pkg.id b s.fileName s.contentType s.packageVersion a.sizeBytes a.checksum 0)
  refine ⟨Db.SessionEdit.wf h2 (.inr ⟨sess, hsess, _, by rfl, by rfl, rfl⟩),
    Db.Keeps.trans ?_ (Db.SessionEdit.keeps h2 (.inr ⟨sess, hsess, _, by rfl, by rfl, rfl⟩)) rfl⟩
  exact Db.Keeps.of_eq h hb1 hs1

theorem compensateTx_wf {a : FinalizeArgs} {b : Nat} (h : db.WF)
    (hT : compensateTx a b db = .ok ((), db')) : db'.WF ∧ db.Keeps db' := by
  obtain ⟨db1, rfl | ⟨d, hd, -, rfl⟩, he⟩ := compensateTx_edit hT
  · exact ⟨he.wf h, he.keeps h⟩
  · have h1 : (db.saveBlob (Db.decrementBlobRefcount d)).WF := h.saveBlob hd rfl rfl rfl
    have hk : db.Keeps (db.saveBlob (Db.decrementBlobRefcount d)) := .saveBlob h hd rfl rfl rfl
    exact ⟨he.wf h1, hk.trans (he.keeps h1) he.blobs⟩

/-! ### `delete_package_for_owner` -/

theorem deleteVersionsLoop_tables : ∀ (vs : List FileVersion) (db : Db) (keys : List String),
    (deleteVersionsLoop vs db keys).1.packages = db.packages ∧
      (deleteVersionsLoop vs db keys).1.sessions = db.sessions
  | [], _, _ => ⟨rfl, rfl⟩
  | v :: vs, db, keys => by
    simp only [deleteVersionsLoop]
    split
    · exact deleteVersionsLoop_tables vs _ _
    · split
      · exact deleteVersionsLoop_tables vs _ _
      · exact deleteVersionsLoop_tables vs _ _

theorem deleteVersionsLoop_wf : ∀ (vs : List FileVersion) (db : Db) (keys : List String),
    db.WF → (deleteVersionsLoop vs db keys).1.WF
  | [], _, _, h => h
  | v :: vs, db, keys, h => by
    simp only [deleteVersionsLoop]
    split
    · exact deleteVersionsLoop_wf vs _ _ (h.deleteFileVersion v)
    · have hb := (Db.getBlobById_some ‹_›).1
      split
      · exact deleteVersionsLoop_wf vs _ _ ((h.deleteFileVersion v).deleteBlob _)
      · exact deleteVersionsLoop_wf vs _ _ ((h.deleteFileVersion v).saveBlob hb rfl rfl rfl)

/-- Every blob row the loop leaves was a row before it, up to its count. -/
theorem deleteVersionsLoop_blobs : ∀ (vs : List FileVersion) (db : Db) (keys : List String),
    ∀ B' ∈ (deleteVersionsLoop vs db keys).1.blobs, ∃ B ∈ db.blobs,
      B.id = B'.id ∧ B.checksumSha256 = B'.checksumSha256 ∧ B.sizeBytes = B'.sizeBytes
  | [], _, _, B', hB' => ⟨B', hB', rfl, rfl, rfl⟩
  | v :: vs, db, keys, B', hB' => by
    simp only [deleteVersionsLoop] at hB'
    cases hg : db.getBlobById v.blobId with
    | none =>
      rw [hg] at hB'
      exact deleteVersionsLoop_blobs vs (db.deleteFileVersion v) keys B' hB'
    | some b =>
      have hb := (Db.getBlobById_some hg).1
      rw [hg] at hB'
      dsimp only at hB'
      split at hB'
      · obtain ⟨B, hB, e⟩ := deleteVersionsLoop_blobs vs _ _ B' hB'
        exact ⟨B, (List.mem_filter.mp hB).1, e⟩
      · obtain ⟨B, hB, e⟩ := deleteVersionsLoop_blobs vs _ _ B' hB'
        obtain ⟨Y, hY, rfl⟩ := List.mem_map.mp hB
        by_cases hy : Y.id = (Db.decrementBlobRefcount b).id
        · rw [if_pos hy] at e
          exact ⟨b, hb, e⟩
        · rw [if_neg hy] at e
          exact ⟨Y, hY, e⟩

theorem deletePackageTx_wf {p : Nat} {u : Int} {keys : List String} (h : db.WF)
    (hT : deletePackageTx p u db = .ok (keys, db')) : db'.WF ∧ db.Keeps db' := by
  obtain ⟨pkg, -, -, rfl, -⟩ := deletePackageTx_ok hT
  set vs := db.listAllFileVersionsForPackage p
  refine ⟨(deleteVersionsLoop_wf vs db [] h).deletePackage pkg, fun B' hB' B hB e => ?_, ?_⟩
  · obtain ⟨C, hC, hid, hc, hn⟩ := deleteVersionsLoop_blobs vs db [] B' hB'
    rw [← eq_of_key_eq h.blobIds hC hB (hid.trans e)]
    exact ⟨hc.symm, hn.symm⟩
  · rw [Db.deletePackage_sessions, (deleteVersionsLoop_tables vs db []).2]
    exact (Db.Keeps.refl db h).sessions

end Blocks

end TechPulse
