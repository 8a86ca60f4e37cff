import TechPulse.Steps

/-!
# The blob reference-count ledger

`reference_count` is the service's own count of the references to a blob: the
version rows bound to it, and the finalizations that have taken a reference in
one block (`increment_blob_refcount` or `add_blob`) and not yet spent it in a
later one (the version insert, or the compensating decrement). With no I/O
fault, every interleaving of the service's calls keeps that count exact, and no
version row is ever bound to a missing blob (`blob_ledger`).

The ledger is read pointwise, through `Db.countOf` and `Db.refsTo`. The proof
says what one step of one call does to it while the other calls hold references
`R`, and lifts that to whole runs over `Reachable`.
-/

namespace TechPulse

/-! ### Reading the ledger after a write -/

/-- Counting a property over a table with unique ids, one row at a time. -/
theorem countP_eq_filter_add {α κ : Type} [DecidableEq κ] {l : List α} {id : α → κ}
    (hnd : (l.map id).Nodup) {v : α} (hv : v ∈ l) (p : α → Bool) :
    l.countP p = (l.filter fun c => id c ≠ id v).countP p + if p v then 1 else 0 := by
  induction l with
  | nil => cases hv
  | cons x l ih =>
    obtain ⟨hx, hnd⟩ := List.nodup_cons.mp hnd
    rcases List.mem_cons.mp hv with rfl | hv
    · have hl : l.filter (fun c => id c ≠ id v) = l :=
        List.filter_eq_self.mpr fun c hc =>
          decide_eq_true fun (e : id c = id v) => hx (e ▸ List.mem_map_of_mem id hc)
      rw [List.filter_cons_of_neg (by simp), hl, List.countP_cons]
    · have hne : id x ≠ id v := fun e => hx (e ▸ List.mem_map_of_mem id hv)
      rw [List.filter_cons_of_pos (p := fun c => decide (id c ≠ id v)) (decide_eq_true hne),
        List.countP_cons, List.countP_cons, ih hnd hv]
      omega

namespace Db

variable {db : Db}

theorem getBlobById_saveBlob (h : db.WF) {B B' : FileBlob} (hB : B ∈ db.blobs) (hid : B'.id = B.id)
    (i : Nat) : (db.saveBlob B').getBlobById i = if i = B.id then some B' else db.getBlobById i := by
  have hp : ((fun b : FileBlob => decide (b.id = i)) ∘ fun c => if c.id = B'.id then B' else c) =
      fun c => decide (c.id = i) := by
    funext c
    by_cases hc : c.id = B'.id <;> simp [hc]
  have hfind : (db.saveBlob B').getBlobById i =
      (db.getBlobById i).map fun c => if c.id = B'.id then B' else c := by
    simp only [getBlobById, saveBlob, List.find?_map, hp]
  rw [hfind]
  split_ifs with hi
  · rw [hi, h.getBlobById hB, Option.map_some', if_pos hid.symm]
  · cases hf : db.getBlobById i with
    | none => rfl
    | some C => rw [Option.map_some', if_neg (by rw [(getBlobById_some hf).2, hid]; exact hi)]

theorem getBlobById_deleteBlob (B : FileBlob) (i : Nat) :
    (db.deleteBlob B).getBlobById i = if i = B.id then none else db.getBlobById i := by
  simp only [getBlobById, deleteBlob, List.find?_filter]
  split_ifs with hi
  · subst hi
    exact List.find?_eq_none.mpr fun x _ => by simp
  · congr 1
    funext c
    by_cases hc : c.id = i <;> simp [hc, hi, Ne.symm hi]

theorem getBlobById_addBlob {B : FileBlob} (hid : ∀ x ∈ db.blobs, x.id ≠ B.id) (i : Nat) :
    ({ db with blobs := db.blobs ++ [B] } : Db).getBlobById i =
      if i = B.id then some B else db.getBlobById i := by
  simp only [getBlobById, List.find?_append]
  split_ifs with hi
  · subst hi
    rw [List.find?_eq_none.mpr fun x hx => by simpa using hid x hx]
    simp
  · simp [Ne.symm hi]

theorem WF.countOf_of_mem (h : db.WF) {B : FileBlob} (hB : B ∈ db.blobs) :
    db.countOf B.id = B.referenceCount := by
  simp [countOf, h.getBlobById hB]

theorem exists_of_countOf_ne_zero {i : Nat} (h : db.countOf i ≠ 0) : ∃ B, db.getBlobById i = some B := by
  cases hb : db.getBlobById i with
  | none => simp [countOf, hb] at h
  | some B => exact ⟨B, rfl⟩

theorem countOf_eq_zero {i : Nat} (h : ∀ x ∈ db.blobs, x.id ≠ i) : db.countOf i = 0 := by
  have : db.getBlobById i = none := List.find?_eq_none.mpr fun x hx => by simpa using h x hx
  simp [countOf, this]

theorem countOf_congr {db' : Db} (h : db'.blobs = db.blobs) : db'.countOf = db.countOf := by
  funext i
  simp [countOf, getBlobById, h]

theorem WF.countOf_saveBlob (h : db.WF) {B B' : FileBlob} (hB : B ∈ db.blobs) (hid : B'.id = B.id)
    (i : Nat) : (db.saveBlob B').countOf i = if i = B.id then B'.referenceCount else db.countOf i := by
  simp only [countOf, getBlobById_saveBlob h hB hid]
  split_ifs <;> rfl

theorem countOf_deleteBlob (B : FileBlob) (i : Nat) :
    (db.deleteBlob B).countOf i = if i = B.id then 0 else db.countOf i := by
  simp only [countOf, getBlobById_deleteBlob]
  split_ifs <;> rfl

theorem countOf_addBlob {B : FileBlob} (hid : ∀ x ∈ db.blobs, x.id ≠ B.id) (i : Nat) :
    ({ db with blobs := db.blobs ++ [B] } : Db).countOf i =
      if i = B.id then B.referenceCount else db.countOf i := by
  simp only [countOf, getBlobById_addBlob hid]
  split_ifs <;> rfl

theorem refsTo_eq_count (db : Db) (i : Nat) :
    db.refsTo i = (db.versions.map (·.blobId)).countP (· = i) := by
  simp [refsTo, List.countP_map, Function.comp_def]

theorem refsTo_congr {db' : Db} (h : db'.versions.map (·.blobId) = db.versions.map (·.blobId)) :
    db'.refsTo = db.refsTo := by
  funext i
  rw [refsTo_eq_count, refsTo_eq_count, h]

theorem refsTo_addFileVersion (v : FileVersion) (i : Nat) :
    ({ db with versions := db.versions ++ [v] } : Db).refsTo i =
      db.refsTo i + if v.blobId = i then 1 else 0 := by
  simp [refsTo, List.countP_append, List.countP_cons]

@[simp] theorem refsTo_saveBlob (B : FileBlob) : (db.saveBlob B).refsTo = db.refsTo := rfl

@[simp] theorem refsTo_deleteBlob (B : FileBlob) : (db.deleteBlob B).refsTo = db.refsTo := rfl

@[simp] theorem refsTo_saveSession (s : UploadSession) : (db.saveSession s).refsTo = db.refsTo := rfl

@[simp] theorem refsTo_deletePackage (p : SoftwarePackage) : (db.deletePackage p).refsTo = db.refsTo :=
  rfl

@[simp] theorem countOf_saveSession (s : UploadSession) : (db.saveSession s).countOf = db.countOf :=
  rfl

@[simp] theorem countOf_deletePackage (p : SoftwarePackage) :
    (db.deletePackage p).countOf = db.countOf := rfl

theorem Bookkeeping.refsTo (h : db.WF) {db' : Db} (hb : db.Bookkeeping db') : db'.refsTo = db.refsTo := by
  have := congrArg (List.map (·.blobId)) (hb.versions h.versionIds)
  simp only [List.map_map, Function.comp_def] at this
  exact refsTo_congr this

theorem WF.refsTo_deleteFileVersion (h : db.WF) {v : FileVersion} (hv : v ∈ db.versions) (i : Nat) :
    db.refsTo i = (db.deleteFileVersion v).refsTo i + if v.blobId = i then 1 else 0 := by
  simpa only [refsTo, Db.deleteFileVersion, decide_eq_true_eq] using
    countP_eq_filter_add h.versionIds hv (·.blobId = i)

end Db

/-! ### `delete_package_for_owner` keeps the ledger -/

/-- Each turn of the loop deletes one version row and gives back its reference,
    so the ledger still balances, whatever references `H` the calls hold. -/
theorem deleteVersionsLoop_ledger {H : Nat → Nat} : ∀ (vs : List FileVersion) (db : Db)
    (keys : List String), db.WF → vs.Sublist db.versions →
    (∀ i, db.countOf i = db.refsTo i + H i) →
    ∀ i, (deleteVersionsLoop vs db keys).1.countOf i = (deleteVersionsLoop vs db keys).1.refsTo i + H i
  | [], _, _, _, _, hl => hl
  | v :: vs, db, keys, h, hsub, hl => by
    have hv : v ∈ db.versions := hsub.subset (List.mem_cons_self v vs)
    have hvs : vs.Sublist (db.deleteFileVersion v).versions := by
      have hnd := (h.versionIds.sublist (hsub.map _))
      have hq : (v :: vs).filter (fun c => c.id ≠ v.id) = vs := by
        rw [List.filter_cons_of_neg (by simp), List.filter_eq_self]
        exact fun c hc => decide_eq_true fun (e : c.id = v.id) =>
          (List.nodup_cons.mp hnd).1 (List.mem_map.mpr ⟨c, hc, e⟩)
      exact hq ▸ hsub.filter _
    have h1 := h.deleteFileVersion v
    -- the ledger with the deleted row counted apart
    have hc : ∀ i, db.countOf i = (db.deleteFileVersion v).refsTo i +
        (if v.blobId = i then 1 else 0) + H i := fun i => by rw [hl i, h.refsTo_deleteFileVersion hv]
    have hc1 : (db.deleteFileVersion v).countOf = db.countOf := Db.countOf_congr rfl
    simp only [deleteVersionsLoop]
    obtain ⟨b, hb⟩ : ∃ b, db.getBlobById v.blobId = some b :=
      Db.exists_of_countOf_ne_zero (by have := hc v.blobId; simp at this; omega)
    obtain ⟨hbm, hbid⟩ := Db.getBlobById_some hb
    have hcb := h.countOf_of_mem hbm
    simp only [← hbid] at hc
    rw [hb]
    dsimp only
    split
    · rename_i h0
      refine deleteVersionsLoop_ledger vs _ _ (h1.deleteBlob _) hvs fun i => ?_
      show _ = (db.deleteFileVersion v).refsTo i + H i
      rw [Db.countOf_deleteBlob, hc1]
      have := hc i
      simp only [Db.decrementBlobRefcount] at h0 ⊢
      split_ifs at this ⊢ with hi hi' hi' <;> subst_vars <;> omega
    · rename_i h0
      refine deleteVersionsLoop_ledger vs _ _ (h1.saveBlob hbm rfl rfl rfl) hvs fun i => ?_
      show _ = (db.deleteFileVersion v).refsTo i + H i
      rw [h1.countOf_saveBlob hbm (by rfl : (Db.decrementBlobRefcount b).id = b.id), hc1]
      have := hc i
      simp only [Db.decrementBlobRefcount] at h0 ⊢
      split_ifs at this ⊢ with hi hi' hi' <;> subst_vars <;> omega

/-! ### References held by finalizations -/

/-- One when the reference `b` is on blob `i`. -/
def heldOn (b : Option Nat) (i : Nat) : Nat := if b = some i then 1 else 0

@[simp] theorem heldOn_none (i : Nat) : heldOn none i = 0 := rfl

@[simp] theorem heldOn_some (b i : Nat) : heldOn (some b) i = if b = i then 1 else 0 := by
  simp [heldOn]

/-- What a finalization relies on in the database: the blob row it holds a
    reference on has its checksum and size, and its session row exists. -/
structure FinalizePc.Consistent (db : Db) (fa : FinalizeArgs) (pc : FinalizePc) : Prop where
  blob : ∀ b, pc.pendingBlob = some b → ∀ B ∈ db.blobs, B.id = b →
    B.checksumSha256 = fa.checksum ∧ B.sizeBytes = fa.sizeBytes
  session : pc.locked → ∃ s ∈ db.sessions, s.id = fa.uploadId ∧ s.userId = fa.userId

/-- The state of one finalization that the ledger proof carries: the tables are
    well formed, the ledger balances with its reference and the references `R`
    that the other calls hold, and it is consistent with the tables. -/
structure FinalizePc.Sound (R : Nat → Nat) (db : Db) (fa : FinalizeArgs) (pc : FinalizePc) :
    Prop where
  wf : db.WF
  ledger : ∀ i, db.countOf i = db.refsTo i + heldOn pc.pendingBlob i + R i
  consistent : pc.Consistent db fa

namespace FinalizePc

variable {R : Nat → Nat} {db db' : Db} {fa : FinalizeArgs} {pc pc' : FinalizePc}

theorem Consistent.done {r : Except Err Nat} : (FinalizePc.done r).Consistent db fa where
  blob _ h := by cases h
  session h := by cases h

theorem Consistent.mono (hc : pc.Consistent db fa) (hp : pc'.pendingBlob = pc.pendingBlob)
    (hl : pc'.locked → pc.locked) : pc'.Consistent db fa :=
  ⟨fun b hb => hc.blob b (hp ▸ hb), fun h => hc.session (hl h)⟩

/-- A reference is on a blob row that exists. -/
theorem Sound.row (hs : pc.Sound R db fa) {b : Nat} (hb : pc.pendingBlob = some b) :
    ∃ B ∈ db.blobs, B.id = b := by
  have h1 := hs.ledger b
  rw [hb, heldOn_some, if_pos rfl] at h1
  obtain ⟨B, hB⟩ := Db.exists_of_countOf_ne_zero (show db.countOf b ≠ 0 by omega)
  exact ⟨B, Db.getBlobById_some hB⟩

theorem Sound.keep (hs : pc.Sound R db fa) (hk : db.Keeps db') : pc.Consistent db' fa where
  blob b hb B' hB' hid := by
    obtain ⟨B, hB, rfl⟩ := hs.row hb
    rw [(hk.blobs B' hB' B hB hid).1, (hk.blobs B' hB' B hB hid).2]
    exact hs.consistent.blob _ hb B hB rfl
  session h :=
    let ⟨s, hs', e1, e2⟩ := hs.consistent.session h
    let ⟨s', hs'', e3, e4⟩ := hk.sessions s hs'
    ⟨s', hs'', e3.trans e1, e4.trans e2⟩

/-- A bookkeeping block leaves the ledger as it was. -/
theorem Sound.bookkeeping (hs : pc.Sound R db fa) (hb : db.Bookkeeping db')
    (hp : pc'.pendingBlob = pc.pendingBlob) (hc : pc'.Consistent db fa) :
    pc'.Sound R db' fa ∧ db.Keeps db' := by
  have hk := hb.keeps hs.wf
  refine ⟨⟨hb.wf hs.wf, fun i => ?_, ?_⟩, hk⟩
  · rw [Db.countOf_congr hb.blobs, hb.refsTo hs.wf, hp]
    exact hs.ledger i
  · exact Sound.keep ⟨hs.wf, hp ▸ hs.ledger, hc⟩ hk

/-- Taking a reference on an existing blob: `increment_blob_refcount`. -/
theorem Sound.take (hs : pc.Sound R db fa) (hp : pc.pendingBlob = none) {B : FileBlob}
    (hB : B ∈ db.blobs) (hc : B.checksumSha256 = fa.checksum) (hn : B.sizeBytes = fa.sizeBytes)
    (hp' : pc'.pendingBlob = some B.id) (hl : pc'.locked → pc.locked) :
    pc'.Sound R (db.saveBlob (Db.incrementBlobRefcount B)) fa ∧
      db.Keeps (db.saveBlob (Db.incrementBlobRefcount B)) := by
  have hk : db.Keeps (db.saveBlob (Db.incrementBlobRefcount B)) := .saveBlob hs.wf hB rfl rfl rfl
  refine ⟨⟨hs.wf.saveBlob hB rfl rfl rfl, fun i => ?_, ?_⟩, hk⟩
  · rw [hs.wf.countOf_saveBlob hB (by rfl : (Db.incrementBlobRefcount B).id = B.id),
      Db.refsTo_saveBlob, hp', heldOn_some]
    have := hs.ledger i
    rw [hp, heldOn_none] at this
    have := hs.wf.countOf_of_mem hB
    have : (Db.incrementBlobRefcount B).referenceCount = B.referenceCount + 1 := rfl
    split_ifs <;> subst_vars <;> omega
  · refine ⟨fun b hb B' hB' hid => ?_, fun h => (Sound.keep hs hk).session (hl h)⟩
    rw [hp'] at hb
    cases hb
    rw [(hk.blobs B' hB' B hB hid).1, (hk.blobs B' hB' B hB hid).2]
    exact ⟨hc, hn⟩

/-- Taking the reference of a blob row it adds: `add_blob`. -/
theorem Sound.create (hs : pc.Sound R db fa) (hp : pc.pendingBlob = none) {B : FileBlob}
    (hid : ∀ x ∈ db.blobs, x.id ≠ B.id)
    (hkey : ∀ x ∈ db.blobs, ¬(x.checksumSha256 = B.checksumSha256 ∧ x.sizeBytes = B.sizeBytes))
    (hc : B.checksumSha256 = fa.checksum) (hn : B.sizeBytes = fa.sizeBytes)
    (hrc : B.referenceCount = 1) (hp' : pc'.pendingBlob = some B.id) (hl : pc'.locked → pc.locked) :
    pc'.Sound R { db with blobs := db.blobs ++ [B] } fa ∧ db.Keeps { db with blobs := db.blobs ++ [B] } := by
  have hk : db.Keeps { db with blobs := db.blobs ++ [B] } := .addBlob hs.wf hid
  refine ⟨⟨hs.wf.addBlob hid hkey, fun i => ?_, ?_⟩, hk⟩
  · show _ = db.refsTo i + _ + _
    rw [Db.countOf_addBlob hid, hp', heldOn_some]
    have := hs.ledger i
    rw [hp, heldOn_none] at this
    have := Db.countOf_eq_zero hid
    split_ifs <;> subst_vars <;> omega
  · refine ⟨fun b hb B' hB' hid' => ?_, fun h => (Sound.keep hs hk).session (hl h)⟩
    rw [hp'] at hb
    cases hb
    rcases List.mem_append.mp hB' with hB' | hB'
    · exact absurd hid' (hid B' hB')
    · rw [List.mem_singleton.mp hB']
      exact ⟨hc, hn⟩

/-- Spending the reference on the version row it inserts. -/
theorem Sound.spend (hs : pc.Sound R db fa) {s : UploadSession} {b r : Nat}
    (hp : pc.pendingBlob = some b) (hT : versionInsertTx fa s b db = .ok (r, db'))
    (hp' : pc'.pendingBlob = none) (hc' : pc'.Consistent db' fa) :
    pc'.Sound R db' fa ∧ db.Keeps db' := by
  obtain ⟨hwf, hk⟩ := versionInsertTx_wf hs.wf hT
  obtain ⟨pkg, db1, sess, hup, -, -, rfl, -, -, -, rfl⟩ := versionInsertTx_ok hT
  obtain ⟨hb1, hv1, -⟩ := upsertPackage_tables hup
  refine ⟨⟨hwf, fun i => ?_, hc'⟩, hk⟩
  rw [Db.countOf_saveSession, Db.refsTo_saveSession, Db.refsTo_addFileVersion,
    Db.refsTo_congr (congrArg _ hv1), hp', heldOn_none]
  show db1.countOf i = _
  rw [Db.countOf_congr hb1, hs.ledger i, hp, heldOn_some]
  dsimp only
  omega

/-- Giving the reference back: the compensating `decrement_blob_refcount`. -/
theorem Sound.giveBack (hs : pc.Sound R db fa) {b : Nat} (hp : pc.pendingBlob = some b)
    {B : FileBlob} (hB : B ∈ db.blobs) (hid : B.id = b)
    (he : (db.saveBlob (Db.decrementBlobRefcount B)).SessionEdit db')
    (hp' : pc'.pendingBlob = none) (hc' : pc'.Consistent db' fa) :
    pc'.Sound R db' fa ∧ db.Keeps db' := by
  have h1 : (db.saveBlob (Db.decrementBlobRefcount B)).WF := hs.wf.saveBlob hB rfl rfl rfl
  have hk : db.Keeps (db.saveBlob (Db.decrementBlobRefcount B)) := .saveBlob hs.wf hB rfl rfl rfl
  refine ⟨⟨he.wf h1, fun i => ?_, hc'⟩, hk.trans (he.keeps h1) he.blobs⟩
  rw [Db.countOf_congr he.blobs, Db.Bookkeeping.refsTo h1 (.session he), Db.refsTo_saveBlob,
    hs.wf.countOf_saveBlob hB (by rfl : (Db.decrementBlobRefcount B).id = B.id), hp', heldOn_none]
  have := hs.ledger i
  rw [hp, heldOn_some] at this
  have := hs.wf.countOf_of_mem hB
  have : (Db.decrementBlobRefcount B).referenceCount = B.referenceCount - 1 := rfl
  split_ifs at * <;> subst_vars <;> omega

/-- **One step of a finalization**, with no fault, keeps its sound state whatever
    references the other calls hold. -/
theorem run_sound {svc : SoftwarePackageService} {w w' : World} (hs : pc.Sound R w.db fa)
    (h : pc.run svc fa w = (pc', w')) : pc'.Sound R w'.db fa ∧ w.db.Keeps w'.db := by
  cases pc with
  | lock =>
    simp only [FinalizePc.run] at h
    cases hT : w.tx (finalizeLockTx fa.uploadId fa.userId) with
    | mk r w1 =>
      rw [hT] at h
      rcases World.tx_cases hT with ⟨o, rfl, hb, -⟩ | ⟨e, rfl, -, rfl⟩
      · have hbk : w.db.Bookkeeping w1.db := .session (finalizeLockTx_edit hb)
        have hsess := finalizeLockTx_session hb
        cases o with
        | replay v => cases h; exact hs.bookkeeping hbk rfl .done
        | proceed s =>
          dsimp only at h
          split at h <;> cases h
          · exact hs.bookkeeping hbk rfl .done
          · exact hs.bookkeeping hbk rfl ⟨fun _ hb => (by cases hb), fun _ => hsess⟩
      · cases h; exact hs.bookkeeping (.refl _) rfl .done
  | scan s =>
    simp only [FinalizePc.run] at h
    split at h <;> cases h
    · exact hs.bookkeeping (.refl _) rfl .done
    · exact hs.bookkeeping (.refl _) rfl (hs.consistent.mono rfl fun _ => rfl)
  | quota s =>
    simp only [FinalizePc.run] at h
    cases hT : w.tx (quotaTx svc fa.userId fa.sizeBytes) with
    | mk r w1 =>
      have hbk : w.db.Bookkeeping w1.db :=
        World.tx_db hT (.refl _) fun _ _ hb => (quotaTx_ok hb).1 ▸ .refl _
      rw [hT] at h
      cases r <;> cases h
      · exact hs.bookkeeping hbk rfl .done
      · exact hs.bookkeeping hbk rfl (hs.consistent.mono rfl fun _ => rfl)
  | lookup s =>
    simp only [FinalizePc.run] at h
    cases hT : w.tx (blobLookupTx fa.checksum fa.sizeBytes) with
    | mk r w1 =>
      rw [hT] at h
      rcases World.tx_cases hT with ⟨o, rfl, hb, -⟩ | ⟨e, rfl, -, rfl⟩
      · rcases blobLookupTx_ok hb with ⟨rfl, hdb, -⟩ | ⟨B, hB, hc, hn, rfl, hdb⟩
        · cases h
          exact hs.bookkeeping (hdb ▸ .refl _) rfl (hs.consistent.mono rfl fun _ => rfl)
        · cases h
          rw [hdb]
          exact hs.take rfl hB hc hn rfl fun _ => rfl
      · cases h; exact hs.bookkeeping (.refl _) rfl .done
  | abort s b =>
    cases h
    exact hs.bookkeeping (.refl _) rfl (hs.consistent.mono rfl fun _ => rfl)
  | promote s =>
    simp only [FinalizePc.run] at h
    split at h <;> cases h
    · exact hs.bookkeeping (.refl _) rfl .done
    · exact hs.bookkeeping (.refl _) rfl (hs.consistent.mono rfl fun _ => rfl)
  | reconcile s =>
    simp only [FinalizePc.run] at h
    cases hT : w.tx (blobReconcileTx fa.checksum fa.sizeBytes (buildStorageKey fa.checksum)) with
    | mk r w1 =>
      rw [hT] at h
      rcases World.tx_cases hT with ⟨b, rfl, hb, -⟩ | ⟨e, rfl, -, rfl⟩
      · cases h
        rcases blobReconcileTx_ok hb with ⟨B, hB, hc, hn, rfl, hdb⟩ | ⟨rfl, hkey, hdb⟩
        · rw [hdb]
          exact hs.take rfl hB hc hn rfl fun _ => rfl
        · rw [hdb]
          exact hs.create rfl (fun _ hx => Db.nextRowId_ne hx) hkey rfl rfl rfl rfl fun _ => rfl
      · cases h; exact hs.bookkeeping (.refl _) rfl .done
  | insert s b =>
    simp only [FinalizePc.run] at h
    cases hT : w.tx (versionInsertTx fa s b) with
    | mk r w1 =>
      rw [hT] at h
      rcases World.tx_cases hT with ⟨v, rfl, hb, -⟩ | ⟨e, rfl, he, rfl⟩
      · cases h
        exact hs.spend rfl hb rfl .done
      · dsimp only at h
        split at h <;> cases h
        · exact hs.bookkeeping (.refl _) rfl (hs.consistent.mono rfl fun _ => rfl)
        · -- the insert can fail only on a unique constraint, which the compensation handles
          obtain ⟨B, hB, rfl⟩ := hs.row rfl
          have hint := versionInsertTx_error (hs.wf.packages_filter _ _)
            (by rw [hs.wf.getBlobById hB]; rfl) (hs.consistent.session rfl)
            (hs.wf.sessions_filter _ _) he
          exact absurd hint ‹_›
  | compensate b =>
    obtain ⟨B, hB, rfl⟩ := hs.row rfl
    obtain ⟨hc, hn⟩ := hs.consistent.blob _ rfl B hB rfl
    have hget := hs.wf.getBlobByChecksumAndSize hB
    rw [hc, hn] at hget
    obtain ⟨db', hT, he⟩ := compensateTx_run hget rfl (hs.wf.sessions_filter _ _)
    simp only [FinalizePc.run, World.tx, Db.atomically, hT] at h
    cases h
    exact hs.giveBack rfl hB rfl he rfl .done
  | done r =>
    cases h
    exact ⟨hs, .refl _ hs.wf⟩

end FinalizePc

/-! ### References held by calls -/

/-- What a call relies on in the database. -/
def Proc.Consistent (db : Db) (p : Proc) : Prop :=
  ∀ fa pc, p.finalizing = some (fa, pc) → pc.Consistent db fa

/-- The state of one call that the ledger proof carries, while the other calls
    hold references `R`. -/
structure Proc.Sound (R : Nat → Nat) (db : Db) (p : Proc) : Prop where
  wf : db.WF
  ledger : ∀ i, db.countOf i = db.refsTo i + heldOn p.pendingBlob i + R i
  consistent : p.Consistent db

namespace Proc

variable {R : Nat → Nat} {db db' : Db} {p p' : Proc}

theorem Sound.finalize (hs : p.Sound R db) {fa : FinalizeArgs} {pc : FinalizePc}
    (hf : p.finalizing = some (fa, pc)) : pc.Sound R db fa :=
  ⟨hs.wf, pendingBlob_of_finalizing hf ▸ hs.ledger, hs.consistent fa pc hf⟩

/-- A call between finalizations that commits at most a bookkeeping block. -/
theorem Sound.quiet (hs : p.Sound R db) (hb : db.Bookkeeping db') (h0 : p.finalizing = none)
    (h1 : ∀ fa pc, p'.finalizing = some (fa, pc) → pc = .lock) :
    p'.Sound R db' ∧ db.Keeps db' := by
  have hp' : p'.pendingBlob = none := by
    cases hf : p'.finalizing with
    | none => exact pendingBlob_of_not_finalizing hf
    | some f => rw [pendingBlob_of_finalizing hf, h1 _ _ hf]; rfl
  refine ⟨⟨hb.wf hs.wf, fun i => ?_, fun fa pc hf => ?_⟩, hb.keeps hs.wf⟩
  · rw [Db.countOf_congr hb.blobs, hb.refsTo hs.wf, hp', hs.ledger i,
      pendingBlob_of_not_finalizing h0]
  · rw [h1 _ _ hf]
    exact ⟨fun _ h => (by cases h), fun h => (by cases h)⟩

/-- A call in its finalization takes the finalization's step. -/
theorem Sound.step_finalize {svc : SoftwarePackageService} {w w' : World} {fa : FinalizeArgs}
    {pc pc' : FinalizePc} (hs : p.Sound R w.db) (hf : p.finalizing = some (fa, pc))
    (h : pc.step svc fa false w = (pc', w'))
    (h' : p'.pendingBlob = pc'.pendingBlob ∧ ∀ fa' pc'', p'.finalizing = some (fa', pc'') → fa' = fa ∧ pc'' = pc') :
    p'.Sound R w'.db ∧ w.db.Keeps w'.db := by
  rw [FinalizePc.step_false] at h
  obtain ⟨⟨hwf, hl, hc⟩, hk⟩ := FinalizePc.run_sound (hs.finalize hf) h
  refine ⟨⟨hwf, h'.1 ▸ hl, fun fa' pc'' hf' => ?_⟩, hk⟩
  obtain ⟨rfl, rfl⟩ := h'.2 fa' pc'' hf'
  exact hc

/-- **One step of any call**, with no fault, keeps its sound state whatever
    references the other calls hold. -/
theorem step_sound {svc : SoftwarePackageService} {w w' : World} (hs : p.Sound R w.db)
    (h : p.step svc false w = (p', w')) : p'.Sound R w'.db ∧ w.db.Keeps w'.db := by
  rcases step_cases h with ⟨h0, hb, h1⟩ | ⟨q, u, keys, h0, h1, hT⟩ | ⟨fa, pc, pc', hf, hpc, hp, hf'⟩
  · exact hs.quiet hb h0 h1
  · -- the deletion gives back the references of the versions it deletes
    obtain ⟨hwf, hk⟩ := deletePackageTx_wf hs.wf hT
    refine ⟨⟨hwf, fun i => ?_, fun _ _ h => by rw [h1] at h; cases h⟩, hk⟩
    obtain ⟨pkg, -, -, hdb, -⟩ := deletePackageTx_ok hT
    have hl : ∀ i, w.db.countOf i = w.db.refsTo i + R i := fun i => by
      simpa [pendingBlob_of_not_finalizing h0] using hs.ledger i
    rw [pendingBlob_of_not_finalizing h1, heldOn_none, Nat.add_zero, hdb,
      Db.countOf_deletePackage, Db.refsTo_deletePackage]
    exact deleteVersionsLoop_ledger _ _ [] hs.wf (List.filter_sublist _) hl i
  · exact hs.step_finalize hf hpc ⟨hp, hf'⟩

end Proc

/-! ### Every interleaving -/

/-- The references on blob `i` that the calls in progress hold. -/
def Sys.holds (s : Sys) (i : Nat) : Nat := s.procs.countP (·.pendingBlob = some i)

/-- The ledger invariant of the whole system. -/
structure Sys.LedgerInv (s : Sys) : Prop where
  wf : s.world.db.WF
  ledger : ∀ i, s.world.db.countOf i = s.world.db.refsTo i + s.holds i
  consistent : ∀ p ∈ s.procs, p.Consistent s.world.db

/-- Replacing one call in the list moves its reference and no other. -/
theorem countP_set_pendingBlob {l : List Proc} {pid : Nat} (hlt : pid < l.length) (p' : Proc)
    (i : Nat) : (l.set pid p').countP (·.pendingBlob = some i) + heldOn l[pid].pendingBlob i =
      l.countP (·.pendingBlob = some i) + heldOn p'.pendingBlob i := by
  have hle : heldOn l[pid].pendingBlob i ≤ l.countP (·.pendingBlob = some i) := by
    unfold heldOn
    split_ifs with h
    · exact List.countP_pos_iff.mpr ⟨_, List.getElem_mem hlt, by simp [h]⟩
    · exact Nat.zero_le _
  rw [List.countP_set _ _ _ _ hlt]
  simp only [heldOn, decide_eq_true_eq] at hle ⊢
  split_ifs at hle ⊢ <;> omega

namespace Sys

variable {svc : SoftwarePackageService} {s s' : Sys}

theorem heldOn_le_holds {p : Proc} (hp : p ∈ s.procs) (i : Nat) :
    heldOn p.pendingBlob i ≤ s.holds i := by
  unfold heldOn holds
  split_ifs with h
  · exact List.countP_pos_iff.mpr ⟨p, hp, by simp [h]⟩
  · exact Nat.zero_le _

/-- Each call sees the others' references as `R`. -/
theorem LedgerInv.sound (hi : s.LedgerInv) {p : Proc} (hp : p ∈ s.procs) :
    p.Sound (fun i => s.holds i - heldOn p.pendingBlob i) s.world.db :=
  ⟨hi.wf, fun i => by have := heldOn_le_holds hp i; rw [hi.ledger i]; omega, hi.consistent p hp⟩

theorem ledgerInv_empty : Sys.empty.LedgerInv :=
  ⟨Db.wf_empty, fun _ => rfl, fun _ h => by cases h⟩

theorem LedgerInv.next (hi : s.LedgerInv) {a : Action} (ha : a.fault = false)
    (h : s.next svc a = some s') : s'.LedgerInv := by
  cases a with
  | call c =>
    cases h
    have h0 : c.start.pendingBlob = none := by cases c <;> rfl
    refine ⟨hi.wf, fun i => ?_, fun p hp => ?_⟩
    · simp only [holds, List.countP_append, List.countP_cons, List.countP_nil, h0]
      exact hi.ledger i
    · rcases List.mem_append.mp hp with hp | hp
      · exact hi.consistent p hp
      · rw [List.mem_singleton.mp hp]
        intro fa pc hf
        cases c <;> cases hf
  | step pid fault =>
    obtain rfl : fault = false := ha
    simp only [Sys.next] at h
    cases hget : s.procs[pid]? with
    | none => rw [hget] at h; cases h
    | some p =>
      rw [hget] at h
      dsimp only at h
      split at h
      · cases h
      · cases hst : p.step svc false s.world with
        | mk p' w' =>
          rw [hst] at h
          cases h
          obtain ⟨hlt, rfl⟩ := List.getElem?_eq_some_iff.mp hget
          have hp := List.getElem_mem hlt
          obtain ⟨⟨hwf, hl, hc⟩, hk⟩ := Proc.step_sound (hi.sound hp) hst
          refine ⟨hwf, fun i => ?_, fun q hq => ?_⟩
          · have := countP_set_pendingBlob hlt p' i
            have := heldOn_le_holds hp i
            simp only [holds] at *
            rw [hl i]
            omega
          · rcases List.mem_or_eq_of_mem_set hq with hq | rfl
            · exact fun fa pc hf => FinalizePc.Sound.keep ((hi.sound hq).finalize hf) hk
            · exact hc

theorem ledgerInv_of_reachable (h : Reachable svc noFault s) : s.LedgerInv := by
  induction h with
  | empty => exact ledgerInv_empty
  | next _ ha hs ih => exact ih.next ha hs

end Sys

/-- **The blob ledger.** With no I/O fault, in every state that any
    interleaving of the service's calls reaches from the empty store, the
    reference count of each blob is the number of version rows bound to it plus
    the number of finalizations holding a reference on it, and every version row
    is bound to an existing blob. -/
theorem blob_ledger {svc : SoftwarePackageService} {s : Sys} (h : Reachable svc noFault s) :
    (∀ b ∈ s.world.db.blobs, b.referenceCount = s.world.db.refsTo b.id + s.holds b.id) ∧
      ∀ v ∈ s.world.db.versions, ∃ b ∈ s.world.db.blobs, b.id = v.blobId := by
  have hi := Sys.ledgerInv_of_reachable h
  refine ⟨fun b hb => hi.wf.countOf_of_mem hb ▸ hi.ledger b.id, fun v hv => ?_⟩
  have hpos : s.world.db.refsTo v.blobId ≠ 0 :=
    (List.countP_pos_iff.mpr ⟨v, hv, by simp⟩).ne'
  obtain ⟨B, hB⟩ := Db.exists_of_countOf_ne_zero (show s.world.db.countOf v.blobId ≠ 0 by
    rw [hi.ledger]; omega)
  exact ⟨B, Db.getBlobById_some hB⟩

/-- One payload uploaded by user 1, then the same payload uploaded by user 2 up
    to the step after its blob lookup: the second finalization holds a reference
    on the blob and has not inserted its version yet. -/
def dedupInFlight : List Action :=
  [.call (.uploadSingleRequest ⟨1, exampleForm "tool" "1.0", [[1, 2], [], [3]], "u1"⟩)] ++
    List.replicate 16 (.step 0 false) ++
  [.call (.uploadSingleRequest ⟨2, exampleForm "tool" "1.0", [[1, 2, 3]], "u2"⟩)] ++
    List.replicate 11 (.step 1 false)

theorem blob_ledger_dedup_in_flight :
    Reachable exampleService noFault (Sys.reachedBy exampleService noFault dedupInFlight) ∧
      (∀ b ∈ (Sys.reachedBy exampleService noFault dedupInFlight).world.db.blobs,
        b.referenceCount = (Sys.reachedBy exampleService noFault dedupInFlight).world.db.refsTo b.id +
          (Sys.reachedBy exampleService noFault dedupInFlight).holds b.id) ∧
      ∀ v ∈ (Sys.reachedBy exampleService noFault dedupInFlight).world.db.versions,
        ∃ b ∈ (Sys.reachedBy exampleService noFault dedupInFlight).world.db.blobs,
          b.id = v.blobId := by
  have h : Reachable exampleService noFault (Sys.reachedBy exampleService noFault dedupInFlight) :=
    .reachedBy (by decide)
  exact ⟨h, blob_ledger h⟩

example : (Sys.reachedBy exampleService noFault dedupInFlight).holds 1 = 1 := by decide

end TechPulse
