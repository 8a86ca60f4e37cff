import Mathlib.Data.List.Sort
import TechPulse.Accounts

/-!
# The project hub

`app/services/project_hub_service.py`, `app/repositories/project.py` and the
routes of `app/api/v1/projects.py`, with the keyset listing that
`ProjectRepo.list_visible_for_user` and `UserRepo.list_users` share.

A listing is `SELECT … WHERE id < cursor ORDER BY id DESC LIMIT limit`; under
the primary key the order is strict, so a page followed by the page after its
last id is the longer page (`keysetPage_append_next`): a client that passes the
last id back as the cursor neither skips a row nor sees one twice.

An upload writes its bytes to `UPLOAD_ROOT/projects/<uuid4 hex><suffix>` and then
inserts the row; the download route serves the file at the row's path. As long as
the calls draw distinct uuids, every row keeps the file its upload wrote and no
two rows share a file (`Intact`), so a download serves exactly the bytes the
project was uploaded with, to its owner or, for a public project, to anyone
(`download_serves_uploaded_file`). The path of the resolved `UPLOAD_ROOT/projects`
directory is the parameter `dir`.
-/

namespace TechPulse

/-! ### Keyset listings -/

section Keyset

variable {α : Type} (id : α → Nat) (keep : α → Bool)

/-- The rows a keyset listing orders before its `LIMIT`: those `keep` admits,
    below `cursor` when one is given, by id descending. -/
def keysetRows (rows : List α) (cursor : Option Nat) : List α :=
  (rows.filter fun r => keep r && cursor.all fun c => decide (id r < c)).insertionSort
    fun a b => id b ≤ id a

/-- One page: `… ORDER BY id DESC LIMIT limit`. -/
def keysetPage (rows : List α) (cursor : Option Nat) (limit : Nat) : List α :=
  (keysetRows id keep rows cursor).take limit

variable {id keep}

theorem mem_keysetRows {rows : List α} {cursor : Option Nat} {r : α} :
    r ∈ keysetRows id keep rows cursor ↔
      r ∈ rows ∧ keep r = true ∧ cursor.all (fun c => decide (id r < c)) = true := by
  simp [keysetRows, (List.perm_insertionSort _ _).mem_iff]

theorem cursor_all_of_lt {cursor : Option Nat} {a b : Nat} (hab : a < b)
    (hb : cursor.all (fun c => decide (b < c)) = true) : cursor.all (fun c => decide (a < c)) = true := by
  cases cursor with
  | none => rfl
  | some c => simp only [Option.all_some, decide_eq_true_eq] at hb ⊢; omega

/-- Under distinct ids the listing is strictly descending. -/
theorem keysetRows_desc {rows : List α} (hids : (rows.map id).Nodup) (cursor : Option Nat) :
    (keysetRows id keep rows cursor).Pairwise fun a b => id b < id a := by
  have : IsTotal α fun a b => id b ≤ id a := ⟨fun a b => le_total (id b) (id a)⟩
  have : IsTrans α fun a b => id b ≤ id a := ⟨fun _ _ _ h₁ h₂ => h₂.trans h₁⟩
  have hnd : ((keysetRows id keep rows cursor).map id).Nodup :=
    ((List.perm_insertionSort _ _).map id).nodup_iff.mpr (hids.sublist ((List.filter_sublist _).map id))
  exact ((List.sorted_insertionSort _ _).and (List.pairwise_map.mp hnd)).imp fun h =>
    lt_of_le_of_ne h.1 (Ne.symm h.2)

theorem length_keysetRows_le (rows : List α) (cursor : Option Nat) :
    (keysetRows id keep rows cursor).length ≤ rows.length := by
  rw [keysetRows, (List.perm_insertionSort _ _).length_eq]
  exact List.length_filter_le _ _

theorem nodup_of_desc {l : List α} (h : l.Pairwise fun a b => id b < id a) : l.Nodup :=
  h.imp fun hab e => by subst e; exact lt_irrefl _ hab

/-- The rows listed after `x` are the rows below `x`'s id. -/
theorem keysetRows_after {rows : List α} (hids : (rows.map id).Nodup) {cursor : Option Nat}
    {A B : List α} {x : α} (h : keysetRows id keep rows cursor = A ++ x :: B) :
    keysetRows id keep rows (some (id x)) = B := by
  have hdesc : (keysetRows id keep rows cursor).Pairwise fun a b => id b < id a := keysetRows_desc hids cursor
  rw [h, List.pairwise_append, List.pairwise_cons] at hdesc
  obtain ⟨-, ⟨hxB, hB⟩, hAx⟩ := hdesc
  have hx := (mem_keysetRows.mp (h ▸ List.mem_append_right A (List.mem_cons_self x B))).2.2
  have : IsAntisymm α fun a b => id b < id a := ⟨fun _ _ h₁ h₂ => absurd (h₁.trans h₂) (lt_irrefl _)⟩
  refine List.eq_of_perm_of_sorted ?_ (keysetRows_desc hids _) hB
  refine (List.perm_ext_iff_of_nodup (nodup_of_desc (keysetRows_desc hids _)) (nodup_of_desc hB)).mpr
    fun y => ⟨fun hy => ?_, fun hy => ?_⟩
  · obtain ⟨hrow, hk, hlt⟩ := mem_keysetRows.mp hy
    replace hlt : id y < id x := by simpa using hlt
    have hyS : y ∈ A ++ x :: B := h ▸ mem_keysetRows.mpr ⟨hrow, hk, cursor_all_of_lt hlt hx⟩
    rcases List.mem_append.mp hyS with hyA | hyB
    · exact absurd (hAx y hyA x (List.mem_cons_self x B)) (by omega)
    · rcases List.mem_cons.mp hyB with rfl | hyB
      · omega
      · exact hyB
  · obtain ⟨hrow, hk, -⟩ := mem_keysetRows.mp (h ▸ List.mem_append_right A (List.mem_cons_of_mem x hy))
    exact mem_keysetRows.mpr ⟨hrow, hk, by simpa using hxB y hy⟩

/-- **Keyset pages compose.** Under distinct ids, the page of `k` rows after
    `cursor`, followed by the page of `m` rows after that page's last id, is the
    page of `k + m` rows after `cursor`: following the cursor neither skips nor
    repeats a row. -/
theorem keysetPage_append_next {rows : List α} (hids : (rows.map id).Nodup) (cursor : Option Nat)
    (k m : Nat) {x : α} (hx : (keysetPage id keep rows cursor k).getLast? = some x) :
    keysetPage id keep rows cursor k ++ keysetPage id keep rows (some (id x)) m =
      keysetPage id keep rows cursor (k + m) := by
  unfold keysetPage at hx ⊢
  have hsplit : keysetRows id keep rows cursor =
      ((keysetRows id keep rows cursor).take k).dropLast ++ x :: (keysetRows id keep rows cursor).drop k := by
    conv_lhs => rw [← List.take_append_drop k (keysetRows id keep rows cursor),
      ← List.dropLast_append_getLast? x hx]
    simp
  rw [keysetRows_after hids hsplit, List.take_add]

/-- A table whose rows are their own keys: the page of one row after `none` and
    the page of two after its last id make the page of three. -/
theorem example_pages_compose :
    keysetPage (fun n : Nat => n) (fun _ => true) [3, 9, 4, 7] none 1 ++
        keysetPage (fun n : Nat => n) (fun _ => true) [3, 9, 4, 7] (some 9) 2 =
      keysetPage (fun n : Nat => n) (fun _ => true) [3, 9, 4, 7] none 3 :=
  keysetPage_append_next (by decide) none 1 2 (x := 9) (by decide)

end Keyset

/-- `UserRepo.list_users`: every user, by id descending. -/
def AccountDb.listUsers (db : AccountDb) (cursor : Option Nat) (limit : Nat) : List User :=
  keysetPage (·.id) (fun _ => true) db.users cursor limit

/-! ### Projects -/

/-- A `projects` row: the columns the service reads or writes (`created_at` and
    `updated_at` are set by the database and never read). -/
structure Project where
  id : Nat
  userId : Nat
  name : String
  description : String
  version : Option String
  fileName : String
  filePath : String
  fileSizeBytes : Nat
  downloadCount : Nat
  isPublic : Bool
deriving DecidableEq, Repr

/-- The `projects` table and the files under the projects directory, by path. -/
structure ProjectHub where
  projects : List Project
  files : String → Option Bytes

/-- The arguments of `create_project`, with the `uuid.uuid4().hex` the call draws. -/
structure ProjectUpload where
  userId : Nat
  name : String
  description : String
  version : Option String
  isPublic : Bool
  filename : String
  content : Bytes
  hex : String
deriving DecidableEq, Repr

namespace ProjectHubService

/-- `ProjectHubService.ALLOWED_EXTENSIONS`. -/
def ALLOWED_EXTENSIONS : List String :=
  [".zip", ".tar", ".gz", ".rar", ".7z", ".exe", ".msi", ".deb", ".rpm"]

/-- `ProjectHubService.MAX_FILE_SIZE`: 200 MiB. -/
def MAX_FILE_SIZE : Nat := 1024 * 1024 * 200

end ProjectHubService

/-- `Path.write_bytes` and `Path.unlink` on the file map. -/
def setFile (f : String → Option Bytes) (path : String) (v : Option Bytes) : String → Option Bytes :=
  fun q => if q = path then v else f q

@[simp] theorem setFile_same (f : String → Option Bytes) (path : String) (v : Option Bytes) :
    setFile f path v path = v := by simp [setFile]

@[simp] theorem setFile_other (f : String → Option Bytes) {path q : String} (v : Option Bytes)
    (h : q ≠ path) : setFile f path v q = f q := by simp [setFile, h]

namespace ProjectUpload

/-- `Path(filename).suffix.lower()`. -/
def suffix (up : ProjectUpload) : String := pyLower (pathSuffix up.filename)

/-- `str(projects_dir / f"{uuid.uuid4().hex}{suffix}")`. -/
def filePath (dir : String) (up : ProjectUpload) : String := dir ++ "/" ++ (up.hex ++ up.suffix)

/-- The row `create_project` inserts, under the id `id`. -/
def row (dir : String) (up : ProjectUpload) (id : Nat) : Project :=
  { id := id, userId := up.userId, name := pyStrip up.name, description := pyStrip up.description,
    version := up.version.bind fun v => if isBlank v then none else some (pyStrip v),
    fileName := up.filename, filePath := up.filePath dir, fileSizeBytes := up.content.length,
    downloadCount := 0, isPublic := up.isPublic }

/-- `p` is, but for its download count, the row the upload inserted. -/
def Made (dir : String) (up : ProjectUpload) (p : Project) : Prop :=
  { p with downloadCount := 0 } = up.row dir p.id

end ProjectUpload

namespace ProjectHub

/-- A hub with no project and no file. -/
def empty : ProjectHub := ⟨[], fun _ => none⟩

/-- `create_project`: the checks, in order, then the file write, then the insert. -/
def createProject (dir : String) (up : ProjectUpload) (hub : ProjectHub) :
    Except Err (Project × ProjectHub) :=
  if isBlank up.name ∨ isBlank up.description then
    throw (.validation "Project name and description are required")
  else if up.content.isEmpty then throw (.validation "Uploaded project file is empty")
  else if up.content.length > ProjectHubService.MAX_FILE_SIZE then
    throw (.validation "Project file is too large")
  else if up.suffix ∉ ProjectHubService.ALLOWED_EXTENSIONS then
    throw (.validation "Unsupported project file format")
  else
    let p := up.row dir (nextRowId (hub.projects.map (·.id)))
    pure (p, ⟨hub.projects ++ [p], setFile hub.files (up.filePath dir) (some up.content)⟩)

/-- `ProjectRepo.get_by_id`. -/
def getById (hub : ProjectHub) (projectId : Nat) : Option Project :=
  hub.projects.find? (·.id = projectId)

/-- The check `get_project_for_user` and `register_download` share. -/
def readable (userId : Nat) : Option Project → Except Err Project
  | none => throw (.notFound "Project not found")
  | some p =>
    if !p.isPublic ∧ p.userId ≠ userId then throw (.permission "You do not have access to this project")
    else pure p

/-- `get_project_for_user`. -/
def getProjectForUser (hub : ProjectHub) (userId projectId : Nat) : Except Err Project :=
  readable userId (hub.getById projectId)

/-- `ProjectRepo.list_visible_for_user`: public projects and the user's own. -/
def listVisibleForUser (hub : ProjectHub) (userId : Nat) (cursor : Option Nat) (limit : Nat) :
    List Project :=
  keysetPage (·.id) (fun p => p.isPublic || p.userId == userId) hub.projects cursor limit

/-- `ProjectRepo.increment_download_count`: `UPDATE … SET download_count = download_count + 1`. -/
def incrementDownloadCount (hub : ProjectHub) (projectId : Nat) : ProjectHub :=
  { hub with projects := hub.projects.map fun q =>
      if q.id = projectId then { q with downloadCount := q.downloadCount + 1 } else q }

/-- `register_download`: the row as loaded, and the committed increment. -/
def registerDownload (hub : ProjectHub) (userId projectId : Nat) : Except Err (Project × ProjectHub) := do
  let p ← readable userId (hub.getById projectId)
  pure (p, hub.incrementDownloadCount p.id)

/-- `delete_project`: the row is deleted and committed, then the file unlinked;
    `unlinkFails` is an `OSError` from `unlink`, which the service logs and
    swallows. -/
def deleteProject (hub : ProjectHub) (userId projectId : Nat) (unlinkFails : Bool) :
    Except Err ProjectHub :=
  match hub.getById projectId with
  | none => throw (.notFound "Project not found")
  | some p =>
    if p.userId ≠ userId then throw (.permission "Only the owner can delete this project")
    else
      let projects := hub.projects.filter (·.id ≠ p.id)
      pure ⟨projects, if p.filePath.isEmpty ∨ unlinkFails then hub.files else setFile hub.files p.filePath none⟩

end ProjectHub

/-- The routes of `app/api/v1/projects.py` that write. -/
inductive ProjectCall where
  | create (up : ProjectUpload)
  | download (userId projectId : Nat)
  | delete (userId projectId : Nat) (unlinkFails : Bool)
deriving DecidableEq, Repr

/-- What a route answers; `served` is the `FileResponse`, the row's `file_name`
    and the file's bytes. -/
inductive ProjectReply where
  | created (p : Project)
  | served (fileName : String) (content : Bytes)
  | deleted
deriving DecidableEq, Repr

/-- The uuid a call draws. -/
def ProjectCall.hex? : ProjectCall → Option String
  | .create up => some up.hex
  | _ => none

namespace ProjectHub

/-- One route. The download route streams the file after `register_download` has
    committed, so a missing file fails the response but keeps the increment. -/
def call (dir : String) (hub : ProjectHub) : ProjectCall → Except Err ProjectReply × ProjectHub
  | .create up =>
    match hub.createProject dir up with
    | .ok (p, hub') => (.ok (.created p), hub')
    | .error e => (.error e, hub)
  | .download userId projectId =>
    match hub.registerDownload userId projectId with
    | .ok (p, hub') =>
      match hub'.files p.filePath with
      | some bytes => (.ok (.served p.fileName bytes), hub')
      | none => (.error (.fileNotFound p.filePath), hub')
    | .error e => (.error e, hub)
  | .delete userId projectId unlinkFails =>
    match hub.deleteProject userId projectId unlinkFails with
    | .ok hub' => (.ok .deleted, hub')
    | .error e => (.error e, hub)

/-- The hub after a sequence of routes, from an empty one. -/
def run (dir : String) (calls : List ProjectCall) : ProjectHub :=
  calls.foldl (fun hub c => (hub.call dir c).2) empty

theorem run_snoc (dir : String) (calls : List ProjectCall) (c : ProjectCall) :
    run dir (calls ++ [c]) = ((run dir calls).call dir c).2 := by
  simp [run, List.foldl_append]

end ProjectHub

/-! ### The files every row keeps -/

namespace ProjectUpload

variable {dir : String} {up : ProjectUpload}

/-- Two uuids of one length name two files. -/
theorem hex_eq_of_filePath_eq {up' : ProjectUpload} (hlen : up.hex.length = up'.hex.length)
    (h : up.filePath dir = up'.filePath dir) : up.hex = up'.hex := by
  have h' := congrArg String.data h
  simp only [filePath, String.data_append, List.append_assoc, List.append_cancel_left_eq,
    List.singleton_append, List.cons.injEq, true_and] at h'
  exact String.ext (List.append_inj h' hlen).1

theorem Made.filePath {p : Project} (h : up.Made dir p) : p.filePath = up.filePath dir :=
  congrArg Project.filePath h

theorem Made.fileName {p : Project} (h : up.Made dir p) : p.fileName = up.filename :=
  congrArg Project.fileName h

theorem Made.access {p : Project} (h : up.Made dir p) : p.isPublic = up.isPublic ∧ p.userId = up.userId :=
  ⟨congrArg Project.isPublic h, congrArg Project.userId h⟩

/-- A download count is not part of what an upload made. -/
theorem made_downloadCount {p : Project} (n : Nat) :
    up.Made dir { p with downloadCount := n } ↔ up.Made dir p := Iff.rfl

theorem made_row (id : Nat) : up.Made dir (up.row dir id) := rfl

end ProjectUpload

namespace ProjectHub

variable {dir : String} {hub hub' : ProjectHub}

theorem createProject_ok {up : ProjectUpload} {p : Project}
    (h : hub.createProject dir up = .ok (p, hub')) :
    p = up.row dir (nextRowId (hub.projects.map (·.id))) ∧
      hub' = ⟨hub.projects ++ [p], setFile hub.files (up.filePath dir) (some up.content)⟩ := by
  unfold createProject at h
  split_ifs at h
  cases h
  exact ⟨rfl, rfl⟩

theorem getById_some {projectId : Nat} {p : Project} (h : hub.getById projectId = some p) :
    p ∈ hub.projects ∧ p.id = projectId :=
  ⟨List.mem_of_find?_eq_some h, by simpa using List.find?_some h⟩

theorem readable_ok {userId : Nat} {o : Option Project} {p : Project} (h : readable userId o = .ok p) :
    o = some p ∧ (p.isPublic = true ∨ p.userId = userId) := by
  cases o with
  | none => cases h
  | some q =>
    simp only [readable] at h
    split_ifs at h with hq
    cases h
    simp only [Bool.not_eq_true', ne_eq, not_and, Decidable.not_not] at hq
    exact ⟨rfl, (Bool.eq_false_or_eq_true p.isPublic).imp_right hq⟩

theorem registerDownload_ok {userId projectId : Nat} {p : Project}
    (h : hub.registerDownload userId projectId = .ok (p, hub')) :
    hub.getById projectId = some p ∧ (p.isPublic = true ∨ p.userId = userId) ∧
      hub' = hub.incrementDownloadCount p.id := by
  obtain ⟨q, hq, h⟩ := Except.bind_eq_ok h
  cases h
  exact ⟨(readable_ok hq).1, (readable_ok hq).2, rfl⟩

/-- A delete removes the owner's row and at most its file. -/
theorem deleteProject_ok {userId projectId : Nat} {unlinkFails : Bool}
    (h : hub.deleteProject userId projectId unlinkFails = .ok hub') :
    ∃ p, hub.getById projectId = some p ∧ p.userId = userId ∧
      hub'.projects = hub.projects.filter (·.id ≠ p.id) ∧
      ∀ path, path ≠ p.filePath → hub'.files path = hub.files path := by
  unfold deleteProject at h
  split at h
  · cases h
  · rename_i p hp
    split_ifs at h with hu <;> cases h <;> refine ⟨p, hp, not_not.mp hu, rfl, fun path hpath => ?_⟩
    · rfl
    · exact setFile_other _ _ hpath

/-- A download leaves every column but the download counts. -/
theorem incrementDownloadCount_projects (projectId : Nat) :
    (hub.incrementDownloadCount projectId).projects = hub.projects.map fun q =>
      if q.id = projectId then { q with downloadCount := q.downloadCount + 1 } else q := rfl

/-- What every run keeps: each row is the row a create call of the run inserted
    (but for its download count), its file holds that call's bytes, and no two
    rows share a file. -/
structure Intact (dir : String) (calls : List ProjectCall) (hub : ProjectHub) : Prop where
  made : ∀ p ∈ hub.projects, ∃ up, .create up ∈ calls ∧ up.Made dir p ∧ hub.files p.filePath = some up.content
  paths : (hub.projects.map (·.filePath)).Nodup

theorem Intact.mono {calls calls' : List ProjectCall} (hI : Intact dir calls hub) (hsub : calls ⊆ calls') :
    Intact dir calls' hub :=
  ⟨fun p hp => let ⟨up, hc, hm⟩ := hI.made p hp; ⟨up, hsub hc, hm⟩, hI.paths⟩

theorem Intact.create {calls : List ProjectCall} {up : ProjectUpload} {p : Project}
    (hI : Intact dir calls hub) (hfresh : ∀ q ∈ hub.projects, q.filePath ≠ up.filePath dir)
    (h : hub.createProject dir up = .ok (p, hub')) : Intact dir (calls ++ [.create up]) hub' := by
  obtain ⟨rfl, rfl⟩ := createProject_ok h
  refine ⟨fun q hq => ?_, ?_⟩
  · rcases List.mem_append.mp hq with hq | hq
    · obtain ⟨up', hc, hm, hf⟩ := hI.made q hq
      exact ⟨up', List.mem_append_left _ hc, hm, by simp only [setFile_other _ _ (hfresh q hq), hf]⟩
    · rw [List.mem_singleton.mp hq]
      exact ⟨up, List.mem_append_right _ (List.mem_singleton_self _), ProjectUpload.made_row _,
        setFile_same _ _ _⟩
  · rw [List.map_append, List.map_singleton, ← List.concat_eq_append]
    exact hI.paths.concat fun hq => by
      obtain ⟨q, hq, he⟩ := List.mem_map.mp hq
      exact hfresh q hq he

theorem Intact.incrementDownloadCount {calls : List ProjectCall} (hI : Intact dir calls hub)
    (projectId : Nat) : Intact dir calls (hub.incrementDownloadCount projectId) := by
  have hpath : ∀ q : Project, (if q.id = projectId then { q with downloadCount := q.downloadCount + 1 }
      else q).filePath = q.filePath := fun q => by split_ifs <;> rfl
  refine ⟨fun q hq => ?_, ?_⟩
  · rw [incrementDownloadCount_projects, List.mem_map] at hq
    obtain ⟨q, hq, rfl⟩ := hq
    obtain ⟨up, hc, hm, hf⟩ := hI.made q hq
    refine ⟨up, hc, ?_, by rw [hpath]; exact hf⟩
    split_ifs
    · exact (ProjectUpload.made_downloadCount _).mpr hm
    · exact hm
  · rw [incrementDownloadCount_projects, List.map_map]
    exact (List.map_congr_left fun q _ => hpath q).symm ▸ hI.paths

theorem Intact.delete {calls : List ProjectCall} {userId projectId : Nat} {unlinkFails : Bool}
    (hI : Intact dir calls hub) (h : hub.deleteProject userId projectId unlinkFails = .ok hub') :
    Intact dir calls hub' := by
  obtain ⟨p, hp, -, hrows, hfiles⟩ := deleteProject_ok h
  have hpm := (getById_some hp).1
  refine ⟨fun q hq => ?_, ?_⟩
  · rw [hrows, List.mem_filter] at hq
    obtain ⟨up, hc, hm, hf⟩ := hI.made q hq.1
    have hne : q.filePath ≠ p.filePath := fun e =>
      by simpa [List.inj_on_of_nodup_map hI.paths hq.1 hpm e] using hq.2
    exact ⟨up, hc, hm, by rw [hfiles _ hne, hf]⟩
  · rw [hrows]
    exact hI.paths.sublist ((List.filter_sublist _).map _)

/-- **One route keeps the files.** A route whose upload, if any, draws a path no
    row holds keeps `Intact`. -/
theorem Intact.call {calls : List ProjectCall} (hI : Intact dir calls hub) (c : ProjectCall)
    (hfresh : ∀ up, c = .create up → ∀ q ∈ hub.projects, q.filePath ≠ up.filePath dir) :
    Intact dir (calls ++ [c]) (hub.call dir c).2 := by
  have hI' := hI.mono (List.subset_append_left calls [c])
  cases c with
  | create up =>
    dsimp only [ProjectHub.call]
    split
    · exact hI.create (hfresh up rfl) ‹_›
    · exact hI'
  | download userId projectId =>
    dsimp only [ProjectHub.call]
    split
    · rename_i p hub'' h
      rw [(registerDownload_ok h).2.2]
      split <;> exact hI'.incrementDownloadCount p.id
    · exact hI'
  | delete userId projectId unlinkFails =>
    dsimp only [ProjectHub.call]
    split
    · exact hI'.delete ‹_›
    · exact hI'

/-- Under distinct uuids of 32 characters, every run keeps `Intact`. -/
theorem intact_run (dir : String) (calls : List ProjectCall)
    (hfresh : (calls.filterMap ProjectCall.hex?).Nodup)
    (hlen : ∀ h ∈ calls.filterMap ProjectCall.hex?, h.length = 32) : Intact dir calls (run dir calls) := by
  induction calls using List.reverseRecOn with
  | nil => exact ⟨fun _ hp => absurd hp (List.not_mem_nil _), List.nodup_nil⟩
  | append_singleton calls c ih =>
    rw [List.filterMap_append] at hfresh hlen
    rw [List.nodup_append] at hfresh
    have hI := ih hfresh.1 fun h hh => hlen h (List.mem_append_left _ hh)
    rw [run_snoc]
    refine hI.call c fun up hc q hq he => ?_
    subst hc
    obtain ⟨up', hc', hm, -⟩ := hI.made q hq
    have hin : up'.hex ∈ calls.filterMap ProjectCall.hex? := List.mem_filterMap.mpr ⟨_, hc', rfl⟩
    have hup : up.hex ∈ [ProjectCall.create up].filterMap ProjectCall.hex? := by simp [ProjectCall.hex?]
    have hl : up'.hex.length = up.hex.length := by
      rw [hlen _ (List.mem_append_left _ hin), hlen _ (List.mem_append_right _ hup)]
    have heq : up'.hex = up.hex := ProjectUpload.hex_eq_of_filePath_eq hl (hm.filePath ▸ he)
    exact hfresh.2.2 hin (heq ▸ hup)

/-- A successful download serves the row's file, under the row's file name, to
    its owner or, if it is public, to anyone. -/
theorem call_download_served {userId projectId : Nat} {fileName : String} {content : Bytes}
    (h : (hub.call dir (.download userId projectId)).1 = .ok (.served fileName content)) :
    ∃ p, hub.getById projectId = some p ∧ (p.isPublic = true ∨ p.userId = userId) ∧
      fileName = p.fileName ∧ hub.files p.filePath = some content := by
  dsimp only [ProjectHub.call] at h
  split at h
  · rename_i p hub'' hd
    obtain ⟨hg, hacc, rfl⟩ := registerDownload_ok hd
    split at h
    · rename_i bytes hb
      cases h
      exact ⟨p, hg, hacc, rfl, hb⟩
    · cases h
  · cases h

/-- **A download serves what was uploaded.** After any run whose uploads draw
    distinct uuids, a successful download of a project serves exactly the bytes
    and the file name of the upload that created the row under that id, and only
    to its owner, unless the project is public. -/
theorem download_serves_uploaded_file (dir : String) (calls : List ProjectCall)
    (hfresh : (calls.filterMap ProjectCall.hex?).Nodup)
    (hlen : ∀ h ∈ calls.filterMap ProjectCall.hex?, h.length = 32)
    {userId projectId : Nat} {fileName : String} {content : Bytes}
    (hok : ((run dir calls).call dir (.download userId projectId)).1 = .ok (.served fileName content)) :
    ∃ up, .create up ∈ calls ∧ fileName = up.filename ∧ content = up.content ∧
      (up.isPublic = true ∨ up.userId = userId) ∧
      ∃ p ∈ (run dir calls).projects, p.id = projectId ∧ up.Made dir p := by
  obtain ⟨p, hg, hacc, rfl, hf⟩ := call_download_served hok
  obtain ⟨hp, hid⟩ := getById_some hg
  obtain ⟨up, hc, hm, hf'⟩ := (intact_run dir calls hfresh hlen).made p hp
  refine ⟨up, hc, hm.fileName, Option.some.inj (hf.symm.trans hf'), ?_, p, hp, hid, hm⟩
  rw [← hm.access.1, ← hm.access.2]
  exact hacc

end ProjectHub

/-! ### Three uploads and a delete -/

/-- The resolved projects directory of the examples. -/
def exampleProjectDir : String := "/srv/storage/projects"

/-- A private upload of owner 1, with a uuid of 32 characters. -/
def exampleToolUpload : ProjectUpload :=
  ⟨1, "Tool", "A tool", none, false, "tool.zip", [1, 2, 3], "0123456789abcdef0123456789abcdef"⟩

/-- Two public uploads of owner 2, then owner 2 deletes the second. -/
def exampleProjectCalls : List ProjectCall :=
  [.create exampleToolUpload,
   .create ⟨2, "App", " An app ", some "1.0", true, "app.tar.gz", [4, 5], "fedcba9876543210fedcba9876543210"⟩,
   .create ⟨2, "Old", "Old app", none, true, "old.7z", [6], "00112233445566778899aabbccddeeff"⟩,
   .delete 2 3 false]

namespace ProjectHub

variable {hub : ProjectHub}

theorem getById_of_mem (hids : (hub.projects.map (·.id)).Nodup) {p : Project} (hp : p ∈ hub.projects) :
    hub.getById p.id = some p := by
  rw [getById, ← List.filter_head?, AccountDb.filter_key_eq_singleton hids hp]
  rfl

/-- **The listing shows what the detail route opens.** Under the primary key, a
    project is on some page of a user's listing exactly when
    `get_project_for_user` lets that user open it: the query's
    `is_public OR user_id = :user` and the service's
    `not is_public and user_id != user` refusal are complements. -/
theorem listed_iff_readable (hids : (hub.projects.map (·.id)).Nodup) (userId : Nat) {p : Project}
    (hp : p ∈ hub.projects) :
    (∃ cursor limit, p ∈ hub.listVisibleForUser userId cursor limit) ↔
      hub.getProjectForUser userId p.id = .ok p := by
  have hvis : (p.isPublic || p.userId == userId) = true ↔ ¬((!p.isPublic) = true ∧ p.userId ≠ userId) := by
    cases p.isPublic <;> simp
  simp only [getProjectForUser, getById_of_mem hids hp, readable]
  constructor
  · rintro ⟨cursor, limit, h⟩
    rw [if_neg (hvis.mp (mem_keysetRows.mp (List.mem_of_mem_take h)).2.1)]
    rfl
  · intro h
    refine ⟨none, hub.projects.length, ?_⟩
    rw [listVisibleForUser, keysetPage, List.take_of_length_le (length_keysetRows_le _ _)]
    split_ifs at h with hc
    exact mem_keysetRows.mpr ⟨hp, hvis.mpr hc, rfl⟩

/-- Owner 2 neither sees owner 1's private project listed nor opens it. -/
theorem example_private_project_hidden :
    ¬(∃ cursor limit, exampleToolUpload.row exampleProjectDir 1 ∈
        (run exampleProjectDir exampleProjectCalls).listVisibleForUser 2 cursor limit) ∧
      ((run exampleProjectDir exampleProjectCalls).projects.map (·.id)).Nodup :=
  ⟨fun h => (nomatch (listed_iff_readable (by decide) 2 (by decide)).mp h), by decide⟩


/-- Owner 1 downloads their project after the delete: they get the bytes and the
    file name they uploaded. -/
theorem example_download_serves_upload :
    ∃ up, ProjectCall.create up ∈ exampleProjectCalls ∧ "tool.zip" = up.filename ∧ [1, 2, 3] = up.content ∧
      (up.isPublic = true ∨ up.userId = 1) ∧
      ∃ p ∈ (run exampleProjectDir exampleProjectCalls).projects, p.id = 1 ∧ up.Made exampleProjectDir p :=
  download_serves_uploaded_file exampleProjectDir exampleProjectCalls (by decide) (by decide)
    (show ((run exampleProjectDir exampleProjectCalls).call exampleProjectDir (.download 1 1)).1 =
      .ok (.served "tool.zip" [1, 2, 3]) from rfl)

end ProjectHub

end TechPulse
