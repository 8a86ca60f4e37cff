import TechPulse.Domain

/-!
# The local filesystem storage backend

`app/infrastructure/storage/local_fs.py`. The temp namespace (`tmp/<id>.part`)
and the permanent namespace (`objects/<key>`) are two maps from names to inodes,
and an inode holds bytes, as on a POSIX filesystem: a read handle keeps reading
the inode it opened after the path is renamed or unlinked, `open("ab")` and
`open("wb")` create a missing file, and `replace` moves the inode. Each method
is one atomic step, as the backend runs it in one worker-thread call.
-/

namespace TechPulse

/-- `Function.update` for the name maps, written with a plain `if` so that it
    reduces in the kernel. -/
def setName (f : String → Option Nat) (k : String) (v : Option Nat) : String → Option Nat :=
  fun k' => if k' = k then v else f k'

/-- `Function.update` for inode contents. -/
def setInode (f : Nat → Bytes) (i : Nat) (v : Bytes) : Nat → Bytes :=
  fun i' => if i' = i then v else f i'

@[simp] theorem setName_same (f : String → Option Nat) (k : String) (v : Option Nat) :
    setName f k v k = v := by simp [setName]

@[simp] theorem setName_other (f : String → Option Nat) {k k' : String} (v : Option Nat)
    (h : k' ≠ k) : setName f k v k' = f k' := by simp [setName, h]

@[simp] theorem setInode_same (f : Nat → Bytes) (i : Nat) (v : Bytes) :
    setInode f i v i = v := by simp [setInode]

@[simp] theorem setInode_other (f : Nat → Bytes) {i i' : Nat} (v : Bytes) (h : i' ≠ i) :
    setInode f i v i' = f i' := by simp [setInode, h]

/-- The backend's files. `nextInode` is the next free inode number. -/
structure Storage where
  temp : String → Option Nat
  objects : String → Option Nat
  inodes : Nat → Bytes
  nextInode : Nat

namespace Storage

/-- A backend with no file in either namespace. -/
def empty : Storage := ⟨fun _ => none, fun _ => none, fun _ => [], 0⟩

/-- The bytes of `tmp/<uploadId>.part`, if the file exists. -/
def tempContent (s : Storage) (uploadId : String) : Option Bytes :=
  (s.temp uploadId).map s.inodes

/-- The bytes of `objects/<storageKey>`, if the file exists. -/
def objectContent (s : Storage) (storageKey : String) : Option Bytes :=
  (s.objects storageKey).map s.inodes

/-- Create `tmp/<uploadId>.part` as a new inode holding `data`. -/
def createTemp (s : Storage) (uploadId : String) (data : Bytes) : Storage :=
  { s with temp := setName s.temp uploadId (some s.nextInode),
           inodes := setInode s.inodes s.nextInode data,
           nextInode := s.nextInode + 1 }

/-- `init_upload`: `open("wb")` truncates the file, or creates it. -/
def initUpload (s : Storage) (uploadId : String) : Storage :=
  match s.temp uploadId with
  | some i => { s with inodes := setInode s.inodes i [] }
  | none => s.createTemp uploadId []

/-- `append_upload_chunk`: `open("ab")` appends to the file, or creates it. -/
def appendUploadChunk (s : Storage) (uploadId : String) (chunk : Bytes) : Storage :=
  match s.temp uploadId with
  | some i => { s with inodes := setInode s.inodes i (s.inodes i ++ chunk) }
  | none => s.createTemp uploadId chunk

/-- `get_upload_size`: the file's length, `0` when it does not exist. -/
def getUploadSize (s : Storage) (uploadId : String) : Nat :=
  match s.temp uploadId with
  | some i => (s.inodes i).length
  | none => 0

/-- `abort_upload`: `unlink(missing_ok=True)`. -/
def abortUpload (s : Storage) (uploadId : String) : Storage :=
  { s with temp := setName s.temp uploadId none }

/-- `_object_path`: a key that is absolute or has a `..` component is refused. -/
def objectPath (storageKey : String) : Except Err Unit :=
  if storageKey.data.head? = some '/' ∨ ['.', '.'] ∈ storageKey.data.splitOn '/' then
    throw (.valueError "Invalid storage key")
  else pure ()

/-- `promote_upload`: `true` when the temp file became the object, `false` when
    the object already existed and the temp file was discarded. -/
def promoteUpload (s : Storage) (uploadId storageKey : String) : Except Err (Bool × Storage) := do
  objectPath storageKey
  let some i := s.temp uploadId | throw (.fileNotFound uploadId)
  match s.objects storageKey with
  | some _ => return (false, s.abortUpload uploadId)
  | none =>
    return (true, { s with objects := setName s.objects storageKey (some i),
                           temp := setName s.temp uploadId none })

/-- `delete_object`: `unlink(missing_ok=True)` on a checked key. -/
def deleteObject (s : Storage) (storageKey : String) : Except Err Storage := do
  objectPath storageKey
  return { s with objects := setName s.objects storageKey none }

/-- `path.open("rb")` in `stream_upload`: the inode of the temp file. -/
def openUpload (s : Storage) (uploadId : String) : Except Err Nat :=
  match s.temp uploadId with
  | some i => pure i
  | none => throw (.fileNotFound uploadId)

/-- `path.open("rb")` in `stream_object`, after the key check. -/
def openObject (s : Storage) (storageKey : String) : Except Err Nat := do
  objectPath storageKey
  match s.objects storageKey with
  | some i => pure i
  | none => throw (.fileNotFound storageKey)

/-! ### What the methods do to the temp file -/

@[simp] theorem tempContent_initUpload (s : Storage) (u : String) :
    (s.initUpload u).tempContent u = some [] := by
  unfold initUpload
  split <;> simp [tempContent, createTemp, *]

theorem tempContent_appendUploadChunk {s : Storage} {u : String} {T : Bytes}
    (h : s.tempContent u = some T) (c : Bytes) :
    (s.appendUploadChunk u c).tempContent u = some (T ++ c) := by
  unfold tempContent at h
  unfold appendUploadChunk
  cases hu : s.temp u with
  | none => rw [hu] at h; cases h
  | some i => rw [hu] at h; cases h; simp [tempContent, hu]

end Storage

/-! ### The read loop of `stream_upload` and `stream_object` -/

/-- An open read handle of the loop: the inode, the file position, and the
    `remaining` counter (`None` when no end was given). -/
structure ReadCursor where
  inode : Nat
  pos : Nat
  remaining : Option Int
deriving DecidableEq, Repr

/-- The handle after `seek(start)`, with `remaining = end - start + 1`. -/
def ReadCursor.start (inode start : Nat) (stop : Option Int) : ReadCursor :=
  ⟨inode, start, stop.map fun e => e - start + 1⟩

/-- One turn of the `while True` loop: the chunk it yields and the handle after
    it, or `none` when the loop breaks (`to_read <= 0`, or `read` hit the end). -/
def Storage.readNext (s : Storage) (chunkSize : Nat) (c : ReadCursor) :
    Option (Bytes × ReadCursor) :=
  let toRead : Int := match c.remaining with
    | none => chunkSize
    | some r => min chunkSize r
  if toRead ≤ 0 then none
  else
    let data := ((s.inodes c.inode).drop c.pos).take toRead.toNat
    if data.isEmpty then none
    else some (data, { c with pos := c.pos + data.length,
                              remaining := c.remaining.map fun r => r - data.length })

/-- The `while True` loop run for at most `fuel` turns: the chunks it yields, or
    `none` when it has not broken by then. -/
def Storage.readLoop (s : Storage) (chunkSize : Nat) : Nat → ReadCursor → Option (List Bytes)
  | 0, _ => none
  | fuel + 1, c =>
    match s.readNext chunkSize c with
    | none => some []
    | some (data, c') => (s.readLoop chunkSize fuel c').map (data :: ·)

/-- `stream_upload(upload_id, start=start, end=stop, chunk_size=chunkSize)`, its loop
    run for at most `fuel` turns. -/
def Storage.streamUpload (s : Storage) (uploadId : String) (start : Nat) (stop : Option Int)
    (chunkSize fuel : Nat) : Except Err (Option (List Bytes)) := do
  let i ← s.openUpload uploadId
  return s.readLoop chunkSize fuel (.start i start stop)

/-- `stream_object(storage_key, start=start, end=stop, chunk_size=chunkSize)`. -/
def Storage.streamObject (s : Storage) (storageKey : String) (start : Nat) (stop : Option Int)
    (chunkSize fuel : Nat) : Except Err (Option (List Bytes)) := do
  let i ← s.openObject storageKey
  return s.readLoop chunkSize fuel (.start i start stop)

/-! ### The loop yields the requested bytes, and breaks

The loop's state is the handle; what it has still to yield from there is
`ReadCursor.pending`: the bytes after the position, cut at the `remaining`
counter. Each turn yields a non-empty prefix of it of at most `chunk_size` bytes
and moves the position past it (`readNext_pending`); a turn that breaks has
nothing left to yield (`readNext_none_pending`). The loop therefore yields all of
it, and the position bounds the turns. -/

/-- What the loop still has to yield from `c` over a file holding `f`. -/
def ReadCursor.pending (c : ReadCursor) (f : Bytes) : Bytes :=
  match c.remaining with
  | none => f.drop c.pos
  | some r => (f.drop c.pos).take r.toNat

/-- The bytes of `f` at the positions `i` with `start ≤ i` and, when an end is
    given, `i ≤ end`. -/
def bytesInRange (f : Bytes) (start : Nat) (stop : Option Int) : Bytes :=
  (f.enum.filter fun p => decide (start ≤ p.1) && stop.all fun e => decide ((p.1 : Int) ≤ e)).map
    Prod.snd

theorem enumFrom_filter_ge (f : Bytes) (k start : Nat) :
    (f.enumFrom k).filter (fun p => decide (start ≤ p.1)) =
      (f.drop (start - k)).enumFrom (max start k) := by
  induction f generalizing k with
  | nil => simp
  | cons x f ih =>
    rcases Nat.lt_or_ge k start with hk | hk
    · have ih' := ih (k + 1)
      rw [Nat.max_eq_left (Nat.succ_le_of_lt hk)] at ih'
      rw [show start - k = (start - (k + 1)) + 1 by omega, Nat.max_eq_left hk.le]
      simp [List.enumFrom_cons, List.filter_cons, Nat.not_le.mpr hk, ih']
    · rw [show start - k = 0 by omega, Nat.max_eq_right hk]
      simp [List.enumFrom_cons, List.filter_cons, hk, ih,
        show start - (k + 1) = 0 by omega, Nat.max_eq_right (Nat.le_succ_of_le hk)]

theorem enumFrom_filter_le (g : Bytes) (j : Nat) (e : Int) :
    ((g.enumFrom j).filter fun p => decide ((p.1 : Int) ≤ e)).map Prod.snd =
      g.take (e + 1 - j).toNat := by
  induction g generalizing j with
  | nil => simp
  | cons x g ih =>
    by_cases hj : (j : Int) ≤ e
    · rw [show (e + 1 - j).toNat = (e + 1 - ↑(j + 1)).toNat + 1 by omega]
      simp [List.enumFrom_cons, List.filter_cons, hj, ih]
    · rw [show (e + 1 - j).toNat = 0 by omega]
      simp only [List.enumFrom_cons, List.filter_cons, hj, decide_False, Bool.false_eq_true,
        if_false, ih, List.take_zero,
        show (e + 1 - ↑(j + 1)).toNat = 0 by omega]

/-- The requested bytes are what the loop has to yield from the handle after
    `seek(start)`. -/
theorem bytesInRange_eq_pending (f : Bytes) (i start : Nat) (stop : Option Int) :
    bytesInRange f start stop = (ReadCursor.start i start stop).pending f := by
  have hand : (fun p : Nat × UInt8 => decide (start ≤ p.1) && stop.all fun e => decide ((p.1 : Int) ≤ e)) =
      fun p => (stop.all fun e => decide ((p.1 : Int) ≤ e)) && decide (start ≤ p.1) :=
    funext fun _ => Bool.and_comm _ _
  rw [bytesInRange, List.enum, hand, ← List.filter_filter, enumFrom_filter_ge]
  cases stop with
  | none => simp [ReadCursor.pending, ReadCursor.start]
  | some e =>
    simp only [Option.all_some, enumFrom_filter_le, ReadCursor.pending, ReadCursor.start,
      Option.map_some', Nat.max_zero, Nat.sub_zero]
    congr 2
    omega

/-- One turn that yields: a non-empty chunk of at most `chunkSize` bytes, the
    head of what is pending, with the position moved past it and still within the
    file. -/
theorem Storage.readNext_pending {s : Storage} {n : Nat} {c c' : ReadCursor} {data : Bytes}
    (h : s.readNext n c = some (data, c')) :
    data ≠ [] ∧ data.length ≤ n ∧ c'.inode = c.inode ∧ c'.pos = c.pos + data.length ∧
      c'.pos ≤ (s.inodes c.inode).length ∧
      c.pending (s.inodes c.inode) = data ++ c'.pending (s.inodes c.inode) := by
  obtain ⟨i, pos, rem⟩ := c
  simp only [Storage.readNext] at h
  split_ifs at h with h1 h2
  cases h
  generalize ht : (match rem with | none => (n : Int) | some r => min (↑n) r) = t at h1 h2 ⊢
  have hpre := List.take_prefix t.toNat ((s.inodes i).drop pos)
  have hlen := List.length_take_le t.toNat ((s.inodes i).drop pos)
  have hin := List.length_take_le' t.toNat ((s.inodes i).drop pos)
  have hne : ((s.inodes i).drop pos).take t.toNat ≠ [] := by simpa using h2
  have hpos := List.length_pos.mpr hne
  generalize ((s.inodes i).drop pos).take t.toNat = data at *
  have htn : t.toNat ≤ n := by cases rem <;> simp only at ht <;> omega
  simp only [List.length_drop] at hin
  refine ⟨hne, by omega, rfl, rfl, by dsimp only; omega, ?_⟩
  cases rem with
  | none =>
    simpa [ReadCursor.pending, ← List.drop_drop] using (List.prefix_iff_eq_append.mp hpre).symm
  | some r =>
    simp only at ht
    simp only [ReadCursor.pending, Option.map_some', ← List.drop_drop]
    rw [show r.toNat = data.length + (r - data.length).toNat by omega, List.take_add,
      ← List.prefix_iff_eq_take.mp hpre]

/-- A turn that breaks, with a positive chunk size, has nothing left to yield. -/
theorem Storage.readNext_none_pending {s : Storage} {n : Nat} {c : ReadCursor} (hn : 0 < n)
    (h : s.readNext n c = none) : c.pending (s.inodes c.inode) = [] := by
  simp only [Storage.readNext] at h
  split_ifs at h with h1 h2
  · rcases hr : c.remaining with _ | r
    · simp only [hr] at h1; omega
    · simp only [hr] at h1
      simp [ReadCursor.pending, hr, show r.toNat = 0 by omega]
  · rcases hr : c.remaining with _ | r <;>
      simp only [hr, List.isEmpty_iff, List.take_eq_nil_iff] at h2 h1 <;>
      rcases h2 with h2 | h2 <;> first | omega | simp [ReadCursor.pending, hr, h2]

/-- The loop run with more turns than bytes are left after the position: it
    breaks, and it has yielded what was pending, in non-empty chunks of at most
    `n` bytes. -/
theorem Storage.readLoop_pending {s : Storage} {n : Nat} (hn : 0 < n) :
    ∀ fuel (c : ReadCursor), (s.inodes c.inode).length - c.pos < fuel →
      ∃ chunks, s.readLoop n fuel c = some chunks ∧ (∀ x ∈ chunks, x ≠ [] ∧ x.length ≤ n) ∧
        chunks.flatten = c.pending (s.inodes c.inode)
  | 0, _, hf => absurd hf (Nat.not_lt_zero _)
  | fuel + 1, c, hf => by
    cases h : s.readNext n c with
    | none =>
      exact ⟨[], by simp [Storage.readLoop, h], by simp, (readNext_none_pending hn h).symm⟩
    | some p =>
      obtain ⟨data, c'⟩ := p
      obtain ⟨hne, hle, hi, hpos, hin, hp⟩ := readNext_pending h
      have hlen : 0 < data.length := List.length_pos.mpr hne
      obtain ⟨chunks, hrun, hch, hflat⟩ :=
        @readLoop_pending s n hn fuel c' (by rw [hi, hpos]; omega)
      refine ⟨data :: chunks, by simp [Storage.readLoop, h, hrun], ?_, ?_⟩
      · rintro x (_ | ⟨_, hx⟩)
        exacts [⟨hne, hle⟩, hch x hx]
      · rw [List.flatten_cons, hflat, hi, hp]

/-- More turns do not change a loop that has broken. -/
theorem Storage.readLoop_more_fuel {s : Storage} {n : Nat} :
    ∀ {fuel fuel' : Nat} {c : ReadCursor} {chunks : List Bytes}, fuel ≤ fuel' →
      s.readLoop n fuel c = some chunks → s.readLoop n fuel' c = some chunks
  | 0, _, _, _, _, h => by cases h
  | _ + 1, 0, _, _, hle, _ => absurd hle (by omega)
  | fuel + 1, fuel' + 1, c, chunks, hle, h => by
    cases hr : s.readNext n c with
    | none => simpa [Storage.readLoop, hr] using h
    | some p =>
      simp only [Storage.readLoop, hr] at h ⊢
      obtain ⟨rest, hrest, rfl⟩ := Option.map_eq_some'.mp h
      rw [readLoop_more_fuel (Nat.le_of_succ_le_succ hle) hrest]
      rfl

/-- **The read loop is bounded.** From the handle of `stream_upload` or
    `stream_object` after `seek(start)`, over a file holding `f`, with any end and
    any positive chunk size, the loop breaks within `|f| + 1` turns; every chunk
    it yields is non-empty and at most `n` bytes long, and the chunks are the
    bytes of `f` from `start` up to the end. -/
theorem read_loop_terminates (s : Storage) (i start : Nat) (stop : Option Int) {n : Nat}
    (hn : 0 < n) :
    ∃ chunks, (∀ fuel, (s.inodes i).length < fuel →
        s.readLoop n fuel (.start i start stop) = some chunks) ∧
      (∀ x ∈ chunks, x ≠ [] ∧ x.length ≤ n) ∧
      chunks.flatten = bytesInRange (s.inodes i) start stop := by
  obtain ⟨chunks, hrun, hch, hflat⟩ :=
    @Storage.readLoop_pending s n hn ((s.inodes i).length + 1) (.start i start stop)
      (by simp only [ReadCursor.start]; omega)
  refine ⟨chunks, fun fuel hf => Storage.readLoop_more_fuel hf hrun, hch, ?_⟩
  rw [hflat, bytesInRange_eq_pending _ i]
  rfl

theorem read_loop_terminates_three_bytes :
    0 < 2 ∧ ∃ chunks, (∀ fuel, ((Storage.empty.createTemp "u" [1, 2, 3]).inodes 0).length < fuel →
        (Storage.empty.createTemp "u" [1, 2, 3]).readLoop 2 fuel (.start 0 1 none) = some chunks) ∧
      (∀ x ∈ chunks, x ≠ [] ∧ x.length ≤ 2) ∧
      chunks.flatten = bytesInRange ((Storage.empty.createTemp "u" [1, 2, 3]).inodes 0) 1 none :=
  ⟨by decide, read_loop_terminates _ 0 1 none (by decide)⟩

example : bytesInRange [1, 2, 3, 4, 5] 1 (some 3) = [2, 3, 4] := by decide

end TechPulse
