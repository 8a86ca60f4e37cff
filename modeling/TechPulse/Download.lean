import TechPulse.PyInt
import TechPulse.Transactions

/-!
# Ranged downloads

`_parse_range` and `download_software_package` (`app/api/v1/software_packages.py`,
lines 48–76 and 256–316). The route asks `get_download_ticket` for the version's
storage key and size (`TicketPc`), parses the `Range` header against the size,
and answers 416 with the parser's `ValueError` message, or a `StreamingResponse`
whose body runs `stream_object` over the range it chose.

`_parse_range` is modelled on the header's code points (`List Char`), with the
string methods and `int()` of `TechPulse.PyInt`; `rangeOfParts` is its tail, from
the `try` block on. The results:

* `parseRange_ok_some`: every range it returns lies within the file;
* `parseRange_header`: on a header of the grammar `bytes=a-b`, `bytes=a-`,
  `bytes=-k` it runs `rangeOfParts` on the numerals, and `rangeOfParts_spec`
  evaluates that while the numerals are within `int()`'s digit limit;
* `StreamingResponse.streams`: the body is the bytes of the range.
-/

namespace TechPulse

/-! ### String methods -/

/-- `str.removeprefix(prefix)`. -/
def pyRemovePrefix (pre s : List Char) : List Char :=
  if pre.isPrefixOf s then s.drop pre.length else s

/-- `str.partition(sep)` for a one-character separator: the text before its first
    occurrence, the separator, and the text after; `(s, "", "")` without one. -/
def pyPartition (sep : Char) (s : List Char) : List Char × List Char × List Char :=
  match s.dropWhile (· != sep) with
  | _ :: after => (s.takeWhile (· != sep), [sep], after)
  | [] => (s, [], [])

/-! ### `_parse_range` -/

/-- `_parse_range` from its `try` block on, for the text before and after the
    `-`: the inclusive range, or the message of the `ValueError`. A `ValueError`
    inside the `try` (from `int()`, or the suffix check's own) becomes
    "Invalid Range header". -/
def rangeOfParts (startS endS : List Char) (totalSize : Int) :
    Except String (Option (Int × Int)) :=
  let parsed : Option (Int × Int) :=
    if !startS.isEmpty then do
      let start ← pyInt startS
      let stop ← if !endS.isEmpty then pyInt endS else some (totalSize - 1)
      some (start, stop)
    else do
      let tail ← pyInt endS
      if tail ≤ 0 then none else some (max 0 (totalSize - tail), totalSize - 1)
  match parsed with
  | none => .error "Invalid Range header"
  | some (start, stop) =>
    if start < 0 ∨ stop < start ∨ start ≥ totalSize then
      .error "Requested range is not satisfiable"
    else .ok (some (start, min stop (totalSize - 1)))

/-- `_parse_range(range_header, total_size)`: `none` without a header, the
    inclusive range, or the message of the `ValueError` it raises. -/
def parseRange (rangeHeader : Option String) (totalSize : Int) :
    Except String (Option (Int × Int)) :=
  match rangeHeader with
  | none => .ok none
  | some h =>
    if h.data.isEmpty then .ok none
    else if !"bytes=".data.isPrefixOf h.data then .error "Invalid Range header"
    else
      let raw := (pyStrip ⟨pyRemovePrefix "bytes=".data h.data⟩).data
      if ',' ∈ raw then .error "Multiple byte ranges are not supported"
      else
        let (startS, sep, endS) := pyPartition '-' raw
        if sep ≠ ['-'] then .error "Invalid Range header"
        else if startS.isEmpty ∧ endS.isEmpty then .error "Invalid Range header"
        else rangeOfParts startS endS totalSize

/-! ### The grammar of a single byte range -/

/-- The three forms of a single byte range, `a-b`, `a-` and `-k`, over ASCII
    numerals. -/
inductive RangeSpec
  | closed (a b : Numeral)
  | openEnded (a : Numeral)
  | suffix (k : Numeral)

namespace RangeSpec

/-- The text before the `-`. -/
def startPart : RangeSpec → List Char
  | .closed a _ | .openEnded a => a.digits
  | .suffix _ => []

/-- The text after the `-`. -/
def endPart : RangeSpec → List Char
  | .closed _ b => b.digits
  | .openEnded _ => []
  | .suffix k => k.digits

/-- The header `bytes=` followed by the range. -/
def header (g : RangeSpec) : String := ⟨"bytes=".data ++ (g.startPart ++ '-' :: g.endPart)⟩

/-- The headers of the grammar: `bytes=`, then a range with whitespace around it. -/
def Header (h : String) : Prop :=
  ∃ (g : RangeSpec) (w w' : List Char), (∀ c ∈ w ++ w', pyIsSpace c) ∧
    h.data = "bytes=".data ++ w ++ (g.startPart ++ '-' :: g.endPart) ++ w'

/-- The inclusive range of a file of `n` bytes that the range asks for, or `none`
    when it cannot be satisfied. -/
def bounds (n : Nat) : RangeSpec → Option (Nat × Nat)
  | .closed a b => if n ≤ a.value ∨ b.value < a.value then none else some (a.value, min b.value (n - 1))
  | .openEnded a => if n ≤ a.value then none else some (a.value, n - 1)
  | .suffix k => if k.value = 0 then none else some (n - k.value, n - 1)

/-- Every numeral of the range has at most `PY_LONG_DEFAULT_MAX_STR_DIGITS` digits. -/
def WithinDigitLimit : RangeSpec → Prop
  | .closed a b => a.digits.length ≤ PY_LONG_DEFAULT_MAX_STR_DIGITS ∧
      b.digits.length ≤ PY_LONG_DEFAULT_MAX_STR_DIGITS
  | .openEnded a | .suffix a => a.digits.length ≤ PY_LONG_DEFAULT_MAX_STR_DIGITS

theorem startPart_isDigit (g : RangeSpec) : ∀ c ∈ g.startPart, c.isDigit := by
  cases g with
  | closed a _ | openEnded a => exact a.isDigit
  | suffix _ => simp [startPart]

theorem endPart_isDigit (g : RangeSpec) : ∀ c ∈ g.endPart, c.isDigit := by
  cases g with
  | closed _ b | suffix b => exact b.isDigit
  | openEnded _ => simp [endPart]

end RangeSpec

/-! ### What `_parse_range` does -/

theorem pyStrip_of_forall {l : List Char} (h : ∀ c ∈ l, pyIsSpace c = false) :
    pyStrip ⟨l⟩ = ⟨l⟩ := by
  have hd : ∀ l : List Char, (∀ c ∈ l, pyIsSpace c = false) → l.dropWhile pyIsSpace = l
    | [], _ => rfl
    | c :: _, h => by simp [List.dropWhile_cons, h c (.head _)]
  simp only [pyStrip, hd l h, hd l.reverse (fun c hc => h c (List.mem_reverse.mp hc)),
    List.reverse_reverse]

theorem pyPartition_of_not_mem {a : List Char} (b : List Char) (h : '-' ∉ a) :
    pyPartition '-' (a ++ '-' :: b) = (a, ['-'], b) := by
  have ht : (a ++ '-' :: b).takeWhile (· != '-') = a := by
    rw [List.takeWhile_append_of_pos fun c hc => by simpa using ne_of_mem_of_not_mem hc h]
    simp
  have hd : (a ++ '-' :: b).dropWhile (· != '-') = '-' :: b := by
    rw [List.dropWhile_append_of_pos fun c hc => by simpa using ne_of_mem_of_not_mem hc h]
    simp
  simp [pyPartition, hd, ht]

/-- On a header of the grammar, `_parse_range` reaches its `try` block with the
    two numerals. -/
theorem parseRange_header (g : RangeSpec) (n : Int) :
    parseRange (some g.header) n = rangeOfParts g.startPart g.endPart n := by
  have hdig : ∀ c ∈ g.startPart ++ '-' :: g.endPart, c.isDigit ∨ c = '-' := by
    simp only [List.mem_append, List.mem_cons]
    rintro c (h | h | h)
    exacts [.inl (g.startPart_isDigit c h), .inr h, .inl (g.endPart_isDigit c h)]
  have hsp : ∀ c ∈ g.startPart ++ '-' :: g.endPart, pyIsSpace c = false := fun c hc => by
    rcases hdig c hc with h | rfl
    exacts [pyIsSpace_of_isDigit h, rfl]
  have hcomma : ',' ∉ g.startPart ++ '-' :: g.endPart := fun hc => by
    rcases hdig _ hc with h | h <;> revert h <;> decide
  have hdash : '-' ∉ g.startPart := fun hc => absurd (g.startPart_isDigit _ hc) (by decide)
  have hne : ¬(g.startPart.isEmpty ∧ g.endPart.isEmpty) := by
    cases g <;> simp [RangeSpec.startPart, RangeSpec.endPart, Numeral.digits_ne_nil]
  have hpre : List.isPrefixOf ['b', 'y', 't', 'e', 's', '=']
      (['b', 'y', 't', 'e', 's', '='] ++ (g.startPart ++ '-' :: g.endPart)) :=
    List.isPrefixOf_iff_prefix.mpr (List.prefix_append _ _)
  simp only [List.isEmpty_iff] at hne
  simp [parseRange, RangeSpec.header, pyRemovePrefix, hpre, pyStrip_of_forall hsp, hcomma,
    pyPartition_of_not_mem _ hdash, hne]

/-- `_parse_range`'s `try` block and checks on the numerals of a range within the
    digit limit: the range the grammar asks for, or a `ValueError`. -/
theorem rangeOfParts_spec (g : RangeSpec) (hg : g.WithinDigitLimit) {n : Nat} (hn : 0 < n) :
    match g.bounds n with
    | none => ∃ m, rangeOfParts g.startPart g.endPart n = .error m
    | some (a, b) => rangeOfParts g.startPart g.endPart n = .ok (some (a, b)) := by
  cases g with
  | closed a b =>
    obtain ⟨ha, hb⟩ := hg
    simp only [RangeSpec.bounds, RangeSpec.startPart, RangeSpec.endPart, rangeOfParts,
      pyInt_numeral, ha, hb, if_true, Numeral.isEmpty_digits, Bool.not_false,
      Option.bind_eq_bind, Option.some_bind]
    split_ifs <;> first | exact ⟨_, rfl⟩ | (exfalso; omega) | (congr 3; omega)
  | openEnded a =>
    have hg : a.digits.length ≤ PY_LONG_DEFAULT_MAX_STR_DIGITS := hg
    simp only [RangeSpec.bounds, RangeSpec.startPart, RangeSpec.endPart, rangeOfParts,
      pyInt_numeral, hg, if_true, Numeral.isEmpty_digits, List.isEmpty_nil, Bool.not_false,
      Bool.not_true, Bool.false_eq_true, if_false, Option.bind_eq_bind, Option.some_bind]
    split_ifs <;> first | exact ⟨_, rfl⟩ | (exfalso; omega) | (congr 3; omega)
  | suffix k =>
    have hg : k.digits.length ≤ PY_LONG_DEFAULT_MAX_STR_DIGITS := hg
    simp only [RangeSpec.bounds, RangeSpec.startPart, RangeSpec.endPart, rangeOfParts,
      pyInt_numeral, hg, if_true, Numeral.isEmpty_digits, List.isEmpty_nil, Bool.not_true,
      Bool.false_eq_true, if_false, Option.bind_eq_bind, Option.some_bind]
    by_cases hk : k.value = 0
    · simp [hk]
    · have hk' : ¬((k.value : Int) ≤ 0) := by omega
      simp only [hk, hk', if_false]
      split_ifs <;> first | (exfalso; omega) | (congr 3 <;> omega)

/-- Every range `_parse_range` returns lies within the file. -/
theorem rangeOfParts_ok {a b : List Char} {n : Int} {r : Option (Int × Int)}
    (h : rangeOfParts a b n = .ok r) : ∃ s e, r = some (s, e) ∧ 0 ≤ s ∧ s ≤ e ∧ e ≤ n - 1 := by
  simp only [rangeOfParts] at h
  split at h
  · cases h
  · split_ifs at h with hc
    cases h
    exact ⟨_, _, rfl, by omega, by omega, by omega⟩

/-- A non-empty header gives a range within the file, or a `ValueError`. -/
theorem parseRange_ok_some {h : String} {n : Int} {r : Option (Int × Int)} (hh : h ≠ "")
    (hr : parseRange (some h) n = .ok r) : ∃ s e, r = some (s, e) ∧ 0 ≤ s ∧ s ≤ e ∧ e ≤ n - 1 := by
  have hne : h.data.isEmpty = false := by
    cases h with | mk d => cases d <;> simp_all
  simp only [parseRange, hne, Bool.false_eq_true, if_false] at hr
  split_ifs at hr
  exact rangeOfParts_ok hr

/-! ### `download_software_package` -/

/-- `HTTPException(status_code, detail)`. -/
structure HTTPException where
  statusCode : Nat
  detail : String
deriving DecidableEq, Repr

/-- The `StreamingResponse` of the route. Its body is the generator `_stream()`,
    which runs `stream_object` with the key, `start`, `end` and chunk size held
    here. -/
structure StreamingResponse where
  statusCode : Nat
  mediaType : String
  headers : List (String × String)
  storageKey : String
  start : Int
  stop : Int
  chunkSize : Nat
deriving DecidableEq, Repr

/-- `download_software_package`, once `get_download_ticket` has returned `ticket`. -/
def downloadSoftwarePackage (ticket : DownloadTicket) (rangeHeader : Option String) :
    Except HTTPException StreamingResponse := do
  let size : Int := ticket.fileSizeBytes
  let byteRange ← (parseRange rangeHeader size).mapError fun m => ⟨416, m⟩
  let (statusCode, start, stop, headers) : Nat × Int × Int × List (String × String) :=
    match byteRange with
    | none => (200, 0, size - 1,
        [("Accept-Ranges", "bytes"), ("Content-Length", toString size),
          ("ETag", ticket.checksumSha256)])
    | some (start, stop) => (206, start, stop,
        [("Accept-Ranges", "bytes"),
          ("Content-Range",
            "bytes " ++ toString start ++ "-" ++ toString stop ++ "/" ++ toString size),
          ("Content-Length", toString (stop - start + 1)), ("ETag", ticket.checksumSha256)])
  return { statusCode, start, stop,
           mediaType := (ticket.contentType.filter (!·.isEmpty)).getD "application/octet-stream",
           headers := headers ++
             [("Content-Disposition", "attachment; filename=\"" ++ ticket.fileName ++ "\"")],
           storageKey := ticket.storageKey, chunkSize := PACKAGE_UPLOAD_CHUNK_SIZE_BYTES }

/-- The chunks `_stream()` sends, with `stream_object`'s loop run for at most
    `fuel` turns. The route only builds responses with `start ≥ 0`
    (`parseRange_ok_some`). -/
def StreamingResponse.body (r : StreamingResponse) (s : Storage) (fuel : Nat) :
    Except Err (Option (List Bytes)) :=
  s.streamObject r.storageKey r.start.toNat (some r.stop) r.chunkSize fuel

/-- The response's body is `body`: once the loop has enough turns, the chunks it
    sends concatenate to it. -/
def StreamingResponse.Streams (r : StreamingResponse) (s : Storage) (body : Bytes) : Prop :=
  ∃ chunks, (∃ N, ∀ fuel, N ≤ fuel → r.body s fuel = .ok (some chunks)) ∧ chunks.flatten = body

/-- Over an object it can open, a response for the range `a..b` sends its bytes. -/
theorem StreamingResponse.streams {st : Storage} {r : StreamingResponse} {i a b : Nat}
    (hopen : st.openObject r.storageKey = .ok i) (hc : 0 < r.chunkSize) (ha : r.start = a)
    (hb : r.stop = b) : r.Streams st (bytesInRange (st.inodes i) a (some b)) := by
  rw [← hb, show a = r.start.toNat by omega]
  obtain ⟨chunks, hrun, -, hflat⟩ := @Storage.readLoop_pending st r.chunkSize hc
    ((st.inodes i).length + 1) (.start i r.start.toNat (some r.stop))
    (by simp only [ReadCursor.start]; omega)
  refine ⟨chunks, ⟨(st.inodes i).length + 1, fun fuel hf => ?_⟩, ?_⟩
  · simp only [StreamingResponse.body, Storage.streamObject, hopen]
    change Except.ok (st.readLoop r.chunkSize fuel (.start i r.start.toNat (some r.stop))) = _
    rw [Storage.readLoop_more_fuel hf hrun]
  · rw [hflat, bytesInRange_eq_pending _ i]
    rfl

/-- The bytes of a range `a..b` of an object longer than `b`: `b - a + 1` of them. -/
theorem bytesInRange_length {f : Bytes} {a b : Nat} (hab : a ≤ b) (hb : b < f.length) :
    (bytesInRange f a (some b)).length = b - a + 1 := by
  rw [bytesInRange_eq_pending f 0]
  simp only [ReadCursor.pending, ReadCursor.start, Option.map_some', List.length_take,
    List.length_drop]
  omega

/-! ### Ranged downloads agree with their headers -/

/-- The response `r` serves the range `a..b` of an object `f` of `n` bytes: the
    range lies within the object, the body streams its bytes, and
    `Content-Length` counts them. -/
def StreamingResponse.Serves (r : StreamingResponse) (st : Storage) (f : Bytes) (n a b : Nat) :
    Prop :=
  r.start = a ∧ r.stop = b ∧ a ≤ b ∧ b < n ∧
    r.Streams st (bytesInRange f a (some b)) ∧ (bytesInRange f a (some b)).length = b - a + 1 ∧
    r.headers.lookup "Content-Length" = some (toString (b - a + 1))

/-- What a ranged download should answer to the header `h`, over an object `f`
    holding the version's `n` bytes: 200 with the whole object when there is no
    header; otherwise 416, or 206 with a range within the object and its
    `Content-Range`. -/
def DownloadAgrees (st : Storage) (f : Bytes) (t : DownloadTicket) (h : Option String) : Prop :=
  if h = none ∨ h = some "" then
    ∃ r, downloadSoftwarePackage t h = .ok r ∧ r.statusCode = 200 ∧
      r.Serves st f t.fileSizeBytes 0 (t.fileSizeBytes - 1)
  else
    (∃ m, downloadSoftwarePackage t h = .error ⟨416, m⟩) ∨
      ∃ (r : StreamingResponse) (a b : Nat), downloadSoftwarePackage t h = .ok r ∧
        r.statusCode = 206 ∧ r.Serves st f t.fileSizeBytes a b ∧
        r.headers.lookup "Content-Range" =
          some ("bytes " ++ toString a ++ "-" ++ toString b ++ "/" ++ toString t.fileSizeBytes)

/-- On the header of a range `g` of the grammar, the route answers 206 with the
    range `g` asks for, or 416 when `g` cannot be satisfied. -/
def AnswersRange (t : DownloadTicket) (g : RangeSpec) : Prop :=
  match g.bounds t.fileSizeBytes with
  | none => ∃ m, downloadSoftwarePackage t (some g.header) = .error ⟨416, m⟩
  | some (a, b) => ∃ r, downloadSoftwarePackage t (some g.header) = .ok r ∧
      r.statusCode = 206 ∧ r.start = a ∧ r.stop = b

/-- `int()` refuses the end numeral: the range's `try` block raises. -/
theorem rangeOfParts_end_invalid {a b : List Char} (n : Int) (ha : a ≠ []) (hb : b ≠ [])
    (h : pyInt b = none) : rangeOfParts a b n = .error "Invalid Range header" := by
  cases hp : pyInt a <;> simp [rangeOfParts, ha, hb, h, hp]

/-- A header `_parse_range` refuses gets 416 with its message. -/
theorem downloadSoftwarePackage_of_error {t : DownloadTicket} {h : Option String} {m : String}
    (hp : parseRange h t.fileSizeBytes = .error m) :
    downloadSoftwarePackage t h = .error ⟨416, m⟩ := by
  simp [downloadSoftwarePackage, hp, Except.mapError]

theorem downloadAgrees {st : Storage} {t : DownloadTicket} {i : Nat}
    (hopen : st.openObject t.storageKey = .ok i) (hsize : (st.inodes i).length = t.fileSizeBytes)
    (hn : 0 < t.fileSizeBytes) (h : Option String) : DownloadAgrees st (st.inodes i) t h := by
  have hc : 0 < PACKAGE_UPLOAD_CHUNK_SIZE_BYTES := by decide
  unfold DownloadAgrees
  split_ifs with hblank
  · -- no header: the whole object
    have hp : parseRange h t.fileSizeBytes = .ok none := by rcases hblank with rfl | rfl <;> rfl
    have hstop : (t.fileSizeBytes : Int) - 1 = ((t.fileSizeBytes - 1 : Nat) : Int) := by omega
    simp only [downloadSoftwarePackage, hp]
    refine ⟨_, rfl, rfl, rfl, hstop, by omega, by omega,
      StreamingResponse.streams hopen hc rfl hstop, bytesInRange_length (by omega) (by omega), ?_⟩
    calc _ = some (toString (t.fileSizeBytes : Int)) := rfl
      _ = _ := by rw [show t.fileSizeBytes - 1 - 0 + 1 = t.fileSizeBytes by omega]; rfl
  · -- a header: 416, or a range the parser keeps within the object
    obtain ⟨x, rfl, hx⟩ : ∃ x, h = some x ∧ x ≠ "" := by
      rcases h with _ | x
      · exact absurd (.inl rfl) hblank
      · exact ⟨x, rfl, fun hx => hblank (.inr (congrArg some hx))⟩
    rcases hp : parseRange (some x) t.fileSizeBytes with m | _ | ⟨s, e⟩
    · exact .inl ⟨m, downloadSoftwarePackage_of_error hp⟩
    · obtain ⟨_, _, h', -⟩ := parseRange_ok_some hx hp
      cases h'
    obtain ⟨s', e', hse, h0, hle, hlt⟩ := parseRange_ok_some hx hp
    cases hse
    have hs : s = (s.toNat : Int) := (Int.toNat_of_nonneg h0).symm
    have he : e = (e.toNat : Int) := (Int.toNat_of_nonneg (by omega)).symm
    simp only [downloadSoftwarePackage, hp]
    refine .inr ⟨_, s.toNat, e.toNat, rfl, rfl, ⟨hs, he, by omega, by omega,
      StreamingResponse.streams hopen hc hs he, bytesInRange_length (by omega) (by omega), ?_⟩, ?_⟩
    · calc _ = some (toString (e - s + 1)) := rfl
        _ = _ := by rw [show e - s + 1 = ((e.toNat - s.toNat + 1 : Nat) : Int) by omega]; rfl
    · calc _ = some ("bytes " ++ toString s ++ "-" ++ toString e ++ "/" ++
            toString (t.fileSizeBytes : Int)) := rfl
        _ = _ := by rw [hs, he]; rfl

/-- On the header of a range whose numerals `int()` converts, the route answers
    the range the grammar gives. -/
theorem answersRange {t : DownloadTicket} (hn : 0 < t.fileSizeBytes) {g : RangeSpec}
    (hg : g.WithinDigitLimit) : AnswersRange t g := by
  have hspec := rangeOfParts_spec g hg hn
  unfold AnswersRange
  rcases hb : g.bounds t.fileSizeBytes with _ | ⟨a, b⟩ <;> rw [hb] at hspec
  · obtain ⟨m, hm⟩ := hspec
    exact ⟨m, downloadSoftwarePackage_of_error (by rw [parseRange_header, hm])⟩
  · exact ⟨_, by simp only [downloadSoftwarePackage, parseRange_header, hspec]; rfl, rfl, rfl, rfl⟩

/-- **Ranged downloads agree with their headers.** Over an object holding the
    version's `n ≥ 1` bytes, every `Range` header gets 416, or a range within the
    object whose bytes the body streams and whose headers describe it; and a
    header `bytes=a-b`, `bytes=a-` or `bytes=-k` whose numerals have at most
    4300 digits gets the range the grammar gives. -/
theorem download_range_agrees (st : Storage) (t : DownloadTicket) (i : Nat)
    (hopen : st.openObject t.storageKey = .ok i) (hsize : (st.inodes i).length = t.fileSizeBytes)
    (hn : 0 < t.fileSizeBytes) :
    (∀ h, DownloadAgrees st (st.inodes i) t h) ∧
      ∀ g : RangeSpec, g.WithinDigitLimit → AnswersRange t g :=
  ⟨downloadAgrees hopen hsize hn, fun _ hg => answersRange hn hg⟩

/-- A backend holding one object, `k`, of one byte. -/
def oneByteObject : Storage := ⟨fun _ => none, setName (fun _ => none) "k" (some 0), fun _ => [7], 1⟩

/-- The ticket of a version stored as `k`, of one byte. -/
def oneByteTicket : DownloadTicket := ⟨"k", "f.zip", none, 1, "c"⟩

theorem download_range_agrees_one_byte :
    oneByteObject.openObject oneByteTicket.storageKey = .ok 0 ∧
      (oneByteObject.inodes 0).length = oneByteTicket.fileSizeBytes ∧ 0 < oneByteTicket.fileSizeBytes ∧
      ((∀ h, DownloadAgrees oneByteObject (oneByteObject.inodes 0) oneByteTicket h) ∧
        ∀ g : RangeSpec, g.WithinDigitLimit → AnswersRange oneByteTicket g) :=
  ⟨rfl, rfl, by decide, download_range_agrees oneByteObject oneByteTicket 0 rfl rfl (by decide)⟩

/-- The numeral `0`. -/
def zeroNumeral : Numeral := ⟨['0'], List.cons_ne_nil _ _, by decide⟩

/-- The numeral `1` followed by 4300 zeros, of 4301 digits. -/
def longNumeral : Numeral :=
  ⟨'1' :: List.replicate 4300 '0', List.cons_ne_nil _ _, by
    intro c hc
    simp only [List.mem_cons, List.mem_replicate] at hc
    rcases hc with rfl | ⟨_, rfl⟩ <;> rfl⟩

/-- `bytes=0-1000…0` over a one-byte object asks for its byte `0`, but `int()`
    refuses the end's 4301 digits and the route answers 416. -/
theorem download_refuses_long_numeral :
    oneByteObject.openObject oneByteTicket.storageKey = .ok 0 ∧
      (oneByteObject.inodes 0).length = oneByteTicket.fileSizeBytes ∧
      (RangeSpec.closed zeroNumeral longNumeral).bounds oneByteTicket.fileSizeBytes = some (0, 0) ∧
      downloadSoftwarePackage oneByteTicket (some (RangeSpec.closed zeroNumeral longNumeral).header) =
        .error ⟨416, "Invalid Range header"⟩ := by
  have hlen : longNumeral.digits.length = 4301 := congrArg (· + 1) (List.length_replicate 4300 '0')
  have hlong : pyInt longNumeral.digits = none := by
    rw [pyInt_numeral, if_neg (by rw [hlen]; decide)]
  refine ⟨rfl, rfl, by simp [RangeSpec.bounds, oneByteTicket, zeroNumeral, Numeral.value,
    decimalValue], downloadSoftwarePackage_of_error ?_⟩
  rw [parseRange_header]
  exact rangeOfParts_end_invalid _ zeroNumeral.digits_ne_nil longNumeral.digits_ne_nil hlong

/-! ### What the parser lets through -/

/-- A header with a character that is no digit, no `-`, no whitespace and not in
    `bytes=` is outside the grammar. -/
theorem not_header_of_mem {h : String} {c : Char} (hc : c ∈ h.data) (hd : c.isDigit = false)
    (hm : c ≠ '-') (hs : pyIsSpace c = false) (hb : c ∉ "bytes=".data) : ¬RangeSpec.Header h := by
  rintro ⟨g, w, w', hw, heq⟩
  rw [heq] at hc
  simp only [List.mem_append, List.mem_cons] at hc
  rcases hc with ((hc | hc) | hc | hc | hc) | hc
  · exact hb (by simpa using hc)
  · simpa [hs] using hw c (List.mem_append_left _ hc)
  · simpa [hd] using g.startPart_isDigit c hc
  · exact hm hc
  · simpa [hd] using g.endPart_isDigit c hc
  · simpa [hs] using hw c (List.mem_append_right _ hc)

/-- `_parse_range` returns a range for headers outside the grammar: a signed
    numeral, one with an underscore, and one in Arabic-Indic digits. -/
theorem parse_range_accepts_beyond_grammar :
    parseRange (some "bytes=+0-0") 1 = .ok (some (0, 0)) ∧ ¬RangeSpec.Header "bytes=+0-0" ∧
      parseRange (some "bytes=0_0-0") 1 = .ok (some (0, 0)) ∧ ¬RangeSpec.Header "bytes=0_0-0" ∧
      parseRange (some "bytes=٠-0") 1 = .ok (some (0, 0)) ∧ ¬RangeSpec.Header "bytes=٠-0" :=
  ⟨rfl, not_header_of_mem (c := '+') (by decide) rfl (by decide) rfl (by decide),
    rfl, not_header_of_mem (c := '_') (by decide) rfl (by decide) rfl (by decide),
    rfl, not_header_of_mem (c := '٠') (by decide) rfl (by decide) rfl (by decide)⟩

end TechPulse
