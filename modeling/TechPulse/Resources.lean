import Mathlib.Data.List.DropRight
import TechPulse.Accounts

/-!
# The resource catalog

`app/services/resource_service.py`, `app/repositories/resource.py` and the
routes of `app/api/v1/resources.py` that create, read and delete a resource.

`create_resource` stores the slug stripped and lower-cased, but it looks for a
duplicate, and the read and delete routes look a resource up, by the slug as
sent. The catalog therefore only ever holds slugs in normal form, unique, and
types from the allow-list (`Normal`, `normal_run`); a lookup by a slug not in
normal form finds nothing, and a create whose slug only normalises to a stored
one passes the conflict check and is refused by the unique index instead
(`unnormalised_duplicate_refused_by_index`).

`lower` is `str.lower`. The results use two facts of it: it is idempotent, and it
commutes with `str.strip()`, as no character is lower-cased into or out of
whitespace. `pyLower` has both (`pyLower_pyLower`, `pyLower_pyStrip`).
Request validation of `ResourceCreate` (the length bounds) is left out: it only
narrows the payloads that reach the service, and every result holds for all of
them.
-/

namespace TechPulse

/-! ### Strip and lower -/

/-- `str.strip()` is idempotent. -/
theorem pyStrip_pyStrip (s : String) : pyStrip (pyStrip s) = pyStrip s := by
  obtain ⟨l⟩ := s
  show (⟨List.rdropWhile pyIsSpace (List.dropWhile pyIsSpace (List.rdropWhile pyIsSpace
    (l.dropWhile pyIsSpace)))⟩ : String) = ⟨List.rdropWhile pyIsSpace (l.dropWhile pyIsSpace)⟩
  obtain ⟨t, ht⟩ := List.rdropWhile_prefix (p := pyIsSpace) (l := l.dropWhile pyIsSpace)
  have hfirst := List.head?_dropWhile_not pyIsSpace l
  have hd : (List.rdropWhile pyIsSpace (l.dropWhile pyIsSpace)).dropWhile pyIsSpace =
      List.rdropWhile pyIsSpace (l.dropWhile pyIsSpace) := by
    revert ht
    cases List.rdropWhile pyIsSpace (l.dropWhile pyIsSpace) with
    | nil => intro; rfl
    | cons a r =>
      intro ht
      rw [← ht] at hfirst
      simp only [List.cons_append, List.head?_cons] at hfirst
      simp [List.dropWhile_cons, hfirst]
  rw [hd, List.rdropWhile_idempotent]

theorem Char.toNat_toLower (c : Char) :
    c.toLower.toNat = if 65 ≤ c.toNat ∧ c.toNat ≤ 90 then c.toNat + 32 else c.toNat := by
  simp only [Char.toLower, ge_iff_le]
  split_ifs with h
  · have hv : (c.toNat + 32).isValidChar := Or.inl (by omega)
    rw [Char.ofNat, dif_pos hv]
    rfl
  · rfl

theorem Char.toLower_toLower (c : Char) : c.toLower.toLower = c.toLower := by
  conv_lhs => simp only [Char.toLower.eq_1 c.toLower, ge_iff_le]
  rw [Char.toNat_toLower]
  split_ifs <;> first | rfl | omega

theorem pyLowerChar_pyLowerChar (c : Char) : pyLowerChar (pyLowerChar c) = pyLowerChar c := by
  unfold pyLowerChar
  by_cases hk : c.toNat = 0x212A
  · rw [if_pos hk]
    rfl
  · have hk' : c.toLower.toNat ≠ 0x212A := by
      rw [Char.toNat_toLower]
      split_ifs <;> omega
    rw [if_neg hk, if_neg hk', Char.toLower_toLower]

/-- Lower-casing a character keeps it whitespace or not. -/
theorem pyIsSpace_pyLowerChar (c : Char) : pyIsSpace (pyLowerChar c) = pyIsSpace c := by
  unfold pyLowerChar pyIsSpace
  by_cases hk : c.toNat = 0x212A
  · rw [if_pos hk, hk]
    rfl
  · rw [if_neg hk, Char.toNat_toLower]
    split_ifs
    · rw [Bool.eq_iff_iff]
      simp only [Bool.or_eq_true, Bool.and_eq_true, decide_eq_true_eq, beq_iff_eq]
      omega
    · rfl

theorem pyLower_pyLower (s : String) : pyLower (pyLower s) = pyLower s := by
  simp [pyLower, Function.comp_def, pyLowerChar_pyLowerChar]

theorem pyLower_pyStrip (s : String) : pyLower (pyStrip s) = pyStrip (pyLower s) := by
  have hsp : pyIsSpace ∘ pyLowerChar = pyIsSpace := funext pyIsSpace_pyLowerChar
  simp only [pyLower, pyStrip, List.dropWhile_map, hsp, ← List.map_reverse]

/-! ### The catalog -/

/-- A `resources` row: the columns the service writes (`created_at` only orders
    the listing). -/
structure Resource where
  id : Nat
  title : String
  slug : String
  type : String
  description : String
  url : Option String
deriving DecidableEq, Repr

/-- The body of `POST /api/v1/resources`. -/
structure ResourceCreate where
  title : String
  slug : String
  type : String
  description : String
  url : Option String
deriving DecidableEq, Repr

/-- The `resources` table. -/
structure ResourceDb where
  resources : List Resource
deriving DecidableEq, Repr

/-- The routes of `app/api/v1/resources.py` that write. -/
inductive ResourceCall where
  | create (payload : ResourceCreate)
  | delete (slug : String)
deriving DecidableEq, Repr

namespace ResourceService

/-- `ResourceService.ALLOWED_TYPES`, in the order `sorted` lists it. -/
def ALLOWED_TYPES : List String := ["api", "knowledge", "support", "updates"]

end ResourceService

section Service

variable (lower : String → String)

/-- `slug.strip().lower()`: the form the service stores. -/
def ResourceDb.normalise (s : String) : String := lower (pyStrip s)

/-- The row `create_resource` inserts, under the id `id`. -/
def ResourceCreate.row (payload : ResourceCreate) (id : Nat) : Resource :=
  { id := id, title := pyStrip payload.title, slug := ResourceDb.normalise lower payload.slug,
    type := lower (pyStrip payload.type), description := pyStrip payload.description,
    url := payload.url.bind fun u => if isBlank u then none else some (pyStrip u) }

namespace ResourceDb

/-- `ResourceRepo.get_by_slug`: `scalar_one_or_none()` over the rows with the slug. -/
def getBySlug (db : ResourceDb) (slug : String) : Except Err (Option Resource) :=
  scalarOneOrNone (db.resources.filter (·.slug = slug))

/-- `ResourceService.get_by_slug`. -/
def getResource (db : ResourceDb) (slug : String) : Except Err Resource :=
  match db.getBySlug slug with
  | .error e => throw e
  | .ok none => throw (.notFound "Resource not found")
  | .ok (some r) => pure r

/-- `create_resource`: the type check, the duplicate check by the slug as sent,
    then the insert of the normalised row, which the unique index on `slug`
    refuses when another row holds it. -/
def createResource (payload : ResourceCreate) (db : ResourceDb) : Except Err (Resource × ResourceDb) :=
  if lower payload.type ∉ ResourceService.ALLOWED_TYPES then
    throw (.validation ("Invalid resource type. Allowed: " ++ ", ".intercalate ResourceService.ALLOWED_TYPES))
  else
    match db.getBySlug payload.slug with
    | .error e => throw e
    | .ok (some _) => throw (.conflict "Resource slug already exists")
    | .ok none =>
      let r := payload.row lower (nextRowId (db.resources.map (·.id)))
      if db.resources.any (·.slug = r.slug) then throw (.integrity "resources.slug")
      else pure (r, ⟨db.resources ++ [r]⟩)

/-- `delete_resource`. -/
def deleteResource (db : ResourceDb) (slug : String) : Except Err ResourceDb :=
  match db.getBySlug slug with
  | .error e => throw e
  | .ok none => throw (.notFound "Resource not found")
  | .ok (some r) => pure ⟨db.resources.filter (·.id ≠ r.id)⟩

/-- One route; a refused one rolls back. -/
def call (db : ResourceDb) : ResourceCall → ResourceDb
  | .create payload => match db.createResource lower payload with
    | .ok (_, db') => db'
    | .error _ => db
  | .delete slug => match db.deleteResource slug with
    | .ok db' => db'
    | .error _ => db

/-- The catalog after a sequence of routes, from an empty one. -/
def run (calls : List ResourceCall) : ResourceDb :=
  calls.foldl (call lower) ⟨[]⟩

theorem run_snoc (calls : List ResourceCall) (c : ResourceCall) :
    run lower (calls ++ [c]) = (run lower calls).call lower c := by
  simp [run, List.foldl_append]

end ResourceDb

end Service

/-! ### What the catalog keeps -/

namespace ResourceDb

variable {lower : String → String} {db : ResourceDb}

/-- What every run keeps: slugs unique and in normal form, types allowed. -/
structure Normal (lower : String → String) (db : ResourceDb) : Prop where
  slugs : (db.resources.map (·.slug)).Nodup
  normal : ∀ r ∈ db.resources, normalise lower r.slug = r.slug
  types : ∀ r ∈ db.resources, r.type ∈ ResourceService.ALLOWED_TYPES

theorem getBySlug_of_mem (hnd : (db.resources.map (·.slug)).Nodup) {r : Resource}
    (hr : r ∈ db.resources) : db.getBySlug r.slug = .ok (some r) := by
  rw [getBySlug, AccountDb.filter_key_eq_singleton hnd hr]
  rfl

theorem getBySlug_of_forall_ne {slug : String} (h : ∀ r ∈ db.resources, r.slug ≠ slug) :
    db.getBySlug slug = .ok none := by
  rw [getBySlug, List.filter_eq_nil_iff.mpr fun r hr => by simpa using h r hr]
  rfl

theorem deleteResource_ok {slug : String} {db' : ResourceDb} (h : db.deleteResource slug = .ok db') :
    ∃ r : Resource, db' = ⟨db.resources.filter (·.id ≠ r.id)⟩ := by
  unfold deleteResource at h
  split at h
  · cases h
  · cases h
  · cases h
    exact ⟨_, rfl⟩

/-- Under unique slugs, the three outcomes of `create_resource` with an allowed
    type: the conflict when the slug as sent is stored, the unique index when
    only its normal form is, and the insert otherwise. -/
theorem createResource_eq (hnd : (db.resources.map (·.slug)).Nodup) {payload : ResourceCreate}
    (htype : lower payload.type ∈ ResourceService.ALLOWED_TYPES) :
    db.createResource lower payload =
      if ∃ r ∈ db.resources, r.slug = payload.slug then .error (.conflict "Resource slug already exists")
      else if ∃ r ∈ db.resources, r.slug = normalise lower payload.slug then
        .error (.integrity "resources.slug")
      else
        let r := payload.row lower (nextRowId (db.resources.map (·.id)))
        .ok (r, ⟨db.resources ++ [r]⟩) := by
  rw [createResource, if_neg (not_not.mpr htype)]
  by_cases hsent : ∃ r ∈ db.resources, r.slug = payload.slug
  · obtain ⟨r, hr, hs⟩ := hsent
    rw [← hs, getBySlug_of_mem hnd hr, if_pos (show ∃ x ∈ db.resources, x.slug = r.slug from ⟨r, hr, rfl⟩)]
    rfl
  · rw [getBySlug_of_forall_ne fun r hr hs => hsent ⟨r, hr, hs⟩, if_neg hsent]
    simp only [List.any_eq_true, decide_eq_true_eq, ResourceCreate.row]
    rfl

/-- The type stored is the type checked: an allowed type has no surrounding
    whitespace to strip. -/
theorem lower_pyStrip_of_allowed (hstrip : ∀ s, lower (pyStrip s) = pyStrip (lower s)) {t : String}
    (ht : lower t ∈ ResourceService.ALLOWED_TYPES) : lower (pyStrip t) = lower t := by
  have hfix : ∀ a ∈ ResourceService.ALLOWED_TYPES, pyStrip a = a := by decide
  rw [hstrip, hfix _ ht]

/-- Appending a row under a fresh slug in normal form, with an allowed type,
    keeps the catalog normal. -/
theorem Normal.append (hN : db.Normal lower) {r : Resource} (hfresh : r.slug ∉ db.resources.map (·.slug))
    (hnorm : normalise lower r.slug = r.slug) (htype : r.type ∈ ResourceService.ALLOWED_TYPES) :
    (⟨db.resources ++ [r]⟩ : ResourceDb).Normal lower := by
  refine ⟨?_, fun x hx => ?_, fun x hx => ?_⟩
  · rw [List.map_append, List.map_singleton, ← List.concat_eq_append]
    exact hN.slugs.concat hfresh
  · rcases List.mem_append.mp hx with hx | hx
    · exact hN.normal x hx
    · exact List.mem_singleton.mp hx ▸ hnorm
  · rcases List.mem_append.mp hx with hx | hx
    · exact hN.types x hx
    · exact List.mem_singleton.mp hx ▸ htype

/-- Dropping rows keeps the catalog normal. -/
theorem Normal.filter (hN : db.Normal lower) (p : Resource → Bool) :
    (⟨db.resources.filter p⟩ : ResourceDb).Normal lower :=
  have hsub := List.filter_sublist (p := p) db.resources
  ⟨hN.slugs.sublist (hsub.map _), fun r hr => hN.normal r (hsub.subset hr),
    fun r hr => hN.types r (hsub.subset hr)⟩

section Laws

variable (hidem : ∀ s, lower (lower s) = lower s) (hstrip : ∀ s, lower (pyStrip s) = pyStrip (lower s))
include hidem hstrip

/-- Normalising twice is normalising once. -/
theorem normalise_normalise (s : String) : normalise lower (normalise lower s) = normalise lower s :=
  calc lower (pyStrip (lower (pyStrip s)))
      _ = lower (lower (pyStrip (pyStrip s))) := by rw [hstrip (pyStrip s)]
      _ = lower (pyStrip s) := by rw [hidem, pyStrip_pyStrip]

/-- **One route keeps the catalog normal.** -/
theorem Normal.call (hN : db.Normal lower) (c : ResourceCall) : (db.call lower c).Normal lower := by
  cases c with
  | create payload =>
    by_cases htype : lower payload.type ∈ ResourceService.ALLOWED_TYPES
    · simp only [ResourceDb.call]
      rw [createResource_eq hN.slugs htype]
      split_ifs with hsent hnorm
      · exact hN
      · exact hN
      · refine hN.append (fun hin => hnorm ?_) (normalise_normalise hidem hstrip _) ?_
        · obtain ⟨r, hr, hs⟩ := List.mem_map.mp hin
          exact ⟨r, hr, hs⟩
        · simpa [ResourceCreate.row, lower_pyStrip_of_allowed hstrip htype] using htype
    · simp only [ResourceDb.call, createResource, if_pos htype]
      exact hN
  | delete slug =>
    simp only [ResourceDb.call]
    split
    · rename_i db' hdel
      obtain ⟨r, rfl⟩ := deleteResource_ok hdel
      exact hN.filter _
    · exact hN

/-- **The catalog stays normal.** Over any sequence of creates and deletes, the
    stored slugs are unique and in normal form, and every stored type is one of
    the four allowed ones, although the type check lower-cases the type without
    stripping it. -/
theorem normal_run (calls : List ResourceCall) : (run lower calls).Normal lower := by
  induction calls using List.reverseRecOn with
  | nil => exact ⟨List.nodup_nil, fun _ h => absurd h (List.not_mem_nil _),
      fun _ h => absurd h (List.not_mem_nil _)⟩
  | append_singleton calls c ih => rw [run_snoc]; exact ih.call hidem hstrip c

end Laws

/-- Two creates, the second deleted again. -/
def exampleResourceCalls : List ResourceCall :=
  [.create ⟨"API docs", " api-docs ", "API", "Reference", some " https://docs.example "⟩,
   .create ⟨"Help", "help", "support", "Help desk", none⟩,
   .delete "help"]

/-- With the ASCII lower-casing, the example catalog is normal. -/
theorem example_catalog_normal : (run pyLower exampleResourceCalls).Normal pyLower :=
  normal_run pyLower_pyLower pyLower_pyStrip exampleResourceCalls

/-- **Lookups by the slug as sent.** After any run, no slug that is not in normal
    form is found by the read or the delete route; and a create with such a slug
    whose normal form is stored passes the duplicate check and is refused by the
    unique index on `resources.slug`, not with "Resource slug already exists". -/
theorem unnormalised_duplicate_refused_by_index (hidem : ∀ s, lower (lower s) = lower s)
    (hstrip : ∀ s, lower (pyStrip s) = pyStrip (lower s)) (calls : List ResourceCall) :
    (∀ slug, normalise lower slug ≠ slug →
      (run lower calls).getResource slug = .error (.notFound "Resource not found") ∧
        (run lower calls).deleteResource slug = .error (.notFound "Resource not found")) ∧
    ∀ payload : ResourceCreate, lower payload.type ∈ ResourceService.ALLOWED_TYPES →
      normalise lower payload.slug ≠ payload.slug →
      (∃ r ∈ (run lower calls).resources, r.slug = normalise lower payload.slug) →
      (run lower calls).createResource lower payload = .error (.integrity "resources.slug") := by
  have hN := normal_run hidem hstrip calls
  have hsent : ∀ slug, normalise lower slug ≠ slug → ∀ r ∈ (run lower calls).resources, r.slug ≠ slug :=
    fun _ hnf r hr hs => hnf (hs ▸ hN.normal r hr)
  refine ⟨fun slug hnf => ?_, fun payload htype hnf htaken => ?_⟩
  · have hnone := getBySlug_of_forall_ne (hsent slug hnf)
    exact ⟨by rw [getResource, hnone]; rfl, by rw [deleteResource, hnone]; rfl⟩
  · rw [createResource_eq hN.slugs htype, if_neg fun ⟨r, hr, hs⟩ => hsent _ hnf r hr hs, if_pos htaken]

/-- `API-Docs` normalises to the stored `api-docs`: the read and the delete find
    nothing, and the create is refused by the index. -/
theorem example_unnormalised_slug_refused :
    ((run pyLower exampleResourceCalls).getResource "API-Docs" = .error (.notFound "Resource not found") ∧
      (run pyLower exampleResourceCalls).deleteResource "API-Docs" = .error (.notFound "Resource not found")) ∧
    (run pyLower exampleResourceCalls).createResource pyLower ⟨"Docs", "API-Docs", "api", "Again", none⟩ =
      .error (.integrity "resources.slug") :=
  ⟨(unnormalised_duplicate_refused_by_index pyLower_pyLower pyLower_pyStrip exampleResourceCalls).1 _
      (by decide),
    (unnormalised_duplicate_refused_by_index pyLower_pyLower pyLower_pyStrip exampleResourceCalls).2 _
      (by decide) (by decide) (by decide)⟩

end ResourceDb

end TechPulse
