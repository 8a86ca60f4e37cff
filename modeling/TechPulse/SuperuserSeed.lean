import Mathlib.Data.String.Basic
import TechPulse.RefreshSessions
import TechPulse.VerificationRecovery

/-!
# Login and the superuser seed

`AuthService.authenticate_user` and `seed_superuser`
(`app/services/superuser_seeder.py`), with the two lookups of `UserRepo` they
use.

The seeder looks the configured superuser up by username and by e-mail. When the
two lookups name different users it does nothing; otherwise it takes the user
either one found and makes it a verified admin, re-hashing its password only
when `SUPERUSER_UPDATE_PASSWORD_ON_STARTUP` is set, or inserts the superuser when
neither found one. So running it at every startup changes nothing after the
first run, beyond the new salt of a re-hashed password (`seed_superuser_twice`).
It also trusts whatever account already holds the configured e-mail: an
account registered with that e-mail, which no one had to prove they own, is
marked verified and made an admin, and its holder then logs in as admin with
the password they chose (`registered_superuser_email_becomes_admin`).

`app.core.hashing` is not among the sources: `verifyPassword hash password` is
what `verify_password` answers, the hash to keep when the password matches (an
upgraded one, or the same), and none when it does not match or the check
raises `RuntimeError`, which the service reports the same way. `lower` is
`str.lower`. The unique indexes on `username` and `email` leave each lookup at
most one row, so `scalar_one_or_none()` is the first match.
-/

namespace TechPulse

/-- The `SUPERUSER_*` settings. -/
structure SuperuserSettings where
  seedEnabled : Bool
  fullName : String
  username : String
  email : String
  password : String
  updatePasswordOnStartup : Bool
deriving DecidableEq, Repr

namespace AccountDb

/-- `UserRepo.get_user_by_username`. -/
def getUserByUsername (db : AccountDb) (username : String) : Option User :=
  db.users.find? (·.username = username)

/-- `UserRepo.get_user_by_email`. -/
def getUserByEmail (db : AccountDb) (email : String) : Option User :=
  db.users.find? (·.email = email)

/-- `authenticate_user`: the user it returns and the tables it commits. The
    token `create_login_token` makes from the user's id and role is left out. -/
def authenticateUser (verifyPassword : String → String → Option String) (username password : String)
    (db : AccountDb) : Except Err (User × AccountDb) :=
  let normalizedUsername := pyStrip username
  if normalizedUsername.isEmpty then throw (.validation "Username is required")
  else if password = "" then throw (.validation "Password is required")
  else
    match db.getUserByUsername normalizedUsername with
    | none => throw (.validation "Invalid username or password")
    | some user =>
      match verifyPassword user.passwordHash password with
      | none => throw (.validation "Invalid username or password")
      | some verifiedHash =>
        if user.status ≠ .verified then throw (.validation "Email not approved")
        else
          let user := if verifiedHash ≠ user.passwordHash then { user with passwordHash := verifiedHash } else user
          pure (user, db.saveUser user)

/-- The row `seed_superuser` inserts, under the id `id`, with the password hash
    `hash`. -/
def superuserRow (fullName username email hash : String) (id now : Nat) : User :=
  { id := id, fullName := fullName, username := username, email := email, passwordHash := hash,
    status := .verified, role := .admin, verificationEmailLastSentAt := none,
    verificationEmailRetryCount := 0, verificationEmailNextRetryAt := none,
    verificationEmailLastError := none, createdAt := now }

/-- `seed_superuser` at time `now`, with `hash` the
    `hash_password(settings.SUPERUSER_PASSWORD)` this run draws (the hash is
    salted). An existing user is written back with the changes the run makes to
    it; when it makes none, that is the row as it was. -/
def seedSuperuser (lower : String → String) (s : SuperuserSettings) (hash : String) (now : Nat)
    (db : AccountDb) : AccountDb :=
  if !s.seedEnabled then db
  else if [s.username, s.email, s.password].any isBlank then db
  else
    let username := pyStrip s.username
    let email := lower (pyStrip s.email)
    let userByUsername := db.getUserByUsername username
    let userByEmail := db.getUserByEmail email
    if userByUsername.isSome ∧ userByEmail.isSome ∧ userByUsername.map (·.id) ≠ userByEmail.map (·.id) then db
    else
      match userByUsername.orElse fun _ => userByEmail with
      | none =>
        { db with users := db.users ++
            [superuserRow (pyStrip s.fullName) username email hash (nextRowId (db.users.map (·.id))) now] }
      | some user =>
        db.saveUser { user with role := .admin, status := .verified,
                                passwordHash := if s.updatePasswordOnStartup then hash else user.passwordHash }

end AccountDb

/-! ### Lookups after a write -/

namespace AccountDb

variable {db : AccountDb}

/-- Writing back a row that keeps the key `p` reads moves no lookup by `p`: the
    lookup finds what it found before, as written back. -/
theorem find?_saveUser (hids : (db.users.map (·.id)).Nodup) {u w : User} (hu : u ∈ db.users)
    (hid : w.id = u.id) {p : User → Bool} (hp : p w = p u) :
    (db.saveUser w).users.find? p = (db.users.find? p).map fun x => if x.id = w.id then w else x := by
  have hcongr : ∀ x ∈ db.users, (p ∘ fun x => if x.id = w.id then w else x) x = p x := fun x hx => by
    simp only [Function.comp_apply]
    split_ifs with h
    · rw [List.inj_on_of_nodup_map hids hx hu (h.trans hid)]
      exact hp
    · rfl
  rw [saveUser, List.find?_map, ← List.filter_head?, List.filter_congr hcongr, List.filter_head?]

theorem saveUser_saveUser {w w' : User} (h : w.id = w'.id) : (db.saveUser w).saveUser w' = db.saveUser w' := by
  simp only [saveUser, List.map_map]
  congr 1
  exact List.map_congr_left fun x _ => by by_cases hx : x.id = w'.id <;> simp [hx, h]

/-- Writing back the last row, under an id no earlier row has, replaces it. -/
theorem saveUser_append_fresh {r w : User} (hfresh : ∀ x ∈ db.users, x.id ≠ r.id) (hid : w.id = r.id) :
    ({ db with users := db.users ++ [r] } : AccountDb).saveUser w = { db with users := db.users ++ [w] } := by
  simp only [saveUser, List.map_append, List.map_singleton, hid, if_true]
  congr 2
  exact (List.map_congr_left fun x hx => if_neg (hfresh x hx)).trans (List.map_id' _)

theorem find?_append_fresh {r : User} {p : User → Bool} (hnone : db.users.find? p = none) (hr : p r = true) :
    (db.users ++ [r]).find? p = some r := by
  rw [List.find?_append, hnone]
  simp [hr]

theorem orElse_map {α β : Type} (f : α → β) (o₁ o₂ : Option α) :
    ((o₁.map f).orElse fun _ => o₂.map f) = (o₁.orElse fun _ => o₂).map f := by
  cases o₁ <;> rfl

/-- Past its settings checks, the seeder is its lookups and their outcome. -/
theorem seedSuperuser_open (lower : String → String) {s : SuperuserSettings} (hon : s.seedEnabled = true)
    (hset : [s.username, s.email, s.password].any isBlank = false) (hash : String) (now : Nat) :
    db.seedSuperuser lower s hash now =
      let userByUsername := db.getUserByUsername (pyStrip s.username)
      let userByEmail := db.getUserByEmail (lower (pyStrip s.email))
      if userByUsername.isSome ∧ userByEmail.isSome ∧ userByUsername.map (·.id) ≠ userByEmail.map (·.id) then db
      else
        match userByUsername.orElse fun _ => userByEmail with
        | none =>
          { db with users := db.users ++ [superuserRow (pyStrip s.fullName) (pyStrip s.username)
              (lower (pyStrip s.email)) hash (nextRowId (db.users.map (·.id))) now] }
        | some user =>
          db.saveUser { user with role := .admin, status := .verified,
                                  passwordHash := if s.updatePasswordOnStartup then hash else user.passwordHash } := by
  simp only [seedSuperuser, hon, hset, Bool.not_true, Bool.false_eq_true, if_false]

section Outcomes

variable (lower : String → String) {s : SuperuserSettings} (hon : s.seedEnabled = true)
  (hset : [s.username, s.email, s.password].any isBlank = false) {hash : String} {now : Nat}
include hon hset

/-- The two lookups name different users: the seeder leaves the tables alone. -/
theorem seedSuperuser_conflict
    (hconf : (db.getUserByUsername (pyStrip s.username)).isSome ∧
      (db.getUserByEmail (lower (pyStrip s.email))).isSome ∧
      (db.getUserByUsername (pyStrip s.username)).map (·.id) ≠
        (db.getUserByEmail (lower (pyStrip s.email))).map (·.id)) :
    db.seedSuperuser lower s hash now = db := by
  rw [seedSuperuser_open lower hon hset]
  exact if_pos hconf

/-- Neither lookup finds a user: the seeder inserts the superuser. -/
theorem seedSuperuser_insert (hu : db.getUserByUsername (pyStrip s.username) = none)
    (he : db.getUserByEmail (lower (pyStrip s.email)) = none) :
    db.seedSuperuser lower s hash now =
      { db with users := db.users ++ [superuserRow (pyStrip s.fullName) (pyStrip s.username)
          (lower (pyStrip s.email)) hash (nextRowId (db.users.map (·.id))) now] } := by
  rw [seedSuperuser_open lower hon hset]
  simp only [hu, he, Option.isSome_none, Bool.false_eq_true, false_and, if_false]
  rfl

/-- Otherwise the user the lookups agree on is written back as a verified admin. -/
theorem seedSuperuser_promote {u : User}
    (hconf : ¬((db.getUserByUsername (pyStrip s.username)).isSome ∧
      (db.getUserByEmail (lower (pyStrip s.email))).isSome ∧
      (db.getUserByUsername (pyStrip s.username)).map (·.id) ≠
        (db.getUserByEmail (lower (pyStrip s.email))).map (·.id)))
    (ht : ((db.getUserByUsername (pyStrip s.username)).orElse fun _ =>
      db.getUserByEmail (lower (pyStrip s.email))) = some u) :
    db.seedSuperuser lower s hash now =
      db.saveUser { u with role := .admin, status := .verified,
                           passwordHash := if s.updatePasswordOnStartup then hash else u.passwordHash } := by
  rw [seedSuperuser_open lower hon hset]
  simp only [if_neg hconf, ht]

end Outcomes

/-- Seeding off, or a setting blank: the seeder leaves the tables alone. -/
theorem seedSuperuser_closed (lower : String → String) {s : SuperuserSettings}
    (hgate : ¬(s.seedEnabled = true ∧ [s.username, s.email, s.password].any isBlank = false))
    (hash : String) (now : Nat) : db.seedSuperuser lower s hash now = db := by
  unfold seedSuperuser
  by_cases hen : s.seedEnabled = true
  · have hbl : [s.username, s.email, s.password].any isBlank = true := by
      cases h : [s.username, s.email, s.password].any isBlank
      · exact absurd ⟨hen, h⟩ hgate
      · rfl
    rw [if_neg (by simp [hen]), if_pos hbl]
  · rw [if_pos (by simpa using hen)]

section Again

variable (lower : String → String) {s : SuperuserSettings} (hon : s.seedEnabled = true)
  (hset : [s.username, s.email, s.password].any isBlank = false) {h₁ h₂ : String} {now₁ now₂ : Nat}
include hon hset

/-- After an insert, the next run finds the inserted row under both keys and
    writes it back. -/
theorem seedSuperuser_after_insert (hu : db.getUserByUsername (pyStrip s.username) = none)
    (he : db.getUserByEmail (lower (pyStrip s.email)) = none) :
    (db.seedSuperuser lower s h₁ now₁).seedSuperuser lower s h₂ now₂ =
      db.seedSuperuser lower s (if s.updatePasswordOnStartup then h₂ else h₁) now₁ := by
  simp only [seedSuperuser_insert lower hon hset hu he]
  have hu₁ := find?_append_fresh (r := superuserRow (pyStrip s.fullName) (pyStrip s.username)
    (lower (pyStrip s.email)) h₁ (nextRowId (db.users.map (·.id))) now₁) hu (by simp [superuserRow])
  have he₁ := find?_append_fresh (r := superuserRow (pyStrip s.fullName) (pyStrip s.username)
    (lower (pyStrip s.email)) h₁ (nextRowId (db.users.map (·.id))) now₁) he (by simp [superuserRow])
  rw [seedSuperuser_promote lower hon hset (by simp [getUserByUsername, getUserByEmail, hu₁, he₁])
      (by simp only [getUserByUsername, getUserByEmail, hu₁, he₁]; rfl),
    saveUser_append_fresh fun x hx he => nextRowId_not_mem (db.users.map (·.id)) (List.mem_map.2 ⟨x, hx, he⟩)]
  · cases s.updatePasswordOnStartup <;> rfl
  · rfl

/-- After a promotion, the next run finds the promoted row where it found the
    user, and promotes it again. -/
theorem seedSuperuser_after_promote (hids : (db.users.map (·.id)).Nodup) {u : User}
    (hconf : ¬((db.getUserByUsername (pyStrip s.username)).isSome ∧
      (db.getUserByEmail (lower (pyStrip s.email))).isSome ∧
      (db.getUserByUsername (pyStrip s.username)).map (·.id) ≠
        (db.getUserByEmail (lower (pyStrip s.email))).map (·.id)))
    (ht : ((db.getUserByUsername (pyStrip s.username)).orElse fun _ =>
      db.getUserByEmail (lower (pyStrip s.email))) = some u) :
    (db.seedSuperuser lower s h₁ now₁).seedSuperuser lower s h₂ now₂ =
      db.seedSuperuser lower s (if s.updatePasswordOnStartup then h₂ else h₁) now₁ := by
  have hu : u ∈ db.users := by
    cases hb : db.getUserByUsername (pyStrip s.username) <;> simp only [hb, Option.orElse] at ht
    · exact List.mem_of_find?_eq_some ht
    · exact List.mem_of_find?_eq_some (Option.some_injective _ ht ▸ hb)
  simp only [seedSuperuser_promote lower hon hset hconf ht]
  generalize hw : ({ u with
      role := .admin, status := .verified,
      passwordHash := if s.updatePasswordOnStartup then h₁ else u.passwordHash } : User) = w
  have hwid : w.id = u.id := hw ▸ rfl
  have hfid : (User.id ∘ fun x => if x.id = w.id then w else x) = User.id := funext fun x => by
    by_cases hx : x.id = w.id <;> simp [hx]
  have hu₁ := find?_saveUser hids hu hwid (p := (·.username = pyStrip s.username)) (hw ▸ rfl)
  have he₁ := find?_saveUser hids hu hwid (p := (·.email = lower (pyStrip s.email))) (hw ▸ rfl)
  simp only [getUserByUsername, getUserByEmail] at ht
  rw [seedSuperuser_promote (u := w) lower hon hset
      (by simpa only [getUserByUsername, getUserByEmail, hu₁, he₁, Option.isSome_map', Option.map_map, hfid]
        using hconf)
      (by simp [getUserByUsername, getUserByEmail, hu₁, he₁, orElse_map, ht, hwid]),
    saveUser_saveUser, ← hw]
  · cases s.updatePasswordOnStartup <;> rfl
  · rfl

end Again

/-- The seeder at the next startup finds only what the last one left: running it
    twice is running it once, the second run's hash replacing the first's only
    when the password is re-hashed on startup. -/
theorem seed_superuser_twice (lower : String → String) (s : SuperuserSettings) (h₁ h₂ : String)
    (now₁ now₂ : Nat) (hids : (db.users.map (·.id)).Nodup) :
    (db.seedSuperuser lower s h₁ now₁).seedSuperuser lower s h₂ now₂ =
      db.seedSuperuser lower s (if s.updatePasswordOnStartup then h₂ else h₁) now₁ := by
  by_cases hgate : s.seedEnabled = true ∧ [s.username, s.email, s.password].any isBlank = false
  swap
  · simp only [seedSuperuser_closed lower hgate]
  obtain ⟨hon, hset⟩ := hgate
  by_cases hconf : (db.getUserByUsername (pyStrip s.username)).isSome ∧
      (db.getUserByEmail (lower (pyStrip s.email))).isSome ∧
      (db.getUserByUsername (pyStrip s.username)).map (·.id) ≠
        (db.getUserByEmail (lower (pyStrip s.email))).map (·.id)
  · simp only [seedSuperuser_conflict lower hon hset hconf]
  cases ht : (db.getUserByUsername (pyStrip s.username)).orElse fun _ =>
      db.getUserByEmail (lower (pyStrip s.email)) with
  | none =>
    cases hu : db.getUserByUsername (pyStrip s.username) with
    | none => exact seedSuperuser_after_insert lower hon hset hu (by simpa [hu, Option.orElse] using ht)
    | some _ => simp [hu, Option.orElse] at ht
  | some u => exact seedSuperuser_after_promote lower hon hset hids hconf ht

/-- Seeding settings with the password re-hashed at every startup. -/
def exampleSuperuser : SuperuserSettings :=
  { seedEnabled := true, fullName := " Admin ", username := "admin ", email := " Admin@TechPulse.local",
    password := "S3cret!", updatePasswordOnStartup := true }

theorem example_seed_twice :
    (exampleAccounts.users.map (·.id)).Nodup ∧
      (exampleAccounts.seedSuperuser pyLower exampleSuperuser "h1" 1).seedSuperuser pyLower exampleSuperuser "h2" 2 =
        exampleAccounts.seedSuperuser pyLower exampleSuperuser
          (if exampleSuperuser.updatePasswordOnStartup then "h2" else "h1") 1 :=
  ⟨by decide, seed_superuser_twice pyLower exampleSuperuser "h1" "h2" 1 2 (by decide)⟩

/-! ### A registered e-mail taken over by the seeder -/

/-- What a registration that succeeds inserts: a row under the next id, with the
    username and e-mail that no earlier row holds and the hash of the password. -/
theorem createUser_row {sec : Security} {n u e p : String} {now : Nat} {r : User × AccountDb}
    (h : sec.createUser n u e p now db = .ok r) :
    r.2 = { db with users := db.users ++ [r.1] } ∧ r.1.id = nextRowId (db.users.map (·.id)) ∧
      r.1.username = u ∧ r.1.email = e ∧ r.1.passwordHash = sec.hashPassword p ∧
      db.getUserByUsername u = none ∧ db.getUserByEmail e = none := by
  unfold Security.createUser at h
  obtain ⟨_, -, h⟩ := Except.bind_eq_ok h
  split at h
  · next heq =>
    unfold addUser at heq
    obtain ⟨hu, heq⟩ := Except.ite_throw_eq_ok heq
    obtain ⟨he, heq⟩ := Except.ite_throw_eq_ok heq
    cases heq
    cases h
    simp only [List.any_eq_true, decide_eq_true_eq, not_exists, not_and] at hu he
    exact ⟨rfl, rfl, rfl, rfl, rfl, List.find?_eq_none.2 fun x hx => by simpa using hu x hx,
      List.find?_eq_none.2 fun x hx => by simpa using he x hx⟩
  all_goals cases h

/-- A verified user that the username finds, logging in with a password its hash
    accepts, is returned with its id and role (and the hash the check kept). -/
theorem authenticateUser_of_found {verifyPassword : String → String → Option String}
    {username password vh : String} {u : User} (hname : pyStrip username = username) (hne : username ≠ "")
    (hpw : password ≠ "") (hfound : db.getUserByUsername username = some u)
    (hvh : verifyPassword u.passwordHash password = some vh) (hver : u.status = .verified) :
    ∃ v db', db.authenticateUser verifyPassword username password = .ok (v, db') ∧
      v.id = u.id ∧ v.role = u.role := by
  simp only [authenticateUser, hname, hfound, hvh, hpw, hver, (String.isEmpty_iff _).not.2 hne,
    Bool.false_eq_true, ne_eq, not_true_eq_false, if_false]
  exact ⟨_, _, rfl, by split_ifs <;> rfl, by split_ifs <;> rfl⟩

/-- A registration of the configured e-mail, while nobody holds the configured
    username, is what the next seeder run finds, and promotes. -/
theorem seedSuperuser_registered (lower : String → String) {s : SuperuserSettings}
    (hon : s.seedEnabled = true) (hset : [s.username, s.email, s.password].any isBlank = false)
    (hkeep : s.updatePasswordOnStartup = false) (hfree : db.getUserByUsername (pyStrip s.username) = none)
    {sec : Security} {fullName username password : String} {now : Nat} {r : User × AccountDb}
    (hreg : sec.createUser fullName username (lower (pyStrip s.email)) password now db = .ok r)
    (hash : String) (now' : Nat) :
    r.2.seedSuperuser lower s hash now' = r.2.saveUser { r.1 with role := .admin, status := .verified } := by
  obtain ⟨hdb, -, -, hemail, -, -, he₀⟩ := createUser_row hreg
  -- the configured e-mail now finds the new row, and the configured username it or nobody
  have he₁ : r.2.getUserByEmail (lower (pyStrip s.email)) = some r.1 := by
    rw [hdb]
    exact find?_append_fresh he₀ (by simp [hemail])
  have hu₁ : r.2.getUserByUsername (pyStrip s.username) = none ∨
      r.2.getUserByUsername (pyStrip s.username) = some r.1 := by
    unfold getUserByUsername at hfree ⊢
    rw [hdb, List.find?_append, hfree]
    by_cases hr : r.1.username = pyStrip s.username <;> simp [hr]
  rw [seedSuperuser_promote (u := r.1) lower hon hset (by rcases hu₁ with h | h <;> simp [h, he₁])
    (by rcases hu₁ with h | h <;> simp [h, he₁, Option.orElse]), hkeep]
  rfl

/-- The seeder trusts the account that holds the configured e-mail. Someone who
    registers that e-mail before the superuser exists (the configured username
    free) is, at the next startup, marked verified and made an admin without ever
    proving they own the address; unless the password is re-hashed on startup,
    they then log in with the password they chose, and the login returns an admin. -/
theorem registered_superuser_email_becomes_admin {sec : Security}
    {verifyPassword : String → String → Option String}
    (hverify : ∀ p, (verifyPassword (sec.hashPassword p) p).isSome) (lower : String → String)
    {s : SuperuserSettings} (hon : s.seedEnabled = true)
    (hset : [s.username, s.email, s.password].any isBlank = false)
    (hkeep : s.updatePasswordOnStartup = false) (hids : (db.users.map (·.id)).Nodup)
    (hfree : db.getUserByUsername (pyStrip s.username) = none) {fullName username password : String}
    {now : Nat} {r : User × AccountDb}
    (hreg : sec.createUser fullName username (lower (pyStrip s.email)) password now db = .ok r)
    (hname : pyStrip username = username) (hne : username ≠ "") (hpw : password ≠ "")
    (hash : String) (now' : Nat) :
    ∃ u db', (r.2.seedSuperuser lower s hash now').authenticateUser verifyPassword username password =
      .ok (u, db') ∧ u.id = r.1.id ∧ u.role = .admin := by
  obtain ⟨hdb, hid, huser, -, hhash, hu₀, -⟩ := createUser_row hreg
  have hmem : r.1 ∈ r.2.users := hdb ▸ List.mem_append_right _ (List.mem_singleton_self _)
  have hids₁ : (r.2.users.map (·.id)).Nodup := by
    rw [hdb, List.map_append, List.map_singleton, ← List.concat_eq_append, hid]
    exact hids.concat (nextRowId_not_mem _)
  -- the login finds the promoted row under the username it was registered with
  have hr : r.2.getUserByUsername username = some r.1 := by
    rw [hdb]
    exact find?_append_fresh hu₀ (by simp [huser])
  have hlogin : (r.2.saveUser { r.1 with role := .admin, status := .verified }).getUserByUsername username =
      some { r.1 with role := .admin, status := .verified } := by
    unfold getUserByUsername at hr ⊢
    rw [find?_saveUser (w := { r.1 with role := .admin, status := .verified })
      (p := (·.username = username)) hids₁ hmem rfl rfl, hr]
    simp
  obtain ⟨vh, hvh⟩ := Option.isSome_iff_exists.1 (hverify password)
  rw [seedSuperuser_registered lower hon hset hkeep hfree hreg]
  exact authenticateUser_of_found hname hne hpw hlogin (hhash ▸ hvh) rfl

/-- A password check against the identity hash of `exampleSecurity`. -/
def exampleVerify (hash password : String) : Option String := if hash = password then some hash else none

/-- \`exampleSuperuser\` keeping the passwords it finds. -/
def exampleKeepingSuperuser : SuperuserSettings := { exampleSuperuser with updatePasswordOnStartup := false }

/-- Someone registering the superuser's e-mail at time 5. -/
def exampleTakeover : User × AccountDb :=
  ((exampleSecurity.createUser "Mallory" "mallory" "admin@techpulse.local" "hunter22" 5 exampleAccounts).toOption).getD
    (superuserRow "" "" "" "" 0 0, exampleAccounts)

theorem example_registered_email_promoted :
    ∃ u db', (exampleTakeover.2.seedSuperuser pyLower exampleKeepingSuperuser "h1" 9).authenticateUser
      exampleVerify "mallory" "hunter22" = .ok (u, db') ∧
      u.id = exampleTakeover.1.id ∧ u.role = .admin :=
  registered_superuser_email_becomes_admin (s := exampleKeepingSuperuser)
    (fun p => by simp [exampleVerify, exampleSecurity]) pyLower rfl (by decide) rfl (by decide) (by decide)
    (show exampleSecurity.createUser "Mallory" "mallory" (pyLower (pyStrip exampleKeepingSuperuser.email))
      "hunter22" 5 exampleAccounts = .ok exampleTakeover from rfl) (by decide) (by decide) (by decide) "h1" 9

end AccountDb

end TechPulse
