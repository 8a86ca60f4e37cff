import TechPulse.Accounts

/-!
# Refresh sessions

`app/services/auth_service.py` (`verify_user_account`, `create_session`,
`reset_password`, `rotate_session`, `revoke_session`) and
`UserService.create_user`, called one at a time against the account tables. A
call is its `with self.uow` block; the checks it makes before the block read no
table and are folded into it. A refresh token is drawn by
`secrets.token_urlsafe(32)`, handed to the client, and stored only as its
SHA-256; `rotate_session` swaps the stored hash for the hash of a new token.

`SessionsStep` says once what a committed call can do to the session rows, and
every invariant below is derived from it and lifted to whole runs by
`Reaches.inv`:

* `refresh_token_single_use`: once `rotate_session` has accepted a token, every
  later state rejects it, as long as no token drawn afterwards has its hash;
* `reset_password_revokes_prior_sessions`: after `reset_password`, no session the
  user held before it is accepted again;
* `rotation_within_lifetime`: rotation never moves `expires_at`, so a chain of
  rotations ends `REFRESH_TOKEN_EXPIRE_DAYS` after the session was created.
-/

namespace TechPulse

/-- `settings.REFRESH_TOKEN_EXPIRE_DAYS`. -/
def REFRESH_TOKEN_EXPIRE_DAYS : Nat := 14

/-- `timedelta(days=settings.REFRESH_TOKEN_EXPIRE_DAYS)`, in seconds. -/
def refreshTokenLifetime : Nat := REFRESH_TOKEN_EXPIRE_DAYS * 86400

/-- The functions of `hashlib`, `app.core.hashing` and `app.core.security` the
    calls use. The last two modules are not among the sources, so each function
    is a parameter, read as the call sites use it: `sha256` is the hex digest of
    a string's UTF-8 bytes, `getEmailUser` and `getPasswordResetUser` decode a
    token to the user id it names (with the expiry of a reset token) or refuse
    it. -/
structure Security where
  sha256 : String → String
  hashPassword : String → String
  validatePasswordStrength : String → Except Err Unit
  getEmailUser : String → Option Nat
  getPasswordResetUser : String → Except Err (Nat × Nat)

/-- `needle in hay` on strings. -/
def pyContains (hay needle : String) : Bool := hay.data.tails.any (needle.data.isPrefixOf ·)

/-- Python's `a or b` on an optional string: `b` when `a` is `None` or empty. -/
def pyOr (a b : Option String) : Option String :=
  match a with
  | some x => if x = "" then b else a
  | none => b

/-- `UserService._map_user_integrity_error`, on SQLite's message for a unique
    constraint, lowered. -/
def mapUserIntegrityError (constraint : String) : Err :=
  let message := pyLower ("UNIQUE constraint failed: " ++ constraint)
  if pyContains message "username" then .conflict "Username already exists."
  else if pyContains message "email" then .conflict "Email already exists."
  else .conflict "Username or email already exists."

namespace Security

/-- `AuthService._hash_refresh_token`. -/
def hashRefreshToken (sec : Security) (refreshToken : String) : String := sec.sha256 refreshToken

/-- `UserService.create_user`. -/
def createUser (sec : Security) (fullName username email password : String) (now : Nat)
    (db : AccountDb) : Except Err (User × AccountDb) := do
  sec.validatePasswordStrength password
  match db.addUser fullName username email (sec.hashPassword password) now with
  | .ok r => return r
  | .error (.integrity c) => throw (mapUserIntegrityError c)
  | .error e => throw e

/-- `verify_user_account`. -/
def verifyUserAccount (sec : Security) (token : String) (db : AccountDb) :
    Except Err (Unit × AccountDb) := do
  let some userId := sec.getEmailUser token | throw (.validation "Invalid token")
  let some u := db.getUserById userId | throw (.validation "No account associated with user")
  return ((), db.saveUser { u with status := .verified })

/-- `create_session`: the new row expires `REFRESH_TOKEN_EXPIRE_DAYS` after now;
    its id is the one the insert gives it. -/
def createSession (sec : Security) (userId : Nat) (userAgent ipAddress : Option String)
    (refreshToken : String) (now : Nat) (db : AccountDb) :
    Except Err ((String × UserSession) × AccountDb) := do
  let (s, db) ← db.addSession
    { id := 0, userId, refreshTokenHash := sec.hashRefreshToken refreshToken, createdAt := now,
      lastUsedAt := none, expiresAt := now + refreshTokenLifetime, revokedAt := none, userAgent,
      ipAddress }
  return ((refreshToken, s), db)

/-- `reset_password`; `consumed` is what `consume_password_reset_token` answers. -/
def resetPassword (sec : Security) (token newPassword confirmPassword : String) (consumed : Bool)
    (now : Nat) (db : AccountDb) : Except Err (Unit × AccountDb) := do
  if newPassword ≠ confirmPassword then throw (.validation "Passwords do not match")
  sec.validatePasswordStrength newPassword
  let (userId, _) ← sec.getPasswordResetUser token
  if !consumed then throw (.validation "Reset token has already been used")
  let some u := db.getUserById userId | throw (.validation "Invalid token")
  return ((), (db.saveUser { u with passwordHash := sec.hashPassword newPassword }).revokeUserSessions
    u.id now)

/-- The row `rotate_session` writes back: the new token's hash, the time of use,
    and the client's user agent and address unless it sent none. -/
def rotated (sec : Security) (s : UserSession) (userAgent ipAddress : Option String)
    (newRefresh : String) (now : Nat) : UserSession :=
  { s with refreshTokenHash := sec.hashRefreshToken newRefresh, lastUsedAt := some now,
           userAgent := pyOr userAgent s.userAgent, ipAddress := pyOr ipAddress s.ipAddress }

/-- The reads of `rotate_session` and their checks: the row holding the
    presented hash, live and unexpired, and its user, verified. -/
def rotateRead (sec : Security) (refreshToken : String) (now : Nat) (db : AccountDb) :
    Except Err (UserSession × User) := do
  let some s ← db.getByRefreshHash (sec.hashRefreshToken refreshToken)
    | throw (.validation "Invalid or expired session")
  if s.revokedAt.isSome ∨ s.expiresAt ≤ now then throw (.validation "Invalid or expired session")
  let some user := db.getUserById s.userId | throw (.notFound "User not found")
  if user.status ≠ .verified then throw (.validation "Email not approved")
  return (s, user)

/-- `rotate_session`. It returns the user, for whom `create_login_token` makes the
    access token, and the new refresh token. The commit's `UPDATE` fails on the
    unique index when another row holds the new hash. -/
def rotateSession (sec : Security) (refreshToken : String) (userAgent ipAddress : Option String)
    (newRefresh : String) (now : Nat) (db : AccountDb) : Except Err ((User × String) × AccountDb) := do
  let (s, user) ← sec.rotateRead refreshToken now db
  let s' := sec.rotated s userAgent ipAddress newRefresh now
  if db.sessions.any (fun x => x.id ≠ s.id ∧ x.refreshTokenHash = s'.refreshTokenHash) then
    throw (.integrity "user_sessions.refresh_token_hash")
  return ((user, newRefresh), db.saveSession s')

/-- `revoke_session`: an unknown token is ignored. -/
def revokeSession (sec : Security) (refreshToken : String) (now : Nat) (db : AccountDb) :
    Except Err (Unit × AccountDb) := do
  match ← db.getByRefreshHash (sec.hashRefreshToken refreshToken) with
  | none => return ((), db)
  | some s => return ((), db.revokeSession s now)

end Security

/-! ### Calls -/

/-- A call of the account services, with what it draws: `create_session` and
    `rotate_session` draw a refresh token from `secrets.token_urlsafe(32)`, and
    `consumed` is what `consume_password_reset_token` answers. -/
inductive AuthCall where
  | createUser (fullName username email password : String)
  | verifyUserAccount (token : String)
  | createSession (userId : Nat) (userAgent ipAddress : Option String) (refreshToken : String)
  | rotateSession (refreshToken : String) (userAgent ipAddress : Option String) (newRefresh : String)
  | revokeSession (refreshToken : String)
  | resetPassword (token newPassword confirmPassword : String) (consumed : Bool)
deriving DecidableEq, Repr

/-- The refresh tokens a call draws. -/
def AuthCall.drawn : AuthCall → List String
  | .createSession _ _ _ t | .rotateSession _ _ _ t => [t]
  | _ => []

/-- What a call returns. -/
inductive AuthReply where
  | user (u : User)
  | session (refreshToken : String) (s : UserSession)
  | rotated (u : User) (newRefresh : String)
  | unit
deriving DecidableEq, Repr

namespace Security

/-- The block of a call at time `now`. -/
def block (sec : Security) (now : Nat) : AuthCall → AccountDb → Except Err (AuthReply × AccountDb)
  | .createUser n u e p, db => do
    let (x, db) ← sec.createUser n u e p now db
    return (.user x, db)
  | .verifyUserAccount t, db => do
    let (_, db) ← sec.verifyUserAccount t db
    return (.unit, db)
  | .createSession k ua ip t, db => do
    let ((t, s), db) ← sec.createSession k ua ip t now db
    return (.session t s, db)
  | .rotateSession t ua ip n, db => do
    let ((u, n), db) ← sec.rotateSession t ua ip n now db
    return (.rotated u n, db)
  | .revokeSession t, db => do
    let (_, db) ← sec.revokeSession t now db
    return (.unit, db)
  | .resetPassword t p p' c, db => do
    let (_, db) ← sec.resetPassword t p p' c now db
    return (.unit, db)

/-- A call at time `now`: its block, committed or rolled back. -/
def call (sec : Security) (now : Nat) (c : AuthCall) (db : AccountDb) : Except Err AuthReply × AccountDb :=
  AccountDb.atomically (sec.block now c) db

/-- The account states reached from `db` by calls that each satisfy `ok`, made
    one at a time, at any times. -/
inductive Reaches (sec : Security) (ok : AuthCall → Prop) (db : AccountDb) : AccountDb → Prop
  | refl : Reaches sec ok db db
  | tail {db' : AccountDb} (now : Nat) (c : AuthCall) :
      Reaches sec ok db db' → ok c → Reaches sec ok db (sec.call now c db').2

/-- A property that every allowed call keeps holds of every state reached. -/
theorem Reaches.inv {sec : Security} {ok : AuthCall → Prop} {P : AccountDb → Prop}
    {db db' : AccountDb} (h0 : P db)
    (hstep : ∀ now c db₁, ok c → P db₁ → P (sec.call now c db₁).2) (h : Reaches sec ok db db') :
    P db' := by
  induction h with
  | refl => exact h0
  | tail now c _ hc ih => exact hstep now c _ hc ih

end Security

/-! ### What each call does -/

namespace Security

variable {sec : Security} {now : Nat} {db db' : AccountDb}

@[simp] theorem rotated_id (s : UserSession) (ua ip : Option String) (n : String) (t : Nat) :
    (sec.rotated s ua ip n t).id = s.id := rfl
@[simp] theorem rotated_userId (s : UserSession) (ua ip : Option String) (n : String) (t : Nat) :
    (sec.rotated s ua ip n t).userId = s.userId := rfl
@[simp] theorem rotated_refreshTokenHash (s : UserSession) (ua ip : Option String) (n : String)
    (t : Nat) : (sec.rotated s ua ip n t).refreshTokenHash = sec.hashRefreshToken n := rfl
@[simp] theorem rotated_createdAt (s : UserSession) (ua ip : Option String) (n : String) (t : Nat) :
    (sec.rotated s ua ip n t).createdAt = s.createdAt := rfl
@[simp] theorem rotated_expiresAt (s : UserSession) (ua ip : Option String) (n : String) (t : Nat) :
    (sec.rotated s ua ip n t).expiresAt = s.expiresAt := rfl
@[simp] theorem rotated_revokedAt (s : UserSession) (ua ip : Option String) (n : String) (t : Nat) :
    (sec.rotated s ua ip n t).revokedAt = s.revokedAt := rfl

theorem createUser_sessions {n u e p : String} {r : User}
    (h : sec.createUser n u e p now db = .ok (r, db')) : db'.sessions = db.sessions := by
  unfold createUser at h
  obtain ⟨_, -, h⟩ := Except.bind_eq_ok h
  split at h
  · next heq =>
    obtain ⟨_, -, -, -, rfl⟩ := AccountDb.addUser_ok heq
    cases h
    rfl
  all_goals cases h

theorem verifyUserAccount_sessions {t : String} (h : sec.verifyUserAccount t db = .ok ((), db')) :
    db'.sessions = db.sessions := by
  unfold verifyUserAccount at h
  split at h
  · split at h
    · cases h; rfl
    · cases h
  · cases h

theorem createSession_ok {k : Nat} {ua ip : Option String} {t : String} {r : String × UserSession}
    (h : sec.createSession k ua ip t now db = .ok (r, db')) :
    ∃ s : UserSession, r = (t, s) ∧ db' = { db with sessions := db.sessions ++ [s] } ∧
      s.id ∉ db.sessions.map (·.id) ∧ s.userId = k ∧
      s.refreshTokenHash = sec.hashRefreshToken t ∧ s.createdAt = now ∧
      s.expiresAt = now + refreshTokenLifetime ∧ s.revokedAt = none ∧
      ∀ x ∈ db.sessions, x.refreshTokenHash ≠ s.refreshTokenHash := by
  unfold createSession at h
  obtain ⟨_, ha, h⟩ := Except.bind_eq_ok h
  obtain ⟨hfree, rfl⟩ := AccountDb.addSession_ok ha
  cases h
  exact ⟨_, rfl, rfl, nextRowId_not_mem _, rfl, rfl, rfl, rfl, rfl, hfree⟩

theorem resetPassword_ok {t p p' : String} {c : Bool}
    (h : sec.resetPassword t p p' c now db = .ok ((), db')) :
    ∃ userId exp u, sec.getPasswordResetUser t = .ok (userId, exp) ∧
      db.getUserById userId = some u ∧ u.id = userId ∧
      db' = (db.saveUser { u with passwordHash := sec.hashPassword p }).revokeUserSessions userId now := by
  unfold resetPassword at h
  obtain ⟨-, h⟩ := Except.ite_throw_eq_ok h
  obtain ⟨_, -, h⟩ := Except.bind_eq_ok h
  obtain ⟨⟨userId, exp⟩, hg, h⟩ := Except.bind_eq_ok h
  obtain ⟨-, h⟩ := Except.ite_throw_eq_ok h
  split at h
  · next u hu =>
    cases h
    have hid : u.id = userId := by simpa using List.find?_some hu
    exact ⟨userId, exp, u, hg, hu, hid, by rw [hid]⟩
  · cases h

/-- Reads that pass found exactly one row with the presented hash, live and
    unexpired, of a verified user. -/
theorem rotateRead_ok {t : String} {s : UserSession} {u : User}
    (h : sec.rotateRead t now db = .ok (s, u)) :
    db.sessions.filter (·.refreshTokenHash = sec.hashRefreshToken t) = [s] ∧
      s.revokedAt = none ∧ now < s.expiresAt ∧ db.getUserById s.userId = some u ∧
      u.status = .verified := by
  unfold rotateRead at h
  obtain ⟨o, ho, h⟩ := Except.bind_eq_ok h
  cases o with
  | none => cases h
  | some s =>
    obtain ⟨hc, h⟩ := Except.ite_throw_eq_ok h
    split at h
    · next u hu =>
      obtain ⟨hv, h⟩ := Except.ite_throw_eq_ok h
      cases h
      refine ⟨AccountDb.getByRefreshHash_some ho, ?_, by omega, hu, by simpa using hv⟩
      cases hr : s.revokedAt
      · rfl
      · simp [hr] at hc
    · cases h

/-- An accepted rotation passed its reads and wrote the row back with the new
    hash, which no other row holds. -/
theorem rotateSession_ok {t n : String} {ua ip : Option String} {r : User × String}
    (h : sec.rotateSession t ua ip n now db = .ok (r, db')) :
    ∃ s u, sec.rotateRead t now db = .ok (s, u) ∧
      (∀ x ∈ db.sessions, x.id ≠ s.id → x.refreshTokenHash ≠ sec.hashRefreshToken n) ∧
      r = (u, n) ∧ db' = db.saveSession (sec.rotated s ua ip n now) := by
  unfold rotateSession at h
  obtain ⟨⟨s, u⟩, hr, h⟩ := Except.bind_eq_ok h
  obtain ⟨hfree, h⟩ := Except.ite_throw_eq_ok h
  cases h
  exact ⟨s, u, hr, fun x hx hne e => hfree (List.any_eq_true.mpr ⟨x, hx, by simp [hne, e]⟩), rfl, rfl⟩

theorem rotateSession_of_rotateRead {t n : String} {ua ip : Option String} {e : Err}
    (h : sec.rotateRead t now db = .error e) : sec.rotateSession t ua ip n now db = .error e := by
  simp only [rotateSession, h]
  rfl

theorem rotateSession_of_unheld {t n : String} {ua ip : Option String}
    (hn : ∀ x ∈ db.sessions, x.refreshTokenHash ≠ sec.hashRefreshToken t) :
    sec.rotateSession t ua ip n now db = .error (.validation "Invalid or expired session") := by
  apply rotateSession_of_rotateRead
  simp only [rotateRead, AccountDb.getByRefreshHash_none hn]
  rfl

theorem rotateSession_of_revoked {t n : String} {ua ip : Option String} {s : UserSession}
    (hs : db.getByRefreshHash (sec.hashRefreshToken t) = .ok (some s)) (hr : s.revokedAt.isSome) :
    sec.rotateSession t ua ip n now db = .error (.validation "Invalid or expired session") := by
  apply rotateSession_of_rotateRead
  simp only [rotateRead, hs, bind, Except.bind, hr, true_or, if_true]

theorem revokeSession_ok {t : String} (h : sec.revokeSession t now db = .ok ((), db')) :
    db' = db ∨ ∃ s ∈ db.sessions, db' = db.revokeSession s now := by
  unfold revokeSession at h
  obtain ⟨o, ho, h⟩ := Except.bind_eq_ok h
  cases o with
  | none => cases h; exact .inl rfl
  | some s =>
    cases h
    exact .inr ⟨s, (AccountDb.mem_of_filter_singleton (AccountDb.getByRefreshHash_some ho)).1, rfl⟩

/-- A rotation that its block refuses is refused by the call. -/
theorem call_rotateSession_of_error {t n : String} {ua ip : Option String} {e : Err}
    (h : sec.rotateSession t ua ip n now db = .error e) :
    (sec.call now (.rotateSession t ua ip n) db).1 = .error e := by
  simp only [call, AccountDb.atomically, block, h]
  rfl

end Security

/-! ### What a call can do to the session rows -/

/-- What a committed call can do to the session rows: nothing; insert a live row
    under a new id that expires a lifetime after its creation and holds the hash
    of a token the call draws, which no row holds; give one row the hash of a
    drawn token that no other row holds (`rotate_session`); revoke one row; or
    revoke every live row of one user. -/
inductive SessionsStep (sec : Security) (c : AuthCall) (db db' : AccountDb) : Prop
  | keep : db'.sessions = db.sessions → SessionsStep sec c db db'
  | insert (s : UserSession) (g : String) : g ∈ c.drawn → db'.sessions = db.sessions ++ [s] →
      s.id ∉ db.sessions.map (·.id) → s.refreshTokenHash = sec.hashRefreshToken g →
      s.revokedAt = none → s.expiresAt = s.createdAt + refreshTokenLifetime →
      (∀ x ∈ db.sessions, x.refreshTokenHash ≠ s.refreshTokenHash) → SessionsStep sec c db db'
  | rehash (s : UserSession) (ua ip : Option String) (g : String) (t : Nat) : g ∈ c.drawn →
      s ∈ db.sessions → (∀ x ∈ db.sessions, x.id ≠ s.id → x.refreshTokenHash ≠ sec.hashRefreshToken g) →
      db'.sessions = (db.saveSession (sec.rotated s ua ip g t)).sessions → SessionsStep sec c db db'
  | revoke (s : UserSession) (t : Nat) : s ∈ db.sessions →
      db'.sessions = (db.revokeSession s t).sessions → SessionsStep sec c db db'
  | revokeUser (u t : Nat) : db'.sessions = (db.revokeUserSessions u t).sessions →
      SessionsStep sec c db db'

/-- Every call is a `SessionsStep`. -/
theorem Security.sessionsStep_call (sec : Security) (now : Nat) (c : AuthCall) (db : AccountDb) :
    SessionsStep sec c db (sec.call now c db).2 := by
  unfold Security.call AccountDb.atomically
  split
  case h_2 => exact .keep rfl
  case h_1 a db' hb =>
  cases c with
  | createUser n u e p =>
    obtain ⟨⟨x, db₁⟩, h, hr⟩ := Except.bind_eq_ok hb
    cases hr
    exact .keep (Security.createUser_sessions h)
  | verifyUserAccount t =>
    obtain ⟨⟨x, db₁⟩, h, hr⟩ := Except.bind_eq_ok hb
    cases hr
    exact .keep (Security.verifyUserAccount_sessions h)
  | createSession k ua ip t =>
    obtain ⟨⟨r, db₁⟩, h, hr⟩ := Except.bind_eq_ok hb
    obtain ⟨s, rfl, rfl, hid, -, hh, hc, he, hrv, hfree⟩ := Security.createSession_ok h
    cases hr
    exact .insert s t (List.mem_singleton_self t) rfl hid hh hrv (by rw [he, hc]) hfree
  | rotateSession t ua ip n =>
    obtain ⟨⟨⟨u, n'⟩, db₁⟩, h, hr⟩ := Except.bind_eq_ok hb
    cases hr
    obtain ⟨s, u, hr, hfree, -, rfl⟩ := Security.rotateSession_ok h
    exact .rehash s ua ip n now (List.mem_singleton_self n)
      (AccountDb.mem_of_filter_singleton (Security.rotateRead_ok hr).1).1 hfree rfl
  | revokeSession t =>
    obtain ⟨⟨x, db₁⟩, h, hr⟩ := Except.bind_eq_ok hb
    cases hr
    rcases Security.revokeSession_ok h with rfl | ⟨s, hs, rfl⟩
    · exact .keep rfl
    · exact .revoke s now hs rfl
  | resetPassword t p p' c =>
    obtain ⟨⟨x, db₁⟩, h, hr⟩ := Except.bind_eq_ok hb
    cases hr
    obtain ⟨userId, -, -, -, -, -, rfl⟩ := Security.resetPassword_ok h
    exact .revokeUser userId now rfl

/-! ### Invariants of the session rows -/

/-- `x` is row `y` after a call: same id, owner, creation and expiry, and still
    revoked if `y` was. -/
structure UserSession.Descends (y x : UserSession) : Prop where
  id : x.id = y.id
  userId : x.userId = y.userId
  createdAt : x.createdAt = y.createdAt
  expiresAt : x.expiresAt = y.expiresAt
  revoked : y.revokedAt.isSome → x.revokedAt.isSome

theorem UserSession.Descends.refl (x : UserSession) : x.Descends x := ⟨rfl, rfl, rfl, rfl, fun h => h⟩

namespace SessionsStep

variable {sec : Security} {c : AuthCall} {db db' : AccountDb}

/-- Every row after a call descends from a row before it, keeping its hash or
    taking the hash of a drawn token, or is the live row the call inserted. -/
theorem mem (hs : SessionsStep sec c db db') {x : UserSession} (hx : x ∈ db'.sessions) :
    (∃ y ∈ db.sessions, y.Descends x ∧
      (x.refreshTokenHash = y.refreshTokenHash ∨ ∃ g ∈ c.drawn, x.refreshTokenHash = sec.hashRefreshToken g)) ∨
    (x.id ∉ db.sessions.map (·.id) ∧ x.revokedAt = none ∧
      x.expiresAt = x.createdAt + refreshTokenLifetime ∧
      ∃ g ∈ c.drawn, x.refreshTokenHash = sec.hashRefreshToken g) := by
  cases hs with
  | keep e => rw [e] at hx; exact .inl ⟨x, hx, .refl x, .inl rfl⟩
  | insert s g hg e hid hh hrv hlife _ =>
    rw [e, List.mem_append, List.mem_singleton] at hx
    rcases hx with hx | rfl
    · exact .inl ⟨x, hx, .refl x, .inl rfl⟩
    · exact .inr ⟨hid, hrv, hlife, g, hg, hh⟩
  | rehash s ua ip g t hg hs _ e =>
    rw [e] at hx
    rcases AccountDb.mem_saveSession hx with rfl | ⟨hx, -⟩
    · exact .inl ⟨s, hs, ⟨rfl, rfl, rfl, rfl, by simp⟩, .inr ⟨g, hg, rfl⟩⟩
    · exact .inl ⟨x, hx, .refl x, .inl rfl⟩
  | revoke s t hs e =>
    rw [e] at hx
    rcases AccountDb.mem_saveSession hx with rfl | ⟨hx, -⟩
    · exact .inl ⟨s, hs, ⟨rfl, rfl, rfl, rfl, fun _ => rfl⟩, .inl rfl⟩
    · exact .inl ⟨x, hx, .refl x, .inl rfl⟩
  | revokeUser u t e =>
    rw [e] at hx
    obtain ⟨y, hy, rfl | rfl, -⟩ := AccountDb.mem_revokeUserSessions hx
    · exact .inl ⟨_, hy, .refl _, .inl rfl⟩
    · exact .inl ⟨y, hy, ⟨rfl, rfl, rfl, rfl, fun _ => rfl⟩, .inl rfl⟩

/-- No row disappears. -/
theorem ids_subset (hs : SessionsStep sec c db db') {i : Nat} (hi : i ∈ db.sessions.map (·.id)) :
    i ∈ db'.sessions.map (·.id) := by
  cases hs with
  | keep e => rwa [e]
  | insert s _ _ e => rw [e, List.map_append]; exact List.mem_append_left _ hi
  | rehash _ _ _ _ _ _ _ _ e => rw [e, AccountDb.saveSession_ids]; exact hi
  | revoke _ _ _ e => rw [e, AccountDb.revokeSession, AccountDb.saveSession_ids]; exact hi
  | revokeUser _ _ e => rw [e, AccountDb.revokeUserSessions_ids]; exact hi

/-- The unique keys hold after every call. -/
theorem wf (hs : SessionsStep sec c db db') (hwf : db.WF) : db'.WF := by
  cases hs with
  | keep e => exact hwf.congr e
  | insert s _ _ e hid _ _ _ hfree => exact (hwf.append hid hfree).congr e
  | rehash s ua ip g t _ _ hfree e => exact (hwf.saveSession_rehash (by simpa using hfree)).congr e
  | revoke s t hs e =>
    rw [AccountDb.revokeSession] at e
    exact AccountDb.WF.congr e (hwf.saveSession_rehash fun x hx hid => by
      simpa using hwf.hash_ne hs hx hid)
  | revokeUser u t e => exact (hwf.revokeUserSessions u t).congr e

end SessionsStep

namespace AccountDb

/-- No row holds hash `h`. -/
def Unheld (db : AccountDb) (h : String) : Prop := ∀ x ∈ db.sessions, x.refreshTokenHash ≠ h

/-- Every row expires `REFRESH_TOKEN_EXPIRE_DAYS` after its creation. -/
def Lifetimes (db : AccountDb) : Prop :=
  ∀ x ∈ db.sessions, x.expiresAt = x.createdAt + refreshTokenLifetime

/-- The rows with ids `ids` are all still there, and those of user `u` are revoked. -/
def RevokedAmong (db : AccountDb) (u : Nat) (ids : List Nat) : Prop :=
  (∀ i ∈ ids, i ∈ db.sessions.map (·.id)) ∧
    ∀ x ∈ db.sessions, x.userId = u → x.id ∈ ids → x.revokedAt.isSome

end AccountDb

namespace SessionsStep

variable {sec : Security} {c : AuthCall} {db db' : AccountDb}

theorem unheld (hs : SessionsStep sec c db db') {h : String}
    (hd : ∀ g ∈ c.drawn, sec.hashRefreshToken g ≠ h) (hu : db.Unheld h) : db'.Unheld h := by
  intro x hx
  rcases hs.mem hx with ⟨y, hy, -, e | ⟨g, hg, e⟩⟩ | ⟨-, -, -, g, hg, e⟩
  · exact e ▸ hu y hy
  all_goals exact e ▸ hd g hg

theorem lifetimes (hs : SessionsStep sec c db db') (hl : db.Lifetimes) : db'.Lifetimes := by
  intro x hx
  rcases hs.mem hx with ⟨y, hy, hxy, -⟩ | ⟨-, -, e, -⟩
  · rw [hxy.expiresAt, hxy.createdAt, hl y hy]
  · exact e

theorem revokedAmong (hs : SessionsStep sec c db db') {u : Nat} {ids : List Nat}
    (hr : db.RevokedAmong u ids) : db'.RevokedAmong u ids := by
  refine ⟨fun i hi => hs.ids_subset (hr.1 i hi), fun x hx hu hi => ?_⟩
  rcases hs.mem hx with ⟨y, hy, hxy, -⟩ | ⟨hnew, -⟩
  · exact hxy.revoked (hr.2 y hy (hxy.userId ▸ hu) (hxy.id ▸ hi))
  · exact absurd (hr.1 _ hi) hnew

end SessionsStep

/-! ### Runs -/

/-- A stand-in for the security module: the identity as hash, every password
    strong, and every token naming user 1. -/
def exampleSecurity : Security := ⟨id, id, fun _ => pure (), fun _ => some 1, fun _ => .ok (1, 0)⟩

/-- User 1, verified, with one session opened at time 0 under the token `t0`. -/
def exampleAccounts : AccountDb :=
  (exampleSecurity.call 0 (.createSession 1 none none "t0")
    ⟨[{ id := 1, fullName := "user", username := "user1", email := "user1@techpulse.local",
        passwordHash := "h", status := .verified, role := .user,
        verificationEmailLastSentAt := some 0, verificationEmailRetryCount := 0,
        verificationEmailNextRetryAt := none, verificationEmailLastError := none, createdAt := 0 }],
      []⟩).2

/-- The session row of `exampleAccounts`. -/
def exampleSession : UserSession :=
  { id := 1, userId := 1, refreshTokenHash := "t0", createdAt := 0, lastUsedAt := none,
    expiresAt := refreshTokenLifetime, revokedAt := none, userAgent := none, ipAddress := none }

namespace Security

variable {sec : Security} {now : Nat} {db db' : AccountDb}

/-- A rotation that the call accepts is one its block accepts. -/
theorem call_rotateSession_ok {t n : String} {ua ip : Option String} {r : AuthReply}
    (h : sec.call now (.rotateSession t ua ip n) db = (.ok r, db')) :
    ∃ u, sec.rotateSession t ua ip n now db = .ok ((u, n), db') := by
  unfold call AccountDb.atomically at h
  split at h
  · next a db₁ hb =>
    cases h
    obtain ⟨⟨⟨u, n'⟩, db₂⟩, hr, e⟩ := Except.bind_eq_ok hb
    obtain ⟨_, _, -, -, hun, -⟩ := rotateSession_ok hr
    cases hun
    cases e
    exact ⟨u, hr⟩
  · cases h

/-- The call at a reset accepted by its block. -/
theorem call_resetPassword_ok {t p p' : String} {c : Bool} {r : AuthReply}
    (h : sec.call now (.resetPassword t p p' c) db = (.ok r, db')) :
    sec.resetPassword t p p' c now db = .ok ((), db') := by
  unfold call AccountDb.atomically at h
  split at h
  · next a db₁ hb =>
    cases h
    obtain ⟨⟨x, db₂⟩, hr, e⟩ := Except.bind_eq_ok hb
    cases e
    exact hr
  · cases h

/-- After an accepted rotation no row holds the presented hash: the only row
    that held it now holds the new token's. -/
theorem rotateSession_unheld {t n : String} {ua ip : Option String} {r : User × String}
    (h : sec.rotateSession t ua ip n now db = .ok (r, db'))
    (hn : sec.hashRefreshToken n ≠ sec.hashRefreshToken t) : db'.Unheld (sec.hashRefreshToken t) := by
  obtain ⟨s, _, hr, -, -, rfl⟩ := rotateSession_ok h
  have hf := (rotateRead_ok hr).1
  intro x hx e
  rcases AccountDb.mem_saveSession hx with rfl | ⟨hx, hid⟩
  · exact hn e
  · exact hid (congrArg (·.id) (AccountDb.eq_of_filter_singleton hf hx e))

end Security

/-- **A refresh token is used once.** Once `rotate_session` has accepted `t`,
    every state reached afterwards refuses `t`, as long as neither the token
    drawn by that rotation nor any drawn later hashes like `t`. -/
theorem refresh_token_single_use {sec : Security} {now : Nat} {t n : String}
    {ua ip : Option String} {db db₁ db₂ : AccountDb} {r : AuthReply}
    (hacc : sec.call now (.rotateSession t ua ip n) db = (.ok r, db₁))
    (hn : sec.hashRefreshToken n ≠ sec.hashRefreshToken t)
    (hrun : sec.Reaches (fun c => ∀ g ∈ c.drawn, sec.hashRefreshToken g ≠ sec.hashRefreshToken t)
      db₁ db₂)
    (now' : Nat) (ua' ip' : Option String) (n' : String) :
    (sec.call now' (.rotateSession t ua' ip' n') db₂).1 =
      .error (.validation "Invalid or expired session") := by
  obtain ⟨_, hr⟩ := Security.call_rotateSession_ok hacc
  have h₂ : db₂.Unheld (sec.hashRefreshToken t) :=
    hrun.inv (Security.rotateSession_unheld hr hn) fun now c db₁ hc hu =>
      (sec.sessionsStep_call now c db₁).unheld hc hu
  exact Security.call_rotateSession_of_error (Security.rotateSession_of_unheld h₂)

/-- `t0` is rotated to `t1` at time 10; presented again at time 20, it is refused. -/
theorem refresh_token_reuse_refused :
    (exampleSecurity.call 20 (.rotateSession "t0" none none "t2")
      (exampleSecurity.call 10 (.rotateSession "t0" none none "t1") exampleAccounts).2).1 =
      .error (.validation "Invalid or expired session") :=
  refresh_token_single_use
    (show exampleSecurity.call 10 (.rotateSession "t0" none none "t1") exampleAccounts = (.ok _, _)
      from rfl) (by decide) .refl 20 none none "t2"

/-- **A password reset ends the user's sessions.** After `reset_password` has
    reset the password of the user its token names, `rotate_session` refuses
    every session that user held before the reset, in every state reached
    afterwards. -/
theorem reset_password_revokes_prior_sessions {sec : Security} {tr : Nat} {tok p p' : String}
    {consumed : Bool} {db₀ db₁ db₂ : AccountDb} {r : AuthReply} {uid exp : Nat} (hwf : db₀.WF)
    (hreset : sec.call tr (.resetPassword tok p p' consumed) db₀ = (.ok r, db₁))
    (huid : sec.getPasswordResetUser tok = .ok (uid, exp))
    (hrun : sec.Reaches (fun _ => True) db₁ db₂) {s : UserSession} (hs : s ∈ db₂.sessions)
    (hsu : s.userId = uid) (hold : s.id ∈ db₀.sessions.map (·.id)) {t : String}
    (ht : s.refreshTokenHash = sec.hashRefreshToken t) (now : Nat) (ua ip : Option String)
    (n : String) :
    (sec.call now (.rotateSession t ua ip n) db₂).1 =
      .error (.validation "Invalid or expired session") := by
  obtain ⟨userId, _, _, hg, -, -, hdb⟩ := Security.resetPassword_ok (Security.call_resetPassword_ok hreset)
  have hu : userId = uid := (Prod.mk.inj (Except.ok.inj (hg.symm.trans huid))).1
  have h₁ : db₁.WF ∧ db₁.RevokedAmong uid (db₀.sessions.map (·.id)) := by
    subst hdb hu
    exact ⟨(hwf.congr (AccountDb.saveUser_sessions _ _)).revokeUserSessions _ _,
      fun i hi => by simpa using hi,
      fun x hx hu _ => (AccountDb.mem_revokeUserSessions hx).elim fun _ h => h.2.2 hu⟩
  obtain ⟨hwf₂, -, hrev⟩ := hrun.inv (P := fun db => db.WF ∧ db.RevokedAmong uid _) h₁
    fun now c db _ ⟨hw, hr⟩ =>
    ⟨(sec.sessionsStep_call now c db).wf hw, (sec.sessionsStep_call now c db).revokedAmong hr⟩
  have hget := hwf₂.getByRefreshHash hs
  rw [ht] at hget
  exact Security.call_rotateSession_of_error
    (Security.rotateSession_of_revoked hget (hrev s hs hsu hold))

/-- The password of user 1 is reset at time 10; the session opened under `t0`
    before it is refused at time 20. -/
theorem reset_password_refuses_earlier_token :
    (exampleSecurity.call 20 (.rotateSession "t0" none none "t9")
      (exampleSecurity.call 10 (.resetPassword "r" "p" "p" true) exampleAccounts).2).1 =
      .error (.validation "Invalid or expired session") :=
  reset_password_revokes_prior_sessions
    (s := { exampleSession with revokedAt := some 10 })
    ⟨by decide, by decide⟩
    (show exampleSecurity.call 10 (.resetPassword "r" "p" "p" true) exampleAccounts = (.ok _, _)
      from rfl) rfl .refl (by decide) rfl (by decide) rfl 20 none none "t9"

/-- **Rotation never extends a session.** From a state where every session
    expires `REFRESH_TOKEN_EXPIRE_DAYS` after its creation (one without sessions,
    say), every rotation accepted later presents a token of a session less than
    that old: rotating keeps `created_at` and `expires_at`. -/
theorem rotation_within_lifetime {sec : Security} {db db₂ db₃ : AccountDb} (h0 : db.Lifetimes)
    (hrun : sec.Reaches (fun _ => True) db db₂) {now : Nat} {t n : String} {ua ip : Option String}
    {r : AuthReply} (hacc : sec.call now (.rotateSession t ua ip n) db₂ = (.ok r, db₃)) :
    ∃ s ∈ db₂.sessions, s.refreshTokenHash = sec.hashRefreshToken t ∧
      now < s.createdAt + refreshTokenLifetime := by
  have hl : db₂.Lifetimes :=
    hrun.inv h0 fun now c db _ hl => (sec.sessionsStep_call now c db).lifetimes hl
  obtain ⟨_, hr⟩ := Security.call_rotateSession_ok hacc
  obtain ⟨s, _, hread, -⟩ := Security.rotateSession_ok hr
  obtain ⟨hf, -, hexp, -⟩ := Security.rotateRead_ok hread
  obtain ⟨hs, hh⟩ := AccountDb.mem_of_filter_singleton hf
  exact ⟨s, hs, hh, hl s hs ▸ hexp⟩

/-- The session opened at time 0 is rotated at time 10, within its lifetime. -/
theorem rotation_of_fresh_session_within_lifetime :
    ∃ s ∈ exampleAccounts.sessions, s.refreshTokenHash = exampleSecurity.hashRefreshToken "t0" ∧
      10 < s.createdAt + refreshTokenLifetime :=
  rotation_within_lifetime (by unfold AccountDb.Lifetimes; decide) .refl
    (show exampleSecurity.call 10 (.rotateSession "t0" none none "t1") exampleAccounts = (.ok _, _)
      from rfl)

end TechPulse
