import Mathlib.Data.List.Nodup
import TechPulse.Tables

/-!
# The account tables

`app/models/user.py`, `app/models/session.py`, `app/repositories/user.py` and
`app/repositories/session.py`. The package service is given a user's id and never
reads these two tables, so the model keeps `users` and `user_sessions` in a state
of their own, `AccountDb`, beside the package tables of `Db`. As there, a table is
the list of its rows in insertion order, the database is the default SQLite one
(unique constraints enforced on flush, foreign keys not), and a new primary key is
one more than the largest in the table. Times are whole seconds in UTC, where
`AuthService._as_utc` is the identity; `created_at` is the time of the call that
inserts the row.

`AccountDb.WF` is what the primary key and the unique index on
`refresh_token_hash` keep true of the sessions table. The writes of the session
repository keep it given the guards their callers pass (`WF.append`,
`WF.saveSession_rehash`, `WF.revokeUserSessions`).
-/

namespace TechPulse

/-- `UserStatus`; the source spells the first member `UNAPROVED`. -/
inductive UserStatus where
  | unaproved | verified | suspended
deriving DecidableEq, Repr

/-- `RoleEnum`. -/
inductive RoleEnum where
  | admin | user
deriving DecidableEq, Repr

/-- A `users` row: the columns the modelled code reads or writes (`gender` is
    written once and never read, `updated_at` is never written). -/
structure User where
  id : Nat
  fullName : String
  username : String
  email : String
  passwordHash : String
  status : UserStatus
  role : RoleEnum
  verificationEmailLastSentAt : Option Nat
  verificationEmailRetryCount : Nat
  verificationEmailNextRetryAt : Option Nat
  verificationEmailLastError : Option String
  createdAt : Nat
deriving DecidableEq, Repr

/-- A `user_sessions` row. -/
structure UserSession where
  id : Nat
  userId : Nat
  refreshTokenHash : String
  createdAt : Nat
  lastUsedAt : Option Nat
  expiresAt : Nat
  revokedAt : Option Nat
  userAgent : Option String
  ipAddress : Option String
deriving DecidableEq, Repr

/-- The `users` and `user_sessions` tables. -/
structure AccountDb where
  users : List User
  sessions : List UserSession
deriving DecidableEq, Repr

namespace AccountDb

/-- `UnitOfWork.__exit__` around a block on the account tables: its writes are
    committed when it returns, and rolled back whole when it raises. -/
def atomically {α : Type} (block : AccountDb → Except Err (α × AccountDb)) (db : AccountDb) :
    Except Err α × AccountDb :=
  match block db with
  | .ok (a, db') => (.ok a, db')
  | .error e => (.error e, db)

/-! ### `UserRepo` -/

/-- `add_user`: the flush inserts an `UNAPROVED` user with role `USER` and no
    verification e-mail on record, unless the username or the e-mail is taken. -/
def addUser (db : AccountDb) (fullName username email passwordHash : String) (now : Nat) :
    Except Err (User × AccountDb) := do
  if db.users.any (·.username = username) then throw (.integrity "users.username")
  if db.users.any (·.email = email) then throw (.integrity "users.email")
  let u : User :=
    { id := nextRowId (db.users.map (·.id)), fullName, username, email, passwordHash,
      status := .unaproved, role := .user, verificationEmailLastSentAt := none,
      verificationEmailRetryCount := 0, verificationEmailNextRetryAt := none,
      verificationEmailLastError := none, createdAt := now }
  return (u, { db with users := db.users ++ [u] })

/-- `get_user_by_id`: `Session.get` by primary key. -/
def getUserById (db : AccountDb) (id : Nat) : Option User := db.users.find? (·.id = id)

/-- Write back a changed user row. -/
def saveUser (db : AccountDb) (u : User) : AccountDb :=
  { db with users := db.users.map fun x => if x.id = u.id then u else x }

/-! ### `SessionRepo` -/

/-- `add_session`: the flush inserts the row under a new id, unless its refresh
    hash is taken. -/
def addSession (db : AccountDb) (s : UserSession) : Except Err (UserSession × AccountDb) := do
  if db.sessions.any (·.refreshTokenHash = s.refreshTokenHash) then
    throw (.integrity "user_sessions.refresh_token_hash")
  let s := { s with id := nextRowId (db.sessions.map (·.id)) }
  return (s, { db with sessions := db.sessions ++ [s] })

/-- `get_by_refresh_hash`. -/
def getByRefreshHash (db : AccountDb) (refreshHash : String) : Except Err (Option UserSession) :=
  scalarOneOrNone (db.sessions.filter (·.refreshTokenHash = refreshHash))

/-- Write back a changed session row. -/
def saveSession (db : AccountDb) (s : UserSession) : AccountDb :=
  { db with sessions := db.sessions.map fun x => if x.id = s.id then s else x }

/-- `revoke_session`. -/
def revokeSession (db : AccountDb) (s : UserSession) (revokedAt : Nat) : AccountDb :=
  db.saveSession { s with revokedAt := some revokedAt }

/-- `revoke_user_sessions`: one `UPDATE` of the user's sessions that are not
    revoked yet. -/
def revokeUserSessions (db : AccountDb) (userId revokedAt : Nat) : AccountDb :=
  { db with sessions := db.sessions.map fun s =>
      if s.userId = userId ∧ s.revokedAt = none then { s with revokedAt := some revokedAt } else s }

@[simp] theorem saveUser_sessions (db : AccountDb) (u : User) :
    (db.saveUser u).sessions = db.sessions := rfl
@[simp] theorem revokeUserSessions_users (db : AccountDb) (u t : Nat) :
    (db.revokeUserSessions u t).users = db.users := rfl

/-! ### What the inserts do -/

theorem addUser_ok {db : AccountDb} {fullName username email passwordHash : String} {now : Nat}
    {r : User × AccountDb} (h : db.addUser fullName username email passwordHash now = .ok r) :
    ∃ u : User, u.status = .unaproved ∧ u.username = username ∧ u.email = email ∧
      r = (u, { db with users := db.users ++ [u] }) := by
  unfold addUser at h
  obtain ⟨-, h⟩ := Except.ite_throw_eq_ok h
  obtain ⟨-, h⟩ := Except.ite_throw_eq_ok h
  cases h
  exact ⟨_, rfl, rfl, rfl, rfl⟩

theorem addSession_ok {db : AccountDb} {s : UserSession} {r : UserSession × AccountDb}
    (h : db.addSession s = .ok r) :
    (∀ x ∈ db.sessions, x.refreshTokenHash ≠ s.refreshTokenHash) ∧
      r = ({ s with id := nextRowId (db.sessions.map (·.id)) },
        { db with sessions := db.sessions ++ [{ s with id := nextRowId (db.sessions.map (·.id)) }] }) := by
  unfold addSession at h
  obtain ⟨hfree, h⟩ := Except.ite_throw_eq_ok h
  cases h
  exact ⟨fun x hx e => hfree (List.any_eq_true.mpr ⟨x, hx, by simpa using e⟩), rfl⟩

/-! ### Reading the session rows -/

theorem getByRefreshHash_none {db : AccountDb} {h : String}
    (hn : ∀ x ∈ db.sessions, x.refreshTokenHash ≠ h) : db.getByRefreshHash h = .ok none := by
  rw [getByRefreshHash, List.filter_eq_nil_iff.mpr (by simpa using hn)]
  rfl

/-- A lookup that finds a row finds the only row with that hash. -/
theorem getByRefreshHash_some {db : AccountDb} {h : String} {s : UserSession}
    (hg : db.getByRefreshHash h = .ok (some s)) :
    db.sessions.filter (·.refreshTokenHash = h) = [s] :=
  scalarOneOrNone_some hg

/-- The row found is the only one that holds the hash. -/
theorem eq_of_filter_singleton {l : List UserSession} {h : String} {s x : UserSession}
    (hf : l.filter (·.refreshTokenHash = h) = [s]) (hx : x ∈ l) (hxh : x.refreshTokenHash = h) :
    x = s := by
  have : x ∈ l.filter (·.refreshTokenHash = h) := List.mem_filter.mpr ⟨hx, by simpa using hxh⟩
  simpa [hf] using this

theorem mem_of_filter_singleton {l : List UserSession} {h : String} {s : UserSession}
    (hf : l.filter (·.refreshTokenHash = h) = [s]) : s ∈ l ∧ s.refreshTokenHash = h := by
  have : s ∈ l.filter (·.refreshTokenHash = h) := by simp [hf]
  simpa using this

theorem mem_saveSession {db : AccountDb} {s x : UserSession} (hx : x ∈ (db.saveSession s).sessions) :
    x = s ∨ (x ∈ db.sessions ∧ x.id ≠ s.id) := by
  obtain ⟨y, hy, rfl⟩ := List.mem_map.mp hx
  by_cases e : y.id = s.id
  · simp [e]
  · simp [e, hy]

@[simp] theorem saveSession_ids (db : AccountDb) (s : UserSession) :
    (db.saveSession s).sessions.map (·.id) = db.sessions.map (·.id) := by
  simp only [saveSession, List.map_map]
  congr 1
  funext x
  by_cases e : x.id = s.id <;> simp [e]

@[simp] theorem revokeUserSessions_ids (db : AccountDb) (u t : Nat) :
    (db.revokeUserSessions u t).sessions.map (·.id) = db.sessions.map (·.id) := by
  simp only [revokeUserSessions, List.map_map]
  congr 1
  funext x
  by_cases e : x.userId = u ∧ x.revokedAt = none <;> simp [e]

@[simp] theorem revokeUserSessions_hashes (db : AccountDb) (u t : Nat) :
    (db.revokeUserSessions u t).sessions.map (·.refreshTokenHash) =
      db.sessions.map (·.refreshTokenHash) := by
  simp only [revokeUserSessions, List.map_map]
  congr 1
  funext x
  by_cases e : x.userId = u ∧ x.revokedAt = none <;> simp [e]

/-- `revoke_user_sessions` changes `revoked_at` only, and leaves every session of
    the user revoked. -/
theorem mem_revokeUserSessions {db : AccountDb} {u t : Nat} {x : UserSession}
    (hx : x ∈ (db.revokeUserSessions u t).sessions) :
    ∃ y ∈ db.sessions, (x = y ∨ x = { y with revokedAt := some t }) ∧
      (x.userId = u → x.revokedAt.isSome) := by
  obtain ⟨y, hy, rfl⟩ := List.mem_map.mp hx
  refine ⟨y, hy, ?_⟩
  by_cases e : y.userId = u ∧ y.revokedAt = none
  · simp [e]
  · simp only [e, if_false, true_or, true_and]
    intro hu
    cases h : y.revokedAt
    · exact absurd ⟨hu, h⟩ e
    · rfl

/-! ### The unique keys -/

/-- In a list whose keys are distinct, the rows with the key of `a` are `[a]`. -/
theorem filter_key_eq_singleton {α β : Type} [DecidableEq β] {f : α → β} {l : List α} {a : α}
    (hnd : (l.map f).Nodup) (ha : a ∈ l) : l.filter (fun x => f x = f a) = [a] := by
  induction l with
  | nil => cases ha
  | cons b l ih =>
    rw [List.map_cons, List.nodup_cons] at hnd
    rcases List.mem_cons.mp ha with rfl | ha
    · rw [List.filter_cons_of_pos (by simp), List.filter_eq_nil_iff.mpr fun x hx e =>
        hnd.1 (List.mem_map.mpr ⟨x, hx, by simpa using e⟩)]
    · rw [List.filter_cons_of_neg fun e => hnd.1 (List.mem_map.mpr ⟨a, ha, (of_decide_eq_true e).symm⟩),
        ih hnd.2 ha]

/-- What the primary key and the unique index on `refresh_token_hash` keep true
    of the sessions table. -/
structure WF (db : AccountDb) : Prop where
  ids : (db.sessions.map (·.id)).Nodup
  hashes : (db.sessions.map (·.refreshTokenHash)).Nodup

/-- Under the unique index, a row is found by its own hash. -/
theorem WF.getByRefreshHash {db : AccountDb} (hwf : db.WF) {s : UserSession} (hs : s ∈ db.sessions) :
    db.getByRefreshHash s.refreshTokenHash = .ok (some s) := by
  rw [AccountDb.getByRefreshHash, filter_key_eq_singleton hwf.hashes hs]
  rfl

/-- Only the sessions table matters to `WF`. -/
theorem WF.congr {db db' : AccountDb} (h : db'.sessions = db.sessions) (hwf : db.WF) : db'.WF :=
  ⟨h ▸ hwf.ids, h ▸ hwf.hashes⟩

/-- No other row holds the hash of a row. -/
theorem WF.hash_ne {db : AccountDb} (hwf : db.WF) {s x : UserSession} (hs : s ∈ db.sessions)
    (hx : x ∈ db.sessions) (hid : x.id ≠ s.id) : x.refreshTokenHash ≠ s.refreshTokenHash :=
  fun e => hid (congrArg (·.id) (List.inj_on_of_nodup_map hwf.hashes hx hs e))

/-- Inserting a row under a new id, with a hash no row holds. -/
theorem WF.append {db : AccountDb} (hwf : db.WF) {s : UserSession}
    (hid : s.id ∉ db.sessions.map (·.id))
    (hfree : ∀ x ∈ db.sessions, x.refreshTokenHash ≠ s.refreshTokenHash) :
    ({ db with sessions := db.sessions ++ [s] } : AccountDb).WF := by
  refine ⟨?_, ?_⟩ <;> simp only [List.map_append, List.map_cons, List.map_nil]
  · exact hwf.ids.append (List.nodup_singleton _) (List.disjoint_singleton.mpr hid)
  · refine hwf.hashes.append (List.nodup_singleton _) (List.disjoint_singleton.mpr fun h => ?_)
    obtain ⟨x, hx, e⟩ := List.mem_map.mp h
    exact hfree x hx e

/-- Writing back a row under its own id, with a hash no other row holds. -/
theorem WF.saveSession_rehash {db : AccountDb} (hwf : db.WF) {s' : UserSession}
    (hfree : ∀ x ∈ db.sessions, x.id ≠ s'.id → x.refreshTokenHash ≠ s'.refreshTokenHash) :
    (db.saveSession s').WF := by
  refine ⟨by simpa using hwf.ids, ?_⟩
  rw [saveSession, List.map_map]
  refine List.Nodup.map_on (fun x hx y hy e => ?_) (List.Nodup.of_map _ hwf.ids)
  by_cases ex : x.id = s'.id <;> by_cases ey : y.id = s'.id <;>
    simp only [Function.comp, ex, ey, if_true, if_false] at e
  · exact List.inj_on_of_nodup_map hwf.ids hx hy (ex.trans ey.symm)
  · exact absurd e.symm (hfree y hy ey)
  · exact absurd e (hfree x hx ex)
  · exact List.inj_on_of_nodup_map hwf.hashes hx hy e

theorem WF.revokeUserSessions {db : AccountDb} (hwf : db.WF) (u t : Nat) :
    (db.revokeUserSessions u t).WF :=
  ⟨by simpa using hwf.ids, by simpa using hwf.hashes⟩

end AccountDb

end TechPulse
