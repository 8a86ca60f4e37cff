import TechPulse.RefreshSessions

/-!
# Two rotations of one refresh token

`rotate_session` touches the database twice: its block reads the row holding the
presented hash and the user (`Security.rotateRead`), and the commit flushes an
`UPDATE` of the columns the block changed, by the row's id
(`AccountDb.flushRotation`). Nothing locks the row in between: the default
SQLite driver opens no transaction while a block only reads, and a server
database at read committed takes no lock for a `SELECT`. Run one after the
other, the two halves are the block of `Security.rotateSession`
(`rotateSession_eq_read_flush`).

When two clients present the same token and both reads run before either
commit, both rotations pass every check and both commit
(`concurrent_rotations_both_accepted`): the token is accepted twice, each client
gets an access token and a new refresh token, and only the second new token is
left on the row.
-/

namespace TechPulse

/-- The row left by an `UPDATE` of the columns `rotate_session` changed from
    `loaded` to `s'`, applied to the committed row `c`: a column the block did
    not change keeps its committed value. -/
def UserSession.flushOnto (loaded s' c : UserSession) : UserSession :=
  { c with
    refreshTokenHash :=
      if s'.refreshTokenHash = loaded.refreshTokenHash then c.refreshTokenHash else s'.refreshTokenHash,
    lastUsedAt := if s'.lastUsedAt = loaded.lastUsedAt then c.lastUsedAt else s'.lastUsedAt,
    userAgent := if s'.userAgent = loaded.userAgent then c.userAgent else s'.userAgent,
    ipAddress := if s'.ipAddress = loaded.ipAddress then c.ipAddress else s'.ipAddress }

/-- The commit of `rotate_session`: the `UPDATE … WHERE id = …` of the changed
    columns on the committed row, refused by the unique index when another row
    holds the new hash. When the row is gone the `UPDATE` matches nothing, which
    `Err` files with the other lost-row error. -/
def AccountDb.flushRotation (db : AccountDb) (loaded s' : UserSession) : Except Err AccountDb :=
  match db.sessions.find? (·.id = loaded.id) with
  | none => throw .objectDeleted
  | some c =>
    let r := loaded.flushOnto s' c
    if db.sessions.any (fun x => x.id ≠ loaded.id ∧ x.refreshTokenHash = r.refreshTokenHash) then
      throw (.integrity "user_sessions.refresh_token_hash")
    else pure (db.saveSession r)

namespace AccountDb

/-- Under the primary key, the row found by id is the row. -/
theorem WF.find_id {db : AccountDb} (hwf : db.WF) {s : UserSession} (hs : s ∈ db.sessions) :
    db.sessions.find? (·.id = s.id) = some s := by
  rw [← List.filter_head?, filter_key_eq_singleton hwf.ids hs]
  rfl

/-- The row written back under an id the table has is in the table. -/
theorem mem_saveSession_self {db : AccountDb} {s r : UserSession} (hs : s ∈ db.sessions)
    (hid : s.id = r.id) : r ∈ (db.saveSession r).sessions :=
  List.mem_map.mpr ⟨s, hs, by simp [hid]⟩

/-- A flush of the loaded row `l`, changed to `w`, onto the row `c` as it is
    committed, with a hash no other row holds, writes the merged row. -/
theorem flushRotation_fresh {db : AccountDb} (hwf : db.WF) {c l w : UserSession}
    (hc : c ∈ db.sessions) (hid : c.id = l.id)
    (hfree : ∀ x ∈ db.sessions, x.id ≠ l.id → x.refreshTokenHash ≠ (l.flushOnto w c).refreshTokenHash) :
    db.flushRotation l w = .ok (db.saveSession (l.flushOnto w c)) := by
  have hany : (db.sessions.any fun x => x.id ≠ l.id ∧
      x.refreshTokenHash = (l.flushOnto w c).refreshTokenHash) = false := by
    simpa using hfree
  rw [flushRotation, ← hid, hwf.find_id hc, hid]
  simp only [hany]
  rfl

end AccountDb

/-- Flushing onto the row as it was loaded writes the row `rotate_session`
    built. -/
theorem Security.flushOnto_rotated (sec : Security) (s : UserSession) (ua ip : Option String)
    (n : String) (now : Nat) : s.flushOnto (sec.rotated s ua ip n now) s = sec.rotated s ua ip n now := by
  unfold UserSession.flushOnto
  split_ifs <;> simp_all [Security.rotated]

/-- Run back to back, the reads and the flush are the block of `rotate_session`:
    the split model refines the atomic one. -/
theorem rotateSession_eq_read_flush {sec : Security} {db : AccountDb} (hwf : db.WF)
    (t : String) (ua ip : Option String) (n : String) (now : Nat) :
    sec.rotateSession t ua ip n now db = (do
      let (s, u) ← sec.rotateRead t now db
      let db' ← db.flushRotation s (sec.rotated s ua ip n now)
      return ((u, n), db')) := by
  unfold Security.rotateSession
  cases hr : sec.rotateRead t now db with
  | error e => rfl
  | ok su =>
    obtain ⟨s, u⟩ := su
    have hs := (AccountDb.mem_of_filter_singleton (Security.rotateRead_ok hr).1).1
    simp only [bind, Except.bind, AccountDb.flushRotation, hwf.find_id hs, sec.flushOnto_rotated,
      Security.rotated_id]
    split_ifs <;> rfl

/-- **Two rotations of one token both succeed.** When two `rotate_session` calls
    present the same token and both read before either commits, both commits
    succeed: the token is accepted twice. Afterwards the row holds the second
    caller's new token, and no row holds the first caller's, nor the one they
    both presented. -/
theorem concurrent_rotations_both_accepted {sec : Security} {db : AccountDb} (hwf : db.WF)
    {t n₁ n₂ : String} {ua₁ ip₁ ua₂ ip₂ : Option String} {now₁ now₂ : Nat}
    {s₁ s₂ : UserSession} {u₁ u₂ : User}
    (hr₁ : sec.rotateRead t now₁ db = .ok (s₁, u₁)) (hr₂ : sec.rotateRead t now₂ db = .ok (s₂, u₂))
    (hfresh₁ : db.Unheld (sec.hashRefreshToken n₁)) (hfresh₂ : db.Unheld (sec.hashRefreshToken n₂))
    (hne : sec.hashRefreshToken n₁ ≠ sec.hashRefreshToken n₂) :
    ∃ db₁ db₂, db.flushRotation s₁ (sec.rotated s₁ ua₁ ip₁ n₁ now₁) = .ok db₁ ∧
      db₁.flushRotation s₂ (sec.rotated s₂ ua₂ ip₂ n₂ now₂) = .ok db₂ ∧
      db₂.Unheld (sec.hashRefreshToken t) ∧ db₂.Unheld (sec.hashRefreshToken n₁) ∧
      ∃ x ∈ db₂.sessions, x.id = s₁.id ∧ x.refreshTokenHash = sec.hashRefreshToken n₂ := by
  have hf₁ := (Security.rotateRead_ok hr₁).1
  have hf₂ := (Security.rotateRead_ok hr₂).1
  obtain ⟨hs₁, hh₁⟩ := AccountDb.mem_of_filter_singleton hf₁
  have e₂ : s₂ = s₁ := by rw [hf₁] at hf₂; exact (List.singleton_inj.mp hf₂).symm
  subst e₂
  -- the first commit writes the first caller's row
  set r₁ := sec.rotated s₂ ua₁ ip₁ n₁ now₁
  have hc₁ := AccountDb.flushRotation_fresh (w := r₁) hwf hs₁ rfl fun x hx _ => by
    simpa [sec.flushOnto_rotated] using hfresh₁ x hx
  rw [sec.flushOnto_rotated] at hc₁
  set db₁ := db.saveSession r₁
  have hwf₁ : db₁.WF := hwf.saveSession_rehash fun x hx _ => by simpa [r₁] using hfresh₁ x hx
  have hr₁mem : r₁ ∈ db₁.sessions := AccountDb.mem_saveSession_self hs₁ rfl
  -- rows of `db₁` other than the rotated one are rows of `db`
  have old : ∀ x ∈ db₁.sessions, x.id ≠ s₂.id → x ∈ db.sessions := fun x hx hid => by
    rcases AccountDb.mem_saveSession hx with rfl | ⟨hx, -⟩
    · exact absurd rfl hid
    · exact hx
  have hn₂t : sec.hashRefreshToken n₂ ≠ sec.hashRefreshToken t := fun e => hfresh₂ s₂ hs₁ (hh₁.trans e.symm)
  -- the second commit overwrites the hash written by the first
  set r₂ := s₂.flushOnto (sec.rotated s₂ ua₂ ip₂ n₂ now₂) r₁
  have hh₂ : r₂.refreshTokenHash = sec.hashRefreshToken n₂ := by
    simp only [r₂, UserSession.flushOnto, Security.rotated_refreshTokenHash, hh₁, if_neg hn₂t]
  have hc₂ := AccountDb.flushRotation_fresh (l := s₂) (w := sec.rotated s₂ ua₂ ip₂ n₂ now₂) hwf₁
    hr₁mem rfl fun x hx hid => hh₂ ▸ hfresh₂ x (old x hx hid)
  refine ⟨db₁, db₁.saveSession r₂, hc₁, hc₂, fun x hx e => ?_, fun x hx e => ?_,
    r₂, AccountDb.mem_saveSession_self hr₁mem rfl, rfl, hh₂⟩
  · rcases AccountDb.mem_saveSession hx with rfl | ⟨hx, hid⟩
    · exact hn₂t (hh₂.symm.trans e)
    · exact hid (congrArg (·.id) (AccountDb.eq_of_filter_singleton hf₁ (old x hx hid) e))
  · rcases AccountDb.mem_saveSession hx with rfl | ⟨hx, hid⟩
    · exact hne (e.symm.trans hh₂)
    · exact hfresh₁ x (old x hx hid) e

/-- Two clients present `t0` of `exampleSession`, at times 10 and 11, and both
    read before either commits: both rotations commit. -/
theorem example_token_rotated_twice :
    ∃ db₁ db₂,
      exampleAccounts.flushRotation exampleSession
        (exampleSecurity.rotated exampleSession none none "a" 10) = .ok db₁ ∧
      db₁.flushRotation exampleSession (exampleSecurity.rotated exampleSession none none "b" 11) =
        .ok db₂ ∧
      db₂.Unheld (exampleSecurity.hashRefreshToken "t0") ∧
      db₂.Unheld (exampleSecurity.hashRefreshToken "a") ∧
      ∃ x ∈ db₂.sessions, x.id = exampleSession.id ∧
        x.refreshTokenHash = exampleSecurity.hashRefreshToken "b" :=
  concurrent_rotations_both_accepted ⟨by decide, by decide⟩
    (show exampleSecurity.rotateRead "t0" 10 exampleAccounts = .ok (exampleSession, _) from rfl)
    (show exampleSecurity.rotateRead "t0" 11 exampleAccounts = .ok (exampleSession, _) from rfl)
    (by unfold AccountDb.Unheld; decide) (by unfold AccountDb.Unheld; decide) (by decide)

end TechPulse
