import Mathlib.Data.List.Sort
import TechPulse.Accounts

/-!
# The verification e-mail recovery loop

`app/services/email_service/verification_recovery.py` and the query it runs,
`UserRepo.list_users_pending_verification_email_retry`. Every
`EMAIL_RECOVERY_INTERVAL_SECONDS` the loop picks the unverified users older than
`EMAIL_RECOVERY_ELIGIBLE_AGE_SECONDS` whose retry count is under
`EMAIL_RECOVERY_MAX_RETRY_COUNT` and that either never got a verification
e-mail or are due for a retry, sends each one an e-mail, and records the
outcome: a success clears the retry columns, a failure raises the retry count
and schedules the next retry after a random backoff.

What the loop meets outside the database is a `Mailer`: for each user, whether
the send raised, when the outcome was recorded, and what `random.uniform` drew.
The theorems hold for every mailer.

* Whatever the sends do, the loop tries a user at most
  `EMAIL_RECOVERY_MAX_RETRY_COUNT` times in all, less its retry count at the
  start (`recovery_attempts_bounded`).
* The backoff never delays a user that was never sent an e-mail: the query
  takes such a user whatever its next retry time, so while its sends fail it is
  tried at every pass until the cap (`unsent_user_retried_every_pass`).
-/

namespace TechPulse

/-! ### Settings -/

def EMAIL_RECOVERY_ELIGIBLE_AGE_SECONDS : Nat := 120
def EMAIL_RECOVERY_MAX_BATCH_SIZE : Nat := 100
def EMAIL_RECOVERY_MAX_RETRY_COUNT : Nat := 20
def EMAIL_RECOVERY_BACKOFF_BASE_SECONDS : Nat := 120
def EMAIL_RECOVERY_BACKOFF_MAX_SECONDS : Nat := 3600

/-- The cap of `compute_recovery_delay_seconds`: `max(0, retry_count - 1)` is the
    truncated subtraction. -/
def recoveryDelayCap (retryCount : Nat) : Nat :=
  min EMAIL_RECOVERY_BACKOFF_MAX_SECONDS (EMAIL_RECOVERY_BACKOFF_BASE_SECONDS * 2 ^ (retryCount - 1))

/-- `compute_recovery_delay_seconds` with its default base and cap; `uniform c`
    is `int(random.uniform(0, c))`. -/
def computeRecoveryDelaySeconds (uniform : Nat → Nat) (retryCount : Nat) : Nat :=
  max 1 (uniform (recoveryDelayCap retryCount))

namespace AccountDb

/-- `mark_verification_email_sent` at `sentAt`. -/
def markVerificationEmailSent (db : AccountDb) (userId sentAt : Nat) : AccountDb :=
  match db.getUserById userId with
  | none => db
  | some user =>
    if user.status = .verified then db
    else
      db.saveUser { user with verificationEmailLastSentAt := some sentAt, verificationEmailRetryCount := 0,
                              verificationEmailNextRetryAt := none, verificationEmailLastError := none }

/-- `mark_verification_email_failed` at `failedAt`, drawing the delay with
    `uniform`. -/
def markVerificationEmailFailed (db : AccountDb) (uniform : Nat → Nat) (userId : Nat)
    (errorMessage : String) (failedAt : Nat) (overrideRetryCount : Option Nat) : AccountDb :=
  match db.getUserById userId with
  | none => db
  | some user =>
    if user.status = .verified then db
    else
      let retryCount := overrideRetryCount.getD (user.verificationEmailRetryCount + 1)
      let delaySeconds := computeRecoveryDelaySeconds uniform retryCount
      db.saveUser { user with verificationEmailRetryCount := retryCount,
                              verificationEmailLastError := some (errorMessage.take 500),
                              verificationEmailNextRetryAt := some (failedAt + delaySeconds) }

end AccountDb

/-- The `WHERE` of `list_users_pending_verification_email_retry`. A `NULL`
    `verification_email_next_retry_at` compares as unknown and selects nothing. -/
def User.pendingRetry (u : User) (now : Nat) (createdBefore : Int) (maxRetryCount : Nat) : Bool :=
  u.status != .verified && decide ((u.createdAt : Int) ≤ createdBefore) &&
    decide (u.verificationEmailRetryCount < maxRetryCount) &&
    (u.verificationEmailLastSentAt.isNone || u.verificationEmailNextRetryAt.any (· ≤ now))

namespace AccountDb

/-- `list_users_pending_verification_email_retry`: the first `limit` pending
    users by creation time. -/
def listUsersPendingVerificationEmailRetry (db : AccountDb) (now : Nat) (createdBefore : Int)
    (maxRetryCount limit : Nat) : List User :=
  ((db.users.filter (·.pendingRetry now createdBefore maxRetryCount)).insertionSort
    (fun a b => a.createdAt ≤ b.createdAt)).take limit

end AccountDb

/-- A candidate of `process_unverified_users_once`, read when the batch is
    picked. -/
structure RecoveryCandidate where
  id : Nat
  email : String
  fullName : String
  retryCount : Nat
deriving DecidableEq, Repr

/-- What one pass meets outside the database, by user id: the text of the
    exception `send_verification_email` raises (none when it returns), the time
    the outcome is recorded, and `int(random.uniform(0, c))` for a cap `c`. -/
structure Mailer where
  error : Nat → Option String
  clock : Nat → Nat
  uniform : Nat → Nat → Nat

/-- The dict `process_unverified_users_once` keeps of a picked user. -/
def User.toCandidate (u : User) : RecoveryCandidate :=
  { id := u.id, email := u.email, fullName := u.fullName, retryCount := u.verificationEmailRetryCount }

namespace AccountDb

/-- The body of the `for candidate in candidates` loop: send, then record the
    outcome. -/
def recoverCandidate (m : Mailer) (db : AccountDb) (c : RecoveryCandidate) : AccountDb :=
  match m.error c.id with
  | none => db.markVerificationEmailSent c.id (m.clock c.id)
  | some err => db.markVerificationEmailFailed (m.uniform c.id) c.id err (m.clock c.id) (some (c.retryCount + 1))

/-- `process_unverified_users_once` at time `now`: the candidates it tried, and
    the tables after. -/
def processUnverifiedUsersOnce (db : AccountDb) (now : Nat) (m : Mailer) :
    List RecoveryCandidate × AccountDb :=
  let createdBefore := (now : Int) - EMAIL_RECOVERY_ELIGIBLE_AGE_SECONDS
  let users := db.listUsersPendingVerificationEmailRetry now createdBefore
    EMAIL_RECOVERY_MAX_RETRY_COUNT EMAIL_RECOVERY_MAX_BATCH_SIZE
  let candidates := (users.filter (·.status != .verified)).map User.toCandidate
  (candidates, candidates.foldl (recoverCandidate m) db)

/-- The passes of `run_verification_recovery_loop`, each at its time: the
    candidates of each pass, and the tables after the last. -/
def recoveryRun (db : AccountDb) : List (Nat × Mailer) → List (List RecoveryCandidate) × AccountDb
  | [] => ([], db)
  | (now, m) :: passes =>
    let (cs, db) := db.processUnverifiedUsersOnce now m
    let (rest, db) := recoveryRun db passes
    (cs :: rest, db)

/-- How many passes tried user `i`. -/
def attempts (i : Nat) (tried : List (List RecoveryCandidate)) : Nat :=
  tried.countP fun cs => cs.any (·.id == i)

end AccountDb

/-! ### One candidate -/

namespace AccountDb

variable {db : AccountDb}

theorem find?_map_replace_ne {l : List User} {u : User} {i : Nat} (h : u.id ≠ i) :
    (l.map fun x => if x.id = u.id then u else x).find? (·.id = i) = l.find? (·.id = i) := by
  induction l with
  | nil => rfl
  | cons x l ih =>
    rw [List.map_cons, List.find?_cons, List.find?_cons, ih]
    by_cases hx : x.id = u.id
    · have : x.id ≠ i := hx ▸ h
      simp [hx, h, this]
    · simp [hx]

theorem find?_map_replace_self {l : List User} {u : User} (hmem : ∃ x ∈ l, x.id = u.id) :
    (l.map fun x => if x.id = u.id then u else x).find? (·.id = u.id) = some u := by
  induction l with
  | nil => simp at hmem
  | cons x l ih =>
    by_cases hx : x.id = u.id
    · simp [hx]
    · have hmem' : ∃ y ∈ l, y.id = u.id := by simpa [hx] using hmem
      simp [hx, ih hmem']

@[simp] theorem saveUser_ids (u : User) : (db.saveUser u).users.map (·.id) = db.users.map (·.id) := by
  simp only [saveUser, List.map_map]
  exact List.map_congr_left fun x _ => by by_cases h : x.id = u.id <;> simp [h]

/-- Under the primary key, the row found by id is the row. -/
theorem getUserById_of_mem (hnd : (db.users.map (·.id)).Nodup) {u : User} (hu : u ∈ db.users) :
    db.getUserById u.id = some u := by
  rw [getUserById, ← List.filter_head?, filter_key_eq_singleton hnd hu]
  rfl

/-- A user row written back changes the row found under its id, and no other. -/
theorem getUserById_saveUser (u : User) (i : Nat) (hu : ∃ x ∈ db.users, x.id = u.id) :
    (db.saveUser u).getUserById i = if u.id = i then some u else db.getUserById i := by
  split_ifs with h
  · subst h; exact find?_map_replace_self hu
  · exact find?_map_replace_ne h

/-- The row `mark_verification_email_sent` or `mark_verification_email_failed`
    leaves for a user not yet verified, by the outcome of the send. -/
def recovered (m : Mailer) (c : RecoveryCandidate) (u : User) : User :=
  match m.error c.id with
  | none =>
    { u with verificationEmailLastSentAt := some (m.clock c.id), verificationEmailRetryCount := 0,
             verificationEmailNextRetryAt := none, verificationEmailLastError := none }
  | some err =>
    { u with verificationEmailRetryCount := c.retryCount + 1,
             verificationEmailLastError := some (err.take 500),
             verificationEmailNextRetryAt :=
               some (m.clock c.id + computeRecoveryDelaySeconds (m.uniform c.id) (c.retryCount + 1)) }

@[simp] theorem recovered_id (m : Mailer) (c : RecoveryCandidate) (u : User) :
    (recovered m c u).id = u.id := by
  unfold recovered; split <;> rfl

/-- What the loop body does to a user: a verified user is left alone. -/
def recoverStep (m : Mailer) (c : RecoveryCandidate) (u : User) : User :=
  if u.status = .verified then u else recovered m c u

/-- The loop body for candidate `c` changes only the row of `c`'s user. -/
theorem recoverCandidate_getUserById (m : Mailer) (c : RecoveryCandidate) (i : Nat) :
    (db.recoverCandidate m c).getUserById i =
      if c.id = i then (db.getUserById i).map (recoverStep m c) else db.getUserById i := by
  cases hu : db.getUserById c.id with
  | none =>
    have : db.recoverCandidate m c = db := by
      unfold recoverCandidate markVerificationEmailSent markVerificationEmailFailed
      split <;> simp only [hu]
    rw [this]
    split_ifs with h
    · subst h; rw [hu]; rfl
    · rfl
  | some u =>
    have hid : u.id = c.id := by simpa using List.find?_some hu
    by_cases hv : u.status = .verified
    · have : db.recoverCandidate m c = db := by
        unfold recoverCandidate markVerificationEmailSent markVerificationEmailFailed
        split <;> simp only [hu, hv, if_true]
      rw [this]
      split_ifs with h
      · subst h; simp [hu, recoverStep, hv]
      · rfl
    · have : db.recoverCandidate m c = db.saveUser (recovered m c u) := by
        unfold recoverCandidate recovered
        split <;> rename_i e <;>
          simp only [markVerificationEmailSent, markVerificationEmailFailed, hu, hv, e, if_false,
            Option.getD_some]
      rw [this, getUserById_saveUser _ i ⟨u, List.mem_of_find?_eq_some hu, (recovered_id m c u).symm⟩,
        recovered_id, hid]
      split_ifs with h
      · subst h; simp [hu, recoverStep, hv]
      · rfl

theorem recoverCandidate_ids (m : Mailer) (c : RecoveryCandidate) :
    (db.recoverCandidate m c).users.map (·.id) = db.users.map (·.id) := by
  unfold recoverCandidate markVerificationEmailSent markVerificationEmailFailed
  split <;> split <;> (try split_ifs) <;> simp

end AccountDb

/-! ### One pass -/

namespace AccountDb

theorem foldl_recoverCandidate_ids (m : Mailer) :
    ∀ (cs : List RecoveryCandidate) (db : AccountDb),
      (cs.foldl (recoverCandidate m) db).users.map (·.id) = db.users.map (·.id)
  | [], _ => rfl
  | c :: cs, _ => (foldl_recoverCandidate_ids m cs _).trans (recoverCandidate_ids m c)

/-- A pass over candidates of distinct users changes each user by the loop body
    of its candidate, if it has one. -/
theorem foldl_recoverCandidate_getUserById (m : Mailer) (i : Nat) :
    ∀ (cs : List RecoveryCandidate) (db : AccountDb), (cs.map (·.id)).Nodup →
      (cs.foldl (recoverCandidate m) db).getUserById i =
        match cs.find? (·.id = i) with
        | none => db.getUserById i
        | some c => (db.getUserById i).map (recoverStep m c)
  | [], _, _ => rfl
  | c :: cs, db, hnd => by
    rw [List.map_cons, List.nodup_cons] at hnd
    rw [List.foldl_cons, foldl_recoverCandidate_getUserById m i cs _ hnd.2, List.find?_cons,
      recoverCandidate_getUserById]
    by_cases h : c.id = i
    · have hnone : cs.find? (·.id = i) = none :=
        List.find?_eq_none.mpr fun x hx hxi => hnd.1 (by
          rw [h, ← of_decide_eq_true hxi]; exact List.mem_map_of_mem _ hx)
      simp [h, hnone]
    · simp only [h, decide_False, if_false]

variable {db : AccountDb}

/-- The users a pass picks: pending ones, not verified, each once. -/
theorem processUnverifiedUsersOnce_candidates (hnd : (db.users.map (·.id)).Nodup) (now : Nat) (m : Mailer) :
    ((db.processUnverifiedUsersOnce now m).1.map (·.id)).Nodup ∧
      ∀ c ∈ (db.processUnverifiedUsersOnce now m).1, ∃ u ∈ db.users,
        u.pendingRetry now ((now : Int) - EMAIL_RECOVERY_ELIGIBLE_AGE_SECONDS) EMAIL_RECOVERY_MAX_RETRY_COUNT ∧
          c = u.toCandidate := by
  set F := db.users.filter (·.pendingRetry now ((now : Int) - EMAIL_RECOVERY_ELIGIBLE_AGE_SECONDS)
    EMAIL_RECOVERY_MAX_RETRY_COUNT)
  have hperm := List.perm_insertionSort (fun a b : User => a.createdAt ≤ b.createdAt) F
  refine ⟨?_, fun c hc => ?_⟩
  · simp only [processUnverifiedUsersOnce, listUsersPendingVerificationEmailRetry, List.map_map]
    have hF : (F.map (·.id)).Nodup := hnd.sublist ((List.filter_sublist _).map _)
    exact ((hperm.map _).nodup_iff.mpr hF).sublist
      ((((List.filter_sublist _).trans (List.take_sublist _ _))).map _)
  · simp only [processUnverifiedUsersOnce, listUsersPendingVerificationEmailRetry, List.mem_map,
      List.mem_filter] at hc
    obtain ⟨u, ⟨hu, -⟩, rfl⟩ := hc
    have hu' := List.mem_filter.mp (hperm.mem_iff.mp (List.mem_of_mem_take hu))
    exact ⟨u, hu'.1, hu'.2, rfl⟩

/-- A pass changes each user by the loop body of its candidate, if it has one. -/
theorem processUnverifiedUsersOnce_getUserById (hnd : (db.users.map (·.id)).Nodup) (now : Nat)
    (m : Mailer) (i : Nat) :
    (db.processUnverifiedUsersOnce now m).2.getUserById i =
      match (db.processUnverifiedUsersOnce now m).1.find? (·.id = i) with
      | none => db.getUserById i
      | some c => (db.getUserById i).map (recoverStep m c) :=
  foldl_recoverCandidate_getUserById m i _ db (processUnverifiedUsersOnce_candidates hnd now m).1

theorem processUnverifiedUsersOnce_ids (now : Nat) (m : Mailer) :
    (db.processUnverifiedUsersOnce now m).2.users.map (·.id) = db.users.map (·.id) :=
  foldl_recoverCandidate_ids m _ db

theorem any_id_eq_isSome (cs : List RecoveryCandidate) (i : Nat) :
    cs.any (·.id == i) = (cs.find? (·.id = i)).isSome := by
  induction cs with
  | nil => rfl
  | cons c cs ih => by_cases h : c.id = i <;> simp [List.find?_cons, h, ih]

end AccountDb

/-! ### The budget of a user -/

/-- How many more times the loop may try a user: none once it is verified, or
    once an e-mail went out and no retry is scheduled; otherwise what its retry
    count leaves under the cap. -/
def recoveryBudget : Option User → Nat
  | none => 0
  | some u =>
    if u.status = .verified ∨ (u.verificationEmailLastSentAt.isSome ∧ u.verificationEmailNextRetryAt = none) then 0
    else EMAIL_RECOVERY_MAX_RETRY_COUNT - u.verificationEmailRetryCount

theorem recoveryBudget_le (u : User) :
    recoveryBudget (some u) ≤ EMAIL_RECOVERY_MAX_RETRY_COUNT - u.verificationEmailRetryCount := by
  simp only [recoveryBudget]
  split_ifs <;> omega

/-- Trying a pending user spends its budget. -/
theorem recoveryBudget_recoverStep (m : Mailer) {u : User} {now : Nat} {createdBefore : Int}
    (hp : u.pendingRetry now createdBefore EMAIL_RECOVERY_MAX_RETRY_COUNT) :
    recoveryBudget (some (AccountDb.recoverStep m u.toCandidate u)) + 1 ≤ recoveryBudget (some u) := by
  simp only [User.pendingRetry, Bool.and_eq_true, bne_iff_ne, ne_eq, decide_eq_true_eq, Bool.or_eq_true,
    Option.isNone_iff_eq_none] at hp
  obtain ⟨⟨⟨hst, -⟩, hrc⟩, hdue⟩ := hp
  have hnext : u.verificationEmailLastSentAt.isSome → u.verificationEmailNextRetryAt ≠ none := by
    rintro hs hn
    rcases hdue with h | h
    · simp [h] at hs
    · simp [hn] at h
  have hb : recoveryBudget (some u) = EMAIL_RECOVERY_MAX_RETRY_COUNT - u.verificationEmailRetryCount := by
    simp only [recoveryBudget, hst, false_or]
    exact if_neg fun h => hnext h.1 h.2
  rw [hb]
  simp only [AccountDb.recoverStep, hst, if_false, AccountDb.recovered, User.toCandidate]
  cases he : m.error u.id with
  | none => simp [recoveryBudget]; omega
  | some e => simp [recoveryBudget, hst]; omega

namespace AccountDb

variable {db : AccountDb}

/-- A pass spends the budget of every user it tries. -/
theorem processUnverifiedUsersOnce_budget (hnd : (db.users.map (·.id)).Nodup) (now : Nat) (m : Mailer)
    (i : Nat) :
    recoveryBudget ((db.processUnverifiedUsersOnce now m).2.getUserById i) +
        (if (db.processUnverifiedUsersOnce now m).1.any (·.id == i) then 1 else 0) ≤
      recoveryBudget (db.getUserById i) := by
  rw [processUnverifiedUsersOnce_getUserById hnd, any_id_eq_isSome]
  cases hf : (db.processUnverifiedUsersOnce now m).1.find? (·.id = i) with
  | none => simp
  | some c =>
    obtain ⟨u, hu, hp, rfl⟩ := (processUnverifiedUsersOnce_candidates hnd now m).2 c
      (List.mem_of_find?_eq_some hf)
    have hi : u.id = i := by simpa [User.toCandidate] using List.find?_some hf
    rw [← hi, getUserById_of_mem hnd hu]
    simpa using recoveryBudget_recoverStep m hp

theorem recoveryRun_cons (passes : List (Nat × Mailer)) (now : Nat) (m : Mailer) :
    db.recoveryRun ((now, m) :: passes) =
      ((db.processUnverifiedUsersOnce now m).1 :: ((db.processUnverifiedUsersOnce now m).2.recoveryRun passes).1,
        ((db.processUnverifiedUsersOnce now m).2.recoveryRun passes).2) :=
  rfl

theorem attempts_cons (i : Nat) (cs : List RecoveryCandidate) (tried : List (List RecoveryCandidate)) :
    attempts i (cs :: tried) = attempts i tried + if cs.any (·.id == i) then 1 else 0 :=
  List.countP_cons _ _ _

/-- Over a run, the attempts at a user and its budget left add up to at most its
    budget at the start. -/
theorem recoveryRun_budget (i : Nat) :
    ∀ (passes : List (Nat × Mailer)) (db : AccountDb), (db.users.map (·.id)).Nodup →
      attempts i (db.recoveryRun passes).1 + recoveryBudget ((db.recoveryRun passes).2.getUserById i) ≤
        recoveryBudget (db.getUserById i)
  | [], _, _ => by simp [recoveryRun, attempts]
  | (now, m) :: passes, db, hnd => by
    have ih := recoveryRun_budget i passes _ ((processUnverifiedUsersOnce_ids now m).symm ▸ hnd)
    have hpass := processUnverifiedUsersOnce_budget hnd now m i
    simp only [recoveryRun_cons, attempts_cons] at ih ⊢
    omega

/-- **The recovery loop tries a user at most twenty times.** Whatever its sends
    do and whatever backoff it draws, over any number of passes the loop tries a
    user at most `EMAIL_RECOVERY_MAX_RETRY_COUNT` times, less the user's retry
    count at the start. -/
theorem recovery_attempts_bounded (db : AccountDb) (hnd : (db.users.map (·.id)).Nodup)
    (passes : List (Nat × Mailer)) {u : User} (hu : u ∈ db.users) :
    attempts u.id (db.recoveryRun passes).1 ≤ EMAIL_RECOVERY_MAX_RETRY_COUNT - u.verificationEmailRetryCount := by
  have hrun := recoveryRun_budget u.id passes db hnd
  rw [getUserById_of_mem hnd hu] at hrun
  have := recoveryBudget_le u
  omega

/-- A user never e-mailed, registered at time 0. -/
def exampleNewUser : User :=
  { id := 1, fullName := "New User", username := "newuser", email := "newuser@example.com",
    passwordHash := "x", status := .unaproved, role := .user, verificationEmailLastSentAt := none,
    verificationEmailRetryCount := 0, verificationEmailNextRetryAt := none,
    verificationEmailLastError := none, createdAt := 0 }

def exampleRecoveryDb : AccountDb := ⟨[exampleNewUser], []⟩

/-- Twenty-five passes, two minutes apart, at which every send is refused. -/
def exampleFailingPasses : List (Nat × Mailer) :=
  (List.range 25).map fun k => (120 * (k + 1), ⟨fun _ => some "Connection refused", fun _ => 120 * (k + 1), fun _ c => c⟩)

theorem example_recovery_attempts_bounded :
    attempts 1 (exampleRecoveryDb.recoveryRun exampleFailingPasses).1 ≤ EMAIL_RECOVERY_MAX_RETRY_COUNT - 0 :=
  recovery_attempts_bounded exampleRecoveryDb (by decide) exampleFailingPasses (u := exampleNewUser)
    (by decide)

end AccountDb

/-! ### A user never e-mailed -/

namespace AccountDb

variable {db : AccountDb}

/-- When the batch cannot fill up, a pass tries exactly the pending users. -/
theorem processUnverifiedUsersOnce_find (hnd : (db.users.map (·.id)).Nodup)
    (hsize : db.users.length ≤ EMAIL_RECOVERY_MAX_BATCH_SIZE) {u : User} (hu : u ∈ db.users) (now : Nat)
    (m : Mailer) :
    (db.processUnverifiedUsersOnce now m).1.find? (·.id = u.id) =
      if u.pendingRetry now ((now : Int) - EMAIL_RECOVERY_ELIGIBLE_AGE_SECONDS) EMAIL_RECOVERY_MAX_RETRY_COUNT
      then some u.toCandidate else none := by
  obtain ⟨hnd', hmem⟩ := processUnverifiedUsersOnce_candidates hnd now m
  split_ifs with hp
  · have hin : u.toCandidate ∈ (db.processUnverifiedUsersOnce now m).1 := by
      have hperm := List.perm_insertionSort (fun a b : User => a.createdAt ≤ b.createdAt)
        (db.users.filter (·.pendingRetry now ((now : Int) - EMAIL_RECOVERY_ELIGIBLE_AGE_SECONDS)
          EMAIL_RECOVERY_MAX_RETRY_COUNT))
      simp only [processUnverifiedUsersOnce, listUsersPendingVerificationEmailRetry]
      refine List.mem_map_of_mem _ (List.mem_filter.mpr ⟨?_, ?_⟩)
      · rw [List.take_of_length_le (hperm.length_eq ▸ le_trans (List.length_filter_le _ _) hsize)]
        exact hperm.mem_iff.mpr (List.mem_filter.mpr ⟨hu, hp⟩)
      · simp only [User.pendingRetry, Bool.and_eq_true] at hp
        exact hp.1.1.1
    rw [← List.filter_head?, show (fun x : RecoveryCandidate => decide (x.id = u.id)) =
      fun x => decide (x.id = u.toCandidate.id) from rfl, filter_key_eq_singleton hnd' hin]
    rfl
  · exact List.find?_eq_none.mpr fun c hc hci => hp (by
      obtain ⟨u', hu', hp', rfl⟩ := hmem c hc
      rwa [← List.inj_on_of_nodup_map hnd hu' hu (of_decide_eq_true hci)])

/-- A user never e-mailed, old enough and not verified, is pending exactly while
    its count is under the cap, whatever its next retry time. -/
theorem pendingRetry_unsent {u : User} {now : Nat} (hst : u.status ≠ .verified)
    (hsent : u.verificationEmailLastSentAt = none) (hold : u.createdAt + EMAIL_RECOVERY_ELIGIBLE_AGE_SECONDS ≤ now) :
    u.pendingRetry now ((now : Int) - EMAIL_RECOVERY_ELIGIBLE_AGE_SECONDS) EMAIL_RECOVERY_MAX_RETRY_COUNT =
      decide (u.verificationEmailRetryCount < EMAIL_RECOVERY_MAX_RETRY_COUNT) := by
  have hc : (u.createdAt : Int) ≤ (now : Int) - EMAIL_RECOVERY_ELIGIBLE_AGE_SECONDS := by omega
  simp [User.pendingRetry, hst, hsent, hc]

theorem processUnverifiedUsersOnce_length (now : Nat) (m : Mailer) :
    (db.processUnverifiedUsersOnce now m).2.users.length = db.users.length := by
  rw [← List.length_map _ (·.id), processUnverifiedUsersOnce_ids, List.length_map]

/-- A pass over a never-e-mailed user whose send fails tries it exactly when its
    count is under the cap, and leaves it never e-mailed, its count one up if
    tried. -/
theorem processUnverifiedUsersOnce_unsent (hnd : (db.users.map (·.id)).Nodup)
    (hsize : db.users.length ≤ EMAIL_RECOVERY_MAX_BATCH_SIZE) {u : User} (hu : u ∈ db.users)
    (hst : u.status ≠ .verified) (hsent : u.verificationEmailLastSentAt = none) {now : Nat} {m : Mailer}
    (hold : u.createdAt + EMAIL_RECOVERY_ELIGIBLE_AGE_SECONDS ≤ now) (hfail : (m.error u.id).isSome) :
    ∃ u₁ ∈ (db.processUnverifiedUsersOnce now m).2.users, u₁.id = u.id ∧ u₁.status = u.status ∧
      u₁.verificationEmailLastSentAt = none ∧ u₁.createdAt = u.createdAt ∧
      (db.processUnverifiedUsersOnce now m).1.any (·.id == u.id) =
        decide (u.verificationEmailRetryCount < EMAIL_RECOVERY_MAX_RETRY_COUNT) ∧
      u₁.verificationEmailRetryCount = if u.verificationEmailRetryCount < EMAIL_RECOVERY_MAX_RETRY_COUNT
        then u.verificationEmailRetryCount + 1 else u.verificationEmailRetryCount := by
  have hget := processUnverifiedUsersOnce_getUserById hnd now m u.id
  rw [processUnverifiedUsersOnce_find hnd hsize hu, pendingRetry_unsent hst hsent hold] at hget
  rw [any_id_eq_isSome, processUnverifiedUsersOnce_find hnd hsize hu, pendingRetry_unsent hst hsent hold]
  obtain ⟨err, he⟩ := Option.isSome_iff_exists.mp hfail
  by_cases hrc : u.verificationEmailRetryCount < EMAIL_RECOVERY_MAX_RETRY_COUNT
  · simp only [hrc, decide_True, if_true, Option.map_some', getUserById_of_mem hnd hu] at hget
    refine ⟨_, List.mem_of_find?_eq_some hget, ?_⟩
    simp [recoverStep, recovered, hst, he, hsent, User.toCandidate, hrc]
  · simp only [hrc, decide_False, Bool.false_eq_true, if_false] at hget
    rw [getUserById_of_mem hnd hu] at hget
    exact ⟨u, List.mem_of_find?_eq_some hget, rfl, rfl, hsent, rfl, by simp [hrc], by simp [hrc]⟩

/-- **The backoff never delays a user that was never e-mailed.** When the
    batch cannot fill up, a user that was never sent a verification e-mail, is
    not verified and is old enough is tried at every pass at which its sends
    fail, until its retry count reaches `EMAIL_RECOVERY_MAX_RETRY_COUNT`: the
    next retry time each failure schedules is never waited for. -/
theorem unsent_user_retried_every_pass (passes : List (Nat × Mailer)) (db : AccountDb) {u : User}
    (hnd : (db.users.map (·.id)).Nodup) (hsize : db.users.length ≤ EMAIL_RECOVERY_MAX_BATCH_SIZE)
    (hu : u ∈ db.users) (hst : u.status ≠ .verified) (hsent : u.verificationEmailLastSentAt = none)
    (hold : ∀ p ∈ passes, u.createdAt + EMAIL_RECOVERY_ELIGIBLE_AGE_SECONDS ≤ p.1)
    (hfail : ∀ p ∈ passes, (p.2.error u.id).isSome) :
    attempts u.id (db.recoveryRun passes).1 =
      min passes.length (EMAIL_RECOVERY_MAX_RETRY_COUNT - u.verificationEmailRetryCount) := by
  induction passes generalizing db u with
  | nil => simp [recoveryRun, attempts]
  | cons p passes ih =>
    obtain ⟨now, m⟩ := p
    obtain ⟨u₁, hu₁, hid, hst₁, hsent₁, hcr, hany, hrc₁⟩ := processUnverifiedUsersOnce_unsent hnd hsize hu
      hst hsent (hold _ (List.mem_cons_self _ _)) (hfail _ (List.mem_cons_self _ _))
    have hnd₁ : ((db.processUnverifiedUsersOnce now m).2.users.map (·.id)).Nodup :=
      (processUnverifiedUsersOnce_ids now m).symm ▸ hnd
    have := ih _ hnd₁ ((processUnverifiedUsersOnce_length now m).symm ▸ hsize) hu₁ (hst₁ ▸ hst) hsent₁
      (fun q hq => hcr ▸ hold q (List.mem_cons_of_mem _ hq)) (fun q hq => hid ▸ hfail q (List.mem_cons_of_mem _ hq))
    rw [hid, hrc₁] at this
    simp only [recoveryRun_cons, attempts_cons, List.length_cons, hany]
    by_cases hrc : u.verificationEmailRetryCount < EMAIL_RECOVERY_MAX_RETRY_COUNT <;>
      simp only [hrc, decide_True, decide_False, if_true, if_false, Bool.false_eq_true] at this ⊢ <;> omega

theorem example_unsent_user_retried_every_pass :
    attempts 1 (exampleRecoveryDb.recoveryRun exampleFailingPasses).1 = min 25 (EMAIL_RECOVERY_MAX_RETRY_COUNT - 0) :=
  unsent_user_retried_every_pass exampleFailingPasses exampleRecoveryDb (u := exampleNewUser)
    (by decide) (by decide) (by decide) (by decide) (by decide) (by decide) (by decide)

end AccountDb

end TechPulse
