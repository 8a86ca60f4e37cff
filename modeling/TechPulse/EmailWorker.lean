import Mathlib.Algebra.BigOperators.Group.List
import Mathlib.Algebra.Order.Field.Rat
import TechPulse.VerificationRecovery

/-!
# The verification e-mail worker

`app/services/email_service/email_worker.py`. At registration,
`enqueue_verification_email` queues `_send_verification_email_with_retries`,
which tries the send up to `EMAIL_RETRY_MAX_ATTEMPTS` times and records each
outcome with the recovery loop's own `mark_verification_email_sent` and
`mark_verification_email_failed`, the latter with the attempt number as the
retry count. Between two attempts it sleeps `random.uniform(0, cap)` seconds,
with `cap` doubling from `EMAIL_RETRY_BASE_DELAY_SECONDS` up to
`EMAIL_RETRY_MAX_DELAY_SECONDS`.

What the worker meets outside the database is a `WorkerEnv`, by attempt number.
Whatever it holds, the worker makes at most `max_attempts` sends, and sleeps at
most the caps of all attempts but the last: at most
`(max_attempts - 1)·max_delay_seconds`, and at most the doubling series
`base_delay_seconds·(2^(max_attempts - 1) - 1)`; four sends and fourteen
seconds under the settings (`worker_bounded`). Because a failure writes the attempt number
over the retry count, the attempts the worker makes and the recovery budget it
leaves add up to at most `EMAIL_RECOVERY_MAX_RETRY_COUNT`: a user gets at most
twenty verification e-mail attempts from the worker and the recovery passes
that follow it (`registration_and_recovery_attempts_bounded`).
-/

namespace TechPulse

/-! ### Settings -/

def EMAIL_RETRY_MAX_ATTEMPTS : Nat := 4
def EMAIL_RETRY_BASE_DELAY_SECONDS : Nat := 2
def EMAIL_RETRY_MAX_DELAY_SECONDS : Nat := 30

/-- The backoff cap after attempt `attempt`:
    `min(max_delay_seconds, base_delay_seconds * (2 ** (attempt - 1)))`. -/
def retryDelayCap (baseDelaySeconds maxDelaySeconds attempt : Nat) : Nat :=
  min maxDelaySeconds (baseDelaySeconds * 2 ^ (attempt - 1))

/-- What the worker meets, by attempt number: the text of the exception
    `send_verification_email` raises (none when it returns), the time the outcome
    is recorded, `int(random.uniform(0, c))` inside
    `mark_verification_email_failed`, and the `random.random()` behind the
    backoff's `random.uniform(0, cap)`, which is `cap * random.random()`. -/
structure WorkerEnv where
  error : Nat → Option String
  clock : Nat → Nat
  uniform : Nat → Nat → Nat
  random : Nat → ℚ

/-- What a run of the worker did: the attempts it made, the delays it slept, and
    the tables after. -/
structure WorkerRun where
  attempts : List Nat
  sleeps : List ℚ
  db : AccountDb

namespace AccountDb

variable (env : WorkerEnv) (userId : Option Nat) (maxAttempts baseDelaySeconds maxDelaySeconds : Nat)

/-- `if user_id is not None: mark_verification_email_sent(user_id=user_id)`. -/
def markSentIfUser (db : AccountDb) (sentAt : Nat) : AccountDb :=
  match userId with
  | some u => db.markVerificationEmailSent u sentAt
  | none => db

/-- `if user_id is not None: mark_verification_email_failed(…, override_retry_count=attempt)`. -/
def markFailedIfUser (db : AccountDb) (attempt : Nat) (err : String) : AccountDb :=
  match userId with
  | some u => db.markVerificationEmailFailed (env.uniform attempt) u err (env.clock attempt) (some attempt)
  | none => db

/-- The body of `for attempt in range(1, max_attempts + 1)`, over the attempts
    left. -/
def retryLoop : List Nat → AccountDb → WorkerRun
  | [], db => ⟨[], [], db⟩
  | attempt :: rest, db =>
    match env.error attempt with
    | none => ⟨[attempt], [], db.markSentIfUser userId (env.clock attempt)⟩
    | some err =>
      let db := db.markFailedIfUser env userId attempt err
      if attempt ≥ maxAttempts then ⟨[attempt], [], db⟩
      else
        let delay := (retryDelayCap baseDelaySeconds maxDelaySeconds attempt : ℚ) * env.random attempt
        let r := retryLoop rest db
        ⟨attempt :: r.attempts, delay :: r.sleeps, r.db⟩

/-- `_send_verification_email_with_retries`. -/
def sendVerificationEmailWithRetries (db : AccountDb) : WorkerRun :=
  retryLoop env userId maxAttempts baseDelaySeconds maxDelaySeconds (List.range' 1 maxAttempts) db

end AccountDb

/-! ### What one record leaves -/

namespace AccountDb

variable {db : AccountDb}

theorem markVerificationEmailSent_ids (userId sentAt : Nat) :
    (db.markVerificationEmailSent userId sentAt).users.map (·.id) = db.users.map (·.id) := by
  unfold markVerificationEmailSent
  split <;> (try split_ifs) <;> simp

theorem markVerificationEmailFailed_ids (uniform : Nat → Nat) (userId : Nat) (err : String)
    (failedAt : Nat) (o : Option Nat) :
    (db.markVerificationEmailFailed uniform userId err failedAt o).users.map (·.id) = db.users.map (·.id) := by
  unfold markVerificationEmailFailed
  split <;> (try split_ifs) <;> simp

/-- A row found under `userId` and written back is found again. -/
theorem getUserById_saveUser_found {userId : Nat} {user : User} (hu : db.getUserById userId = some user)
    (user' : User) (hid : user'.id = user.id) : (db.saveUser user').getUserById userId = some user' := by
  have hi : user.id = userId := by simpa using List.find?_some hu
  rw [getUserById_saveUser _ _ ⟨user, List.mem_of_find?_eq_some hu, hid.symm⟩, if_pos (hid.trans hi)]

/-- After a recorded success the recovery loop has nothing left to do. -/
theorem recoveryBudget_markVerificationEmailSent (userId sentAt : Nat) :
    recoveryBudget ((db.markVerificationEmailSent userId sentAt).getUserById userId) = 0 := by
  unfold markVerificationEmailSent
  split
  · rename_i hu; rw [hu]; rfl
  · rename_i user hu
    split_ifs with hv
    · simp [hu, recoveryBudget, hv]
    · rw [getUserById_saveUser_found hu]
      · simp [recoveryBudget]
      · rfl

/-- A recorded failure with retry count `a` leaves at most the cap less `a`. -/
theorem recoveryBudget_markVerificationEmailFailed (uniform : Nat → Nat) (userId : Nat) (err : String)
    (failedAt a : Nat) :
    recoveryBudget ((db.markVerificationEmailFailed uniform userId err failedAt (some a)).getUserById userId) ≤
      EMAIL_RECOVERY_MAX_RETRY_COUNT - a := by
  unfold markVerificationEmailFailed
  split
  · rename_i hu; rw [hu]; exact Nat.zero_le _
  · rename_i user hu
    split_ifs with hv
    · simp [hu, recoveryBudget, hv]
    · dsimp only
      rw [getUserById_saveUser_found hu]
      · simp [recoveryBudget, hv]
      · rfl

theorem recoveryBudget_le_max (o : Option User) : recoveryBudget o ≤ EMAIL_RECOVERY_MAX_RETRY_COUNT := by
  cases o with
  | none => exact Nat.zero_le _
  | some u => exact (recoveryBudget_le u).trans (Nat.sub_le _ _)

end AccountDb

/-! ### The worker's loop -/

namespace AccountDb

variable (env : WorkerEnv) {maxAttempts baseDelaySeconds maxDelaySeconds : Nat}

theorem retryLoop_ids (userId : Option Nat) :
    ∀ (l : List Nat) (db : AccountDb),
      (retryLoop env userId maxAttempts baseDelaySeconds maxDelaySeconds l db).db.users.map (·.id) =
        db.users.map (·.id)
  | [], _ => rfl
  | a :: l, db => by
    unfold retryLoop
    split
    · cases userId <;> simp [markSentIfUser, markVerificationEmailSent_ids]
    · rename_i err _
      have hf : (db.markFailedIfUser env userId a err).users.map (·.id) = db.users.map (·.id) := by
        cases userId <;> simp [markFailedIfUser, markVerificationEmailFailed_ids]
      split_ifs
      · exact hf
      · exact (retryLoop_ids userId l _).trans hf

theorem retryLoop_attempts_length (userId : Option Nat) :
    ∀ (l : List Nat) (db : AccountDb),
      (retryLoop env userId maxAttempts baseDelaySeconds maxDelaySeconds l db).attempts.length ≤ l.length
  | [], _ => le_rfl
  | a :: l, db => by
    unfold retryLoop
    split
    · simp
    · split_ifs
      · simp
      · simpa using retryLoop_attempts_length userId l _

/-- Each sleep is at most its cap, and only an attempt below the last one sleeps. -/
theorem retryLoop_sleeps (hr : ∀ a, 0 ≤ env.random a ∧ env.random a ≤ 1) (userId : Option Nat) :
    ∀ (l : List Nat) (db : AccountDb),
      (retryLoop env userId maxAttempts baseDelaySeconds maxDelaySeconds l db).sleeps.sum ≤
        (((l.filter (· < maxAttempts)).map (retryDelayCap baseDelaySeconds maxDelaySeconds)).sum : ℚ)
  | [], _ => le_rfl
  | a :: l, db => by
    unfold retryLoop
    split
    · exact Nat.cast_nonneg _
    · dsimp only
      split_ifs with hmax
      · exact Nat.cast_nonneg _
      · simp only [List.sum_cons, List.filter_cons, decide_eq_true_eq, if_pos (not_le.mp hmax), List.map_cons,
          Nat.cast_add]
        exact add_le_add (mul_le_of_le_one_right (Nat.cast_nonneg _) (hr a).2)
          (retryLoop_sleeps hr userId l _)

/-- The attempts the loop makes from attempt `a` on and the recovery budget it
    leaves: a failure writes its attempt number over the retry count, a success
    leaves no budget. -/
theorem retryLoop_budget (i : Nat) :
    ∀ (n a : Nat) (db : AccountDb), 1 ≤ a → a + n ≤ EMAIL_RECOVERY_MAX_RETRY_COUNT + 1 →
      (retryLoop env (some i) maxAttempts baseDelaySeconds maxDelaySeconds (List.range' a n) db).attempts.length +
          recoveryBudget
            ((retryLoop env (some i) maxAttempts baseDelaySeconds maxDelaySeconds (List.range' a n) db).db.getUserById i) ≤
        max (recoveryBudget (db.getUserById i)) (EMAIL_RECOVERY_MAX_RETRY_COUNT + 1 - a)
  | 0, _, _, _, _ => by simp [retryLoop]
  | n + 1, a, db, ha, han => by
    rw [List.range'_succ]
    unfold retryLoop
    split
    · simp only [markSentIfUser, recoveryBudget_markVerificationEmailSent, List.length_singleton]
      omega
    · rename_i err _
      have hf : recoveryBudget ((db.markVerificationEmailFailed (env.uniform a) i err (env.clock a)
          (some a)).getUserById i) ≤ EMAIL_RECOVERY_MAX_RETRY_COUNT - a :=
        recoveryBudget_markVerificationEmailFailed _ _ _ _ _
      dsimp only [markFailedIfUser]
      split_ifs
      · simp only [List.length_singleton]
        omega
      · have ih := retryLoop_budget i n (a + 1)
          (db.markVerificationEmailFailed (env.uniform a) i err (env.clock a) (some a)) (by omega) (by omega)
        simp only [List.length_cons]
        omega

end AccountDb

/-! ### The worker -/

namespace AccountDb

/-- The attempts that sleep: all but the last. -/
theorem range'_filter_lt (n : Nat) : (List.range' 1 n).filter (· < n) = List.range' 1 (n - 1) := by
  cases n with
  | zero => rfl
  | succ n =>
    rw [List.range'_1_concat, List.filter_append,
      List.filter_eq_self.mpr fun a ha => by simp only [List.mem_range'_1] at ha; simp only [decide_eq_true_eq]; omega]
    simp
    omega

/-- The caps of the attempts `1` to `n`: each at most `max_delay_seconds`, and
    together at most the doubling series from `base_delay_seconds`. -/
theorem sum_retryDelayCap_le (b m : Nat) :
    ∀ n, ((List.range' 1 n).map (retryDelayCap b m)).sum ≤ n * m ∧
      ((List.range' 1 n).map (retryDelayCap b m)).sum + b ≤ b * 2 ^ n
  | 0 => by simp
  | n + 1 => by
    obtain ⟨h1, h2⟩ := sum_retryDelayCap_le b m n
    have hc : retryDelayCap b m (n + 1) ≤ m ∧ retryDelayCap b m (n + 1) ≤ b * 2 ^ n :=
      ⟨min_le_left _ _, min_le_right _ _⟩
    rw [List.range'_1_concat, List.map_append, List.sum_append, List.map_singleton, List.sum_singleton,
      Nat.add_comm 1 n, pow_succ, ← Nat.mul_assoc, Nat.succ_mul]
    omega

/-- **The worker is bounded.** Whatever the sends and the random draws, the
    worker makes at most `max_attempts` sends, and its backoff sleeps add up to at
    most the caps of the attempts but the last: at most
    `(max_attempts - 1)·max_delay_seconds`, and at most
    `base_delay_seconds·(2^(max_attempts - 1) - 1)`. -/
theorem worker_bounded (env : WorkerEnv) (hr : ∀ a, 0 ≤ env.random a ∧ env.random a ≤ 1)
    (userId : Option Nat) (db : AccountDb) (maxAttempts baseDelaySeconds maxDelaySeconds : Nat) :
    (db.sendVerificationEmailWithRetries env userId maxAttempts baseDelaySeconds
        maxDelaySeconds).attempts.length ≤ maxAttempts ∧
      (db.sendVerificationEmailWithRetries env userId maxAttempts baseDelaySeconds maxDelaySeconds).sleeps.sum ≤
        (((List.range' 1 (maxAttempts - 1)).map (retryDelayCap baseDelaySeconds maxDelaySeconds)).sum : ℚ) ∧
      ((List.range' 1 (maxAttempts - 1)).map (retryDelayCap baseDelaySeconds maxDelaySeconds)).sum ≤
        min ((maxAttempts - 1) * maxDelaySeconds) (baseDelaySeconds * (2 ^ (maxAttempts - 1) - 1)) := by
  obtain ⟨h1, h2⟩ := sum_retryDelayCap_le baseDelaySeconds maxDelaySeconds (maxAttempts - 1)
  refine ⟨(retryLoop_attempts_length env userId _ db).trans (List.length_range' _ _ _).le, ?_,
    le_min h1 (by rw [Nat.mul_sub_one]; omega)⟩
  rw [← range'_filter_lt]
  exact retryLoop_sleeps env hr userId _ db

/-- A worker whose every send fails, drawing the longest backoff each time. -/
def exampleFailingWorker : WorkerEnv :=
  ⟨fun _ => some "SMTP unavailable", fun a => 100 + a, fun _ c => c, fun _ => 1⟩

/-- Under the settings it sends four times and sleeps at most 2 + 4 + 8 seconds. -/
theorem example_worker_bounded :
    (exampleRecoveryDb.sendVerificationEmailWithRetries exampleFailingWorker (some exampleNewUser.id)
        EMAIL_RETRY_MAX_ATTEMPTS EMAIL_RETRY_BASE_DELAY_SECONDS EMAIL_RETRY_MAX_DELAY_SECONDS).attempts.length ≤
        EMAIL_RETRY_MAX_ATTEMPTS ∧
      (exampleRecoveryDb.sendVerificationEmailWithRetries exampleFailingWorker (some exampleNewUser.id)
        EMAIL_RETRY_MAX_ATTEMPTS EMAIL_RETRY_BASE_DELAY_SECONDS EMAIL_RETRY_MAX_DELAY_SECONDS).sleeps.sum ≤
        (((List.range' 1 (EMAIL_RETRY_MAX_ATTEMPTS - 1)).map
          (retryDelayCap EMAIL_RETRY_BASE_DELAY_SECONDS EMAIL_RETRY_MAX_DELAY_SECONDS)).sum : ℚ) ∧
      ((List.range' 1 (EMAIL_RETRY_MAX_ATTEMPTS - 1)).map
          (retryDelayCap EMAIL_RETRY_BASE_DELAY_SECONDS EMAIL_RETRY_MAX_DELAY_SECONDS)).sum ≤
        min ((EMAIL_RETRY_MAX_ATTEMPTS - 1) * EMAIL_RETRY_MAX_DELAY_SECONDS)
          (EMAIL_RETRY_BASE_DELAY_SECONDS * (2 ^ (EMAIL_RETRY_MAX_ATTEMPTS - 1) - 1)) :=
  worker_bounded exampleFailingWorker (fun _ => ⟨zero_le_one, le_rfl⟩) _ _ _ _ _

/-- The caps under the settings add up to fourteen seconds, the doubling series. -/
example : ((List.range' 1 (EMAIL_RETRY_MAX_ATTEMPTS - 1)).map
    (retryDelayCap EMAIL_RETRY_BASE_DELAY_SECONDS EMAIL_RETRY_MAX_DELAY_SECONDS)).sum = 14 := by
  decide

/-- **At most twenty attempts in all.** The attempts of the registration worker
    and of any recovery passes run after it add up to at most
    `EMAIL_RECOVERY_MAX_RETRY_COUNT` for the user: a worker that fails leaves the
    retry count at its number of attempts, and one that succeeds leaves nothing
    for the loop to do. -/
theorem registration_and_recovery_attempts_bounded (env : WorkerEnv) (db : AccountDb)
    (hnd : (db.users.map (·.id)).Nodup) (i : Nat) (passes : List (Nat × Mailer)) :
    (db.sendVerificationEmailWithRetries env (some i) EMAIL_RETRY_MAX_ATTEMPTS EMAIL_RETRY_BASE_DELAY_SECONDS
        EMAIL_RETRY_MAX_DELAY_SECONDS).attempts.length +
      attempts i ((db.sendVerificationEmailWithRetries env (some i) EMAIL_RETRY_MAX_ATTEMPTS
        EMAIL_RETRY_BASE_DELAY_SECONDS EMAIL_RETRY_MAX_DELAY_SECONDS).db.recoveryRun passes).1 ≤
      EMAIL_RECOVERY_MAX_RETRY_COUNT := by
  have hw := @retryLoop_budget env EMAIL_RETRY_MAX_ATTEMPTS EMAIL_RETRY_BASE_DELAY_SECONDS
    EMAIL_RETRY_MAX_DELAY_SECONDS i EMAIL_RETRY_MAX_ATTEMPTS 1 db le_rfl (by decide)
  have hrun := recoveryRun_budget i passes _
    ((@retryLoop_ids env EMAIL_RETRY_MAX_ATTEMPTS EMAIL_RETRY_BASE_DELAY_SECONDS EMAIL_RETRY_MAX_DELAY_SECONDS
      (some i) (List.range' 1 EMAIL_RETRY_MAX_ATTEMPTS) db).symm ▸ hnd)
  have hmax := recoveryBudget_le_max (db.getUserById i)
  unfold sendVerificationEmailWithRetries
  simp only [EMAIL_RECOVERY_MAX_RETRY_COUNT] at hw hrun hmax ⊢
  omega

/-- A new user whose four worker sends and all recovery sends fail. -/
theorem example_registration_and_recovery_bounded :
    (exampleRecoveryDb.sendVerificationEmailWithRetries exampleFailingWorker (some exampleNewUser.id)
        EMAIL_RETRY_MAX_ATTEMPTS EMAIL_RETRY_BASE_DELAY_SECONDS EMAIL_RETRY_MAX_DELAY_SECONDS).attempts.length +
      attempts exampleNewUser.id ((exampleRecoveryDb.sendVerificationEmailWithRetries exampleFailingWorker
        (some exampleNewUser.id) EMAIL_RETRY_MAX_ATTEMPTS EMAIL_RETRY_BASE_DELAY_SECONDS
        EMAIL_RETRY_MAX_DELAY_SECONDS).db.recoveryRun exampleFailingPasses).1 ≤
      EMAIL_RECOVERY_MAX_RETRY_COUNT :=
  registration_and_recovery_attempts_bounded exampleFailingWorker exampleRecoveryDb (by decide) _ _

end AccountDb

end TechPulse
