import Mathlib.Data.List.Nodup
import TechPulse.Tables

/-!
# Audit events and security alerts

`app/services/audit_service.py`, `app/core/audit_middleware.py`, and the two
endpoints that touch the tables: `capture_analytics_event`
(`app/api/v1/analytics.py`) and `acknowledge_security_alert`
(`app/api/v1/admin.py`).

Each call of `log_http_audit_event` is one transaction: it inserts the event,
counts the events its rule looks at over the last `ALERT_LOOKBACK_MINUTES`,
and, past the rule's threshold, inserts an alert unless an unacknowledged alert
of the same rule, actor and IP was created in the last `ALERT_DEDUP_MINUTES`.
Times are whole seconds on one clock: the event's `occurred_at` and the alert's
`created_at` are the time of the call. The columns hold `func.now()`, which
SQLite stores as the text `YYYY-MM-DD HH:MM:SS`, while the bounds
`now - timedelta(...)` are bound with their microseconds. SQLite compares the
two as text, so a row of the bound's own second sorts before the bound: the
queries see the rows of the 900 seconds after it, and `>=` acts as `>` on whole
seconds.

Over any run of requests, analytics events and acknowledgements with a clock
that does not go back:
* every alert is backed by its rule's threshold of events in the lookback
  window that ends at its creation (`security_alerts_have_evidence`), and every
  brute-force alert by that many requests to the login path that failed
  (`brute_force_alert_backed_by_failed_logins`);
* two alerts of one key are at least the dedup window apart in stored seconds,
  or the first was acknowledged by the time of the second
  (`security_alerts_deduplicated`); in real time they can be less than that
  apart,
  except for the IP `""`: the dedup query asks for `ip_address IS NULL` when the
  IP is falsy, which the alert it inserts with `""` never matches
  (`empty_ip_alerts_never_deduplicated`).
-/

namespace TechPulse

/-! ### Settings -/

def AUDIT_ENABLED : Bool := true
def ALERT_LOGIN_FAILURE_THRESHOLD : Nat := 5
def ALERT_ACCESS_DENIED_THRESHOLD : Nat := 10
def ALERT_LOOKBACK_MINUTES : Nat := 15
def ALERT_DEDUP_MINUTES : Nat := 15

/-- Python's truth value of an optional string: `None` and `""` are false. -/
def pyTruthy : Option String → Bool
  | some s => s != ""
  | none => false

/-- `str.startswith`. -/
def pyStartsWith (s pre : String) : Bool := pre.data.isPrefixOf s.data

/-! ### Tables -/

/-- A row of `audit_events`; `metadata_json` is left out, nothing reads it. -/
structure AuditEvent where
  id : Nat
  eventType : String
  actorUserId : Option Nat
  method : String
  path : String
  statusCode : Nat
  ipAddress : Option String
  userAgent : Option String
  requestId : Option String
  occurredAt : Nat
deriving DecidableEq, Repr

/-- A row of `security_alerts`. -/
structure SecurityAlert where
  id : Nat
  ruleCode : String
  severity : String
  title : String
  description : String
  actorUserId : Option Nat
  ipAddress : Option String
  auditEventId : Option Nat
  acknowledged : Bool
  acknowledgedAt : Option Nat
  acknowledgedByUserId : Option Nat
  createdAt : Nat
deriving DecidableEq, Repr

/-- The two tables. -/
structure AuditDb where
  events : List AuditEvent
  alerts : List SecurityAlert

/-- The keyword arguments of `log_http_audit_event`, but `metadata`. -/
structure HttpAuditArgs where
  eventType : String
  actorUserId : Option Nat
  method : String
  path : String
  statusCode : Nat
  ipAddress : Option String
  userAgent : Option String
  requestId : Option String
deriving DecidableEq, Repr

/-! ### The audit service -/

/-- An event counted by `_count_events` for this type, actor (when given) and IP
    (when truthy). -/
def AuditEvent.matches (e : AuditEvent) (eventType : String) (actorUserId : Option Nat)
    (ipAddress : Option String) : Bool :=
  e.eventType == eventType && actorUserId.all (fun a => e.actorUserId == some a) &&
    (!pyTruthy ipAddress || e.ipAddress == ipAddress)

namespace AuditDb

/-- `_count_events`, with `from_time` in the second `fromTime`: SQLite's text
    comparison counts the rows of the later seconds only. -/
def countEvents (db : AuditDb) (eventType : String) (fromTime : Int) (actorUserId : Option Nat)
    (ipAddress : Option String) : Nat :=
  db.events.countP fun e => e.matches eventType actorUserId ipAddress && decide (fromTime < e.occurredAt)

end AuditDb

/-- An alert found by the query of `_create_alert_if_needed`: same rule, not
    acknowledged, created after the second `dedupFrom` of `dedup_from`, of the
    same actor (`IS NULL` for none), from the same IP when it is truthy and from
    none otherwise. -/
def SecurityAlert.blocks (a : SecurityAlert) (ruleCode : String) (actorUserId : Option Nat)
    (ipAddress : Option String) (dedupFrom : Int) : Bool :=
  a.ruleCode == ruleCode && !a.acknowledged && decide (dedupFrom < a.createdAt) &&
    a.actorUserId == actorUserId && (if pyTruthy ipAddress then a.ipAddress == ipAddress else a.ipAddress == none)

namespace AuditDb

/-- `_create_alert_if_needed`, at time `now`. -/
def createAlertIfNeeded (db : AuditDb) (ruleCode severity title description : String)
    (actorUserId : Option Nat) (ipAddress : Option String) (auditEventId : Option Nat)
    (dedupFrom : Int) (now : Nat) : AuditDb :=
  if db.alerts.any (·.blocks ruleCode actorUserId ipAddress dedupFrom) then db
  else
    { db with
      alerts := db.alerts ++
        [{ id := nextRowId (db.alerts.map (·.id)), ruleCode := ruleCode, severity := severity,
           title := title, description := description, actorUserId := actorUserId,
           ipAddress := ipAddress, auditEventId := auditEventId, acknowledged := false,
           acknowledgedAt := none, acknowledgedByUserId := none, createdAt := now }] }

/-- `_detect_and_create_alerts` for the event just inserted, at time `now`. -/
def detectAndCreateAlerts (db : AuditDb) (event : AuditEvent) (now : Nat) : AuditDb :=
  let lookbackFrom : Int := now - ALERT_LOOKBACK_MINUTES * 60
  let dedupFrom : Int := now - ALERT_DEDUP_MINUTES * 60
  let db :=
    if event.eventType = "auth.login.failed" ∧ pyTruthy event.ipAddress then
      let failures := db.countEvents "auth.login.failed" lookbackFrom none event.ipAddress
      if failures ≥ ALERT_LOGIN_FAILURE_THRESHOLD then
        db.createAlertIfNeeded "AUTH_BRUTE_FORCE_IP" "high" "Possible brute force login attempts"
          (toString failures ++ " failed login attempts from IP " ++ event.ipAddress.getD "" ++
            " in the last " ++ toString ALERT_LOOKBACK_MINUTES ++ " minute(s).")
          event.actorUserId event.ipAddress (some event.id) dedupFrom now
      else db
    else db
  if event.eventType = "auth.access.denied" then
    let deniedCount := db.countEvents "auth.access.denied" lookbackFrom event.actorUserId event.ipAddress
    if deniedCount ≥ ALERT_ACCESS_DENIED_THRESHOLD then
      db.createAlertIfNeeded "EXCESSIVE_FORBIDDEN_REQUESTS" "medium" "Excessive forbidden requests detected"
        (toString deniedCount ++ " forbidden requests detected in the last " ++
          toString ALERT_LOOKBACK_MINUTES ++ " minute(s).")
        event.actorUserId event.ipAddress (some event.id) dedupFrom now
    else db
  else db

/-- The row `log_http_audit_event` inserts. -/
def newEvent (db : AuditDb) (args : HttpAuditArgs) (now : Nat) : AuditEvent :=
  { id := nextRowId (db.events.map (·.id)), eventType := args.eventType,
    actorUserId := args.actorUserId, method := args.method, path := args.path,
    statusCode := args.statusCode, ipAddress := args.ipAddress, userAgent := args.userAgent,
    requestId := args.requestId, occurredAt := now }

/-- `log_http_audit_event` at time `now`: the insert and the alerts it raises,
    committed together. -/
def logHttpAuditEvent (db : AuditDb) (args : HttpAuditArgs) (now : Nat) : AuditDb :=
  { db with events := db.events ++ [db.newEvent args now] }.detectAndCreateAlerts (db.newEvent args now) now

/-- The commit of a changed alert: the `UPDATE` by primary key. -/
def saveAlert (db : AuditDb) (a : SecurityAlert) : AuditDb :=
  { db with alerts := db.alerts.map fun x => if x.id = a.id then a else x }

/-- `acknowledge_security_alert` by admin `adminUserId` at time `now`: the
    response's `detail` and `alert_id`, and the tables. -/
def acknowledgeSecurityAlert (db : AuditDb) (alertId adminUserId now : Nat) :
    (String × Option Nat) × AuditDb :=
  match db.alerts.find? (·.id = alertId) with
  | none => (("Alert not found", none), db)
  | some alert =>
    if alert.acknowledged then (("Alert already acknowledged", some alertId), db)
    else
      (("Alert acknowledged", some alertId),
        db.saveAlert { alert with acknowledged := true, acknowledgedAt := some now,
                                  acknowledgedByUserId := some adminUserId })

end AuditDb

/-! ### The writers -/

/-- A request as the middleware sees it once the app answered: its method,
    path, final status, the actor it resolved, the client's host, the
    `user-agent` header and the request id it drew. -/
structure HttpRequest where
  method : String
  path : String
  statusCode : Nat
  actorUserId : Option Nat
  ipAddress : Option String
  userAgent : Option String
  requestId : String
deriving DecidableEq, Repr

namespace AuditMiddleware

def SKIP_PREFIXES : List String := ["/docs", "/openapi", "/redoc", "/favicon.ico"]

/-- `_should_skip`. -/
def shouldSkip (path : String) : Bool :=
  if !pyStartsWith path "/api/" then true else SKIP_PREFIXES.any (pyStartsWith path)

/-- `_classify_event_type`. -/
def classifyEventType (path : String) (statusCode : Nat) : String :=
  if path = "/api/v1/auth/login" then
    if statusCode ≥ 400 then "auth.login.failed" else "auth.login.success"
  else if statusCode = 403 then "auth.access.denied"
  else "http.request"

/-- The `finally` block of `dispatch`: the event it writes for a request, if any. -/
def auditArgs (r : HttpRequest) : Option HttpAuditArgs :=
  if !AUDIT_ENABLED || shouldSkip r.path then none
  else
    some { eventType := classifyEventType r.path r.statusCode, actorUserId := r.actorUserId,
           method := r.method, path := r.path, statusCode := r.statusCode,
           ipAddress := r.ipAddress, userAgent := r.userAgent, requestId := some r.requestId }

end AuditMiddleware

/-- `capture_analytics_event` for a payload that passed validation, by user
    `actorUserId`: the event it logs, or the detail of its 400. `lower` is
    `str.lower`. -/
def captureAnalyticsEvent (lower : String → String) (eventType action : String) (actorUserId : Nat)
    (method path : String) (ipAddress userAgent requestId : Option String) : Except String HttpAuditArgs :=
  let isCookieEvent := eventType == "cookie_consent"
  let action := lower action
  if isCookieEvent && !(action == "accepted" || action == "declined") then
    throw "Cookie consent action must be accepted or declined."
  else
    pure { eventType :=
             if isCookieEvent && action == "accepted" then "cookie.consent.accepted"
             else if isCookieEvent && action == "declined" then "cookie.consent.declined"
             else "client.activity",
           actorUserId := some actorUserId, method := method, path := path, statusCode := 202,
           ipAddress := ipAddress, userAgent := userAgent, requestId := requestId }

/-- A call that writes the audit tables: a request leaving the audit middleware,
    `POST /api/v1/analytics/events` inside the request, or
    `PATCH /api/v1/admin/alerts/<alert_id>/ack`. -/
inductive AuditCall where
  | request (r : HttpRequest)
  | analytics (eventType action : String) (actorUserId : Nat) (method path : String)
      (ipAddress userAgent requestId : Option String)
  | acknowledge (alertId adminUserId : Nat)
deriving DecidableEq, Repr

/-- The event a call asks `log_http_audit_event` to write, if any. -/
def AuditCall.logged (lower : String → String) : AuditCall → Option HttpAuditArgs
  | .request r => AuditMiddleware.auditArgs r
  | .analytics ty a u m p ip ua rid =>
    (captureAnalyticsEvent lower ty a u m p ip ua rid).toOption
  | .acknowledge .. => none

namespace AuditDb

/-- A call at time `now`. -/
def call (db : AuditDb) (lower : String → String) (now : Nat) (c : AuditCall) : AuditDb :=
  match c with
  | .acknowledge alertId adminUserId => (db.acknowledgeSecurityAlert alertId adminUserId now).2
  | c =>
    match c.logged lower with
    | some args => db.logHttpAuditEvent args now
    | none => db

/-- The calls, each at its time, from the empty tables. -/
def run (lower : String → String) (calls : List (Nat × AuditCall)) : AuditDb :=
  calls.foldl (fun db x => db.call lower x.1 x.2) ⟨[], []⟩

theorem run_snoc (lower : String → String) (calls : List (Nat × AuditCall)) (x : Nat × AuditCall) :
    run lower (calls ++ [x]) = (run lower calls).call lower x.1 x.2 := by
  simp [run, List.foldl_append]

end AuditDb

/-! ### What one call does to the tables -/

namespace AuditDb

variable {db : AuditDb} {now : Nat}

@[simp] theorem createAlertIfNeeded_events (rule sev title desc : String) (actor : Option Nat)
    (ip : Option String) (ev : Option Nat) (dedupFrom : Int) :
    (db.createAlertIfNeeded rule sev title desc actor ip ev dedupFrom now).events = db.events := by
  unfold createAlertIfNeeded
  split_ifs <;> rfl

@[simp] theorem detectAndCreateAlerts_events (e : AuditEvent) :
    (db.detectAndCreateAlerts e now).events = db.events := by
  simp only [detectAndCreateAlerts]
  split_ifs <;> simp

/-- What a rule asks of a count of events by type, actor and IP. A brute-force
    alert counts failed logins from its IP, whatever their actor; a
    forbidden-requests alert counts denied requests of its actor and IP. No
    other rule raises alerts. -/
def RuleMet (count : String → Option Nat → Option String → Nat) (ruleCode : String)
    (actorUserId : Option Nat) (ipAddress : Option String) : Prop :=
  if ruleCode = "AUTH_BRUTE_FORCE_IP" then
    pyTruthy ipAddress ∧ ALERT_LOGIN_FAILURE_THRESHOLD ≤ count "auth.login.failed" none ipAddress
  else
    ruleCode = "EXCESSIVE_FORBIDDEN_REQUESTS" ∧
      ALERT_ACCESS_DENIED_THRESHOLD ≤ count "auth.access.denied" actorUserId ipAddress

theorem RuleMet.mono {c₁ c₂ : String → Option Nat → Option String → Nat}
    (hc : ∀ ty a ip, c₁ ty a ip ≤ c₂ ty a ip) {r : String} {a : Option Nat} {ip : Option String}
    (h : RuleMet c₁ r a ip) : RuleMet c₂ r a ip := by
  unfold RuleMet at h ⊢
  split_ifs at h ⊢
  · exact ⟨h.1, le_trans h.2 (hc _ _ _)⟩
  · exact ⟨h.1, le_trans h.2 (hc _ _ _)⟩

/-- The rule of an alert raised at `now` holds of the counts since the lookback
    began. -/
def Supported (db : AuditDb) (now : Nat) : String → Option Nat → Option String → Prop :=
  RuleMet fun ty a ip => db.countEvents ty ((now : Int) - ALERT_LOOKBACK_MINUTES * 60) a ip

/-- What `_create_alert_if_needed` and `_detect_and_create_alerts` can do to
    the tables: nothing, or add one alert, new, unacknowledged, created at `now`,
    whose rule holds, and which no alert blocks. -/
inductive AlertsStep (db : AuditDb) (now : Nat) : AuditDb → Prop
  | keep : AlertsStep db now db
  | create (a : SecurityAlert) : a.id ∉ db.alerts.map (·.id) → a.createdAt = now →
      a.acknowledged = false → a.acknowledgedAt = none →
      db.Supported now a.ruleCode a.actorUserId a.ipAddress →
      (∀ x ∈ db.alerts,
        x.blocks a.ruleCode a.actorUserId a.ipAddress ((now : Int) - ALERT_DEDUP_MINUTES * 60) = false) →
      AlertsStep db now { db with alerts := db.alerts ++ [a] }

theorem createAlertIfNeeded_step {rule sev title desc : String} {actor : Option Nat}
    {ip : Option String} {ev : Option Nat} (hs : db.Supported now rule actor ip) :
    AlertsStep db now (db.createAlertIfNeeded rule sev title desc actor ip ev
      ((now : Int) - ALERT_DEDUP_MINUTES * 60) now) := by
  unfold createAlertIfNeeded
  split_ifs with h
  · exact .keep
  · exact .create _ (nextRowId_not_mem _) rfl rfl rfl hs (by simpa using h)

theorem detectAndCreateAlerts_step (e : AuditEvent) :
    AlertsStep db now (db.detectAndCreateAlerts e now) := by
  simp only [detectAndCreateAlerts]
  by_cases hf : e.eventType = "auth.login.failed" ∧ pyTruthy e.ipAddress
  · have hd : e.eventType ≠ "auth.access.denied" := by rw [hf.1]; decide
    rw [if_pos hf, if_neg hd]
    split_ifs with hc
    · exact createAlertIfNeeded_step (by simp only [Supported, RuleMet, if_true]; exact ⟨hf.2, hc⟩)
    · exact .keep
  · rw [if_neg hf]
    split_ifs with hd hc
    · exact createAlertIfNeeded_step (by simp only [Supported, RuleMet]; simp [hc])
    · exact .keep
    · exact .keep

end AuditDb

/-! ### The invariant of the tables -/

/-- Two alerts of one key, `a` created first: `b` came at least the dedup window
    after `a` in stored seconds, or `a` was acknowledged by then. The key's IP is
    `None` or a non-empty string. -/
def SecurityAlert.Spaced (a b : SecurityAlert) : Prop :=
  a.ruleCode = b.ruleCode → a.actorUserId = b.actorUserId → a.ipAddress = b.ipAddress →
    a.ipAddress ≠ some "" →
    a.createdAt + ALERT_DEDUP_MINUTES * 60 ≤ b.createdAt ∨ ∃ t, a.acknowledgedAt = some t ∧ t ≤ b.createdAt

namespace AuditDb

/-- The events of a type, actor and IP, as `_count_events` picks them, in the
    lookback window that ends at `upTo`: its last `ALERT_LOOKBACK_MINUTES * 60`
    seconds, `upTo` included. -/
def countWindow (db : AuditDb) (eventType : String) (upTo : Nat) (actorUserId : Option Nat)
    (ipAddress : Option String) : Nat :=
  db.events.countP fun e =>
    e.matches eventType actorUserId ipAddress &&
      decide (upTo < e.occurredAt + ALERT_LOOKBACK_MINUTES * 60 ∧ e.occurredAt ≤ upTo)

/-- The rule of alert `a` holds of the events in the lookback window that ends
    at its creation. -/
def Evidenced (db : AuditDb) (a : SecurityAlert) : Prop :=
  RuleMet (fun ty ac ip => db.countWindow ty a.createdAt ac ip) a.ruleCode a.actorUserId a.ipAddress

/-- What every call keeps true of the tables at time `T`: nothing is dated
    after `T`; an alert is acknowledged exactly when it has an acknowledgement
    time; alert ids are distinct; every alert is evidenced and every two are
    spaced. -/
structure Inv (db : AuditDb) (T : Nat) : Prop where
  events_le : ∀ e ∈ db.events, e.occurredAt ≤ T
  created_le : ∀ a ∈ db.alerts, a.createdAt ≤ T
  acked_le : ∀ a ∈ db.alerts, ∀ t ∈ a.acknowledgedAt, t ≤ T
  acked_iff : ∀ a ∈ db.alerts, a.acknowledged = a.acknowledgedAt.isSome
  ids : (db.alerts.map (·.id)).Nodup
  evidenced : ∀ a ∈ db.alerts, db.Evidenced a
  spaced : db.alerts.Pairwise SecurityAlert.Spaced

variable {db : AuditDb} {T now : Nat}

theorem inv_empty : Inv ⟨[], []⟩ 0 :=
  ⟨by simp, by simp, by simp, by simp, List.nodup_nil, by simp, List.Pairwise.nil⟩

theorem Inv.mono (h : db.Inv T) (hT : T ≤ now) : db.Inv now :=
  { h with
    events_le := fun e he => le_trans (h.events_le e he) hT,
    created_le := fun a ha => le_trans (h.created_le a ha) hT,
    acked_le := fun a ha t ht => le_trans (h.acked_le a ha t ht) hT }

/-- Under the clock, the events since the lookback began are those of the
    window that ends now. -/
theorem Inv.countWindow_eq (h : db.Inv now) (ty : String) (a : Option Nat) (ip : Option String) :
    db.countWindow ty now a ip = db.countEvents ty ((now : Int) - ALERT_LOOKBACK_MINUTES * 60) a ip :=
  List.countP_congr fun e he => by
    have := h.events_le e he
    simp only [Bool.and_eq_true, decide_eq_true_eq]
    exact and_congr_right fun _ => by omega

/-- Inserting an event dated `now` keeps the invariant, moved on to `now`. -/
theorem Inv.insert (h : db.Inv T) (hT : T ≤ now) {e : AuditEvent} (he : e.occurredAt = now) :
    Inv { db with events := db.events ++ [e] } now :=
  { h.mono hT with
    events_le := fun x hx => by
      rcases List.mem_append.mp hx with hx | hx
      · exact le_trans (h.events_le x hx) hT
      · rw [List.mem_singleton.mp hx, he]
    evidenced := fun a ha => RuleMet.mono (fun _ _ _ => by simp [countWindow, List.countP_append])
      (h.evidenced a ha) }

/-- An alert no alert of its key blocks is spaced from each of them. -/
theorem spaced_of_not_blocks (h : db.Inv now) {a x : SecurityAlert} (hx : x ∈ db.alerts)
    (hc : a.createdAt = now)
    (hb : x.blocks a.ruleCode a.actorUserId a.ipAddress ((now : Int) - ALERT_DEDUP_MINUTES * 60) = false) :
    x.Spaced a := by
  intro hr ha hip hne
  have hipc : (if pyTruthy a.ipAddress then x.ipAddress == a.ipAddress else x.ipAddress == none) = true := by
    rw [← hip]
    cases hx' : x.ipAddress with
    | none => rfl
    | some s =>
      have hs : s ≠ "" := fun e => hne (by rw [hx', e])
      simp [pyTruthy, hs]
  simp only [SecurityAlert.blocks, hr, ha, hipc, beq_self_eq_true, Bool.true_and, Bool.and_true,
    Bool.and_eq_false_iff, Bool.not_eq_false', decide_eq_false_iff_not, not_lt] at hb
  rcases hb with hack | hold
  · have hs := h.acked_iff x hx
    rw [hack] at hs
    obtain ⟨t, ht⟩ := Option.isSome_iff_exists.mp hs.symm
    exact .inr ⟨t, ht, hc ▸ h.acked_le x hx t ht⟩
  · exact .inl (by omega)

/-- Whatever `_detect_and_create_alerts` does keeps the invariant. -/
theorem Inv.alertsStep (h : db.Inv now) {db' : AuditDb} (hs : AlertsStep db now db') : db'.Inv now := by
  cases hs with
  | keep => exact h
  | create a hid hc hack hat hsup hfree =>
    have hnew : ∀ {P : SecurityAlert → Prop}, (∀ x ∈ db.alerts, P x) → P a → ∀ x ∈ db.alerts ++ [a], P x :=
      fun hl ha x hx => (List.mem_append.mp hx).elim (hl x) fun e => List.mem_singleton.mp e ▸ ha
    refine ⟨h.events_le, hnew h.created_le hc.le, hnew h.acked_le (by rw [hat]; intro t ht; cases ht),
      hnew h.acked_iff (by rw [hack, hat]; rfl), ?_, hnew h.evidenced ?_, ?_⟩
    · rw [List.map_append, List.nodup_append]
      exact ⟨h.ids, List.nodup_singleton _, fun x hx hy => hid (List.mem_singleton.mp (by simpa using hy) ▸ hx)⟩
    · show RuleMet (fun ty ac ip => db.countWindow ty a.createdAt ac ip) a.ruleCode a.actorUserId a.ipAddress
      rw [hc]
      exact RuleMet.mono (fun ty ac ip => (h.countWindow_eq ty ac ip).ge) hsup
    · exact List.pairwise_append.mpr ⟨h.spaced, List.pairwise_singleton _ _,
        fun x hx y hy => List.mem_singleton.mp hy ▸ spaced_of_not_blocks h hx hc (hfree x hx)⟩

/-- `log_http_audit_event` keeps the invariant, moved on to the time of the
    call. -/
theorem Inv.logHttpAuditEvent (h : db.Inv T) (hT : T ≤ now) (args : HttpAuditArgs) :
    (db.logHttpAuditEvent args now).Inv now :=
  (h.insert hT rfl).alertsStep (detectAndCreateAlerts_step _)

end AuditDb

/-- `y` is alert `x` after a call at `now`: its key and creation time are
    kept, and its acknowledgement too unless it had none and was acknowledged
    at `now`. -/
structure SecurityAlert.Acked (now : Nat) (x y : SecurityAlert) : Prop where
  id : y.id = x.id
  ruleCode : y.ruleCode = x.ruleCode
  actorUserId : y.actorUserId = x.actorUserId
  ipAddress : y.ipAddress = x.ipAddress
  createdAt : y.createdAt = x.createdAt
  ack : (y.acknowledged = x.acknowledged ∧ y.acknowledgedAt = x.acknowledgedAt) ∨
    (x.acknowledgedAt = none ∧ y.acknowledged = true ∧ y.acknowledgedAt = some now)

/-- An acknowledgement keeps two alerts spaced. -/
theorem SecurityAlert.Acked.spaced {now : Nat} {a a' b b' : SecurityAlert} (ha : a.Acked now a')
    (hb : b.Acked now b') (hs : a.Spaced b) : a'.Spaced b' := by
  intro hr hac hip hne
  rw [ha.ruleCode, hb.ruleCode] at hr
  rw [ha.actorUserId, hb.actorUserId] at hac
  rw [ha.ipAddress, hb.ipAddress] at hip
  rw [ha.ipAddress] at hne
  rw [ha.createdAt, hb.createdAt]
  rcases hs hr hac hip hne with hlt | ⟨t, ht, hle⟩
  · exact .inl hlt
  · rcases ha.ack with ⟨-, e⟩ | ⟨e, -⟩
    · exact .inr ⟨t, e.trans ht, hle⟩
    · rw [e] at ht; cases ht

namespace AuditDb

variable {db : AuditDb} {T now : Nat}

/-- Acknowledging alerts keeps the invariant. -/
theorem Inv.map (h : db.Inv T) (hT : T ≤ now) {g : SecurityAlert → SecurityAlert}
    (hg : ∀ x ∈ db.alerts, x.Acked now (g x)) : Inv { db with alerts := db.alerts.map g } now := by
  have h' := h.mono hT
  have hid : db.alerts.map ((·.id) ∘ g) = db.alerts.map (·.id) :=
    List.map_congr_left fun x hx => (hg x hx).id
  refine ⟨h'.events_le, List.forall_mem_map.mpr fun x hx => (hg x hx).createdAt ▸ h'.created_le x hx,
    List.forall_mem_map.mpr fun x hx t ht => ?_, List.forall_mem_map.mpr fun x hx => ?_,
    by rw [List.map_map, hid]; exact h.ids, List.forall_mem_map.mpr fun x hx => ?_,
    List.pairwise_map.mpr (h.spaced.imp_of_mem fun ha hb => (hg _ ha).spaced (hg _ hb))⟩
  · rcases (hg x hx).ack with ⟨-, e⟩ | ⟨-, -, e⟩
    · exact h'.acked_le x hx t (e ▸ ht)
    · rw [e] at ht; cases ht; exact le_refl _
  · rcases (hg x hx).ack with ⟨e₁, e₂⟩ | ⟨-, e₁, e₂⟩
    · rw [e₁, e₂]; exact h.acked_iff x hx
    · rw [e₁, e₂]; rfl
  · show RuleMet (fun ty ac ip => db.countWindow ty (g x).createdAt ac ip) (g x).ruleCode
      (g x).actorUserId (g x).ipAddress
    rw [(hg x hx).createdAt, (hg x hx).ruleCode, (hg x hx).actorUserId, (hg x hx).ipAddress]
    exact h.evidenced x hx

/-- `acknowledge_security_alert` keeps the invariant, moved on to the time of
    the call. -/
theorem Inv.acknowledge (h : db.Inv T) (hT : T ≤ now) (alertId adminUserId : Nat) :
    (db.acknowledgeSecurityAlert alertId adminUserId now).2.Inv now := by
  unfold acknowledgeSecurityAlert
  split
  · exact h.mono hT
  · rename_i alert hfind
    split_ifs with hack
    · exact h.mono hT
    · have hmem := List.mem_of_find?_eq_some hfind
      have hid : alert.id = alertId := by simpa using List.find?_some hfind
      have hnone : alert.acknowledgedAt = none := by
        have := h.acked_iff alert hmem
        rw [Bool.not_eq_true] at hack
        rw [hack] at this
        exact Option.not_isSome_iff_eq_none.mp (by simp [← this])
      refine h.map hT fun x hx => ?_
      by_cases e : x.id = alert.id
      · cases List.inj_on_of_nodup_map h.ids hx hmem e
        simp only [e, if_true]
        exact ⟨rfl, rfl, rfl, rfl, rfl, .inr ⟨hnone, rfl, rfl⟩⟩
      · simp only [e, if_false]
        exact ⟨rfl, rfl, rfl, rfl, rfl, .inl ⟨rfl, rfl⟩⟩

/-- Every call keeps the invariant, moved on to the time of the call. -/
theorem Inv.call (h : db.Inv T) (hT : T ≤ now) (lower : String → String) (c : AuditCall) :
    (db.call lower now c).Inv now := by
  unfold AuditDb.call
  split
  · exact h.acknowledge hT _ _
  · split
    · exact h.logHttpAuditEvent hT _
    · exact h.mono hT

/-- Over a run with a clock that does not go back, the invariant holds at any
    time no earlier than the last call. -/
theorem inv_run (lower : String → String) (calls : List (Nat × AuditCall))
    (hsorted : calls.Pairwise fun x y => x.1 ≤ y.1) {T : Nat} (hT : ∀ x ∈ calls, x.1 ≤ T) :
    (run lower calls).Inv T := by
  induction calls using List.reverseRecOn generalizing T with
  | nil => exact inv_empty.mono (Nat.zero_le T)
  | append_singleton calls x ih =>
    rw [List.pairwise_append] at hsorted
    have hi := ih hsorted.1 fun y hy => hsorted.2.2 y hy x (List.mem_singleton_self x)
    rw [run_snoc]
    exact (hi.call le_rfl lower x.2).mono (hT x (List.mem_append_right _ (List.mem_singleton_self x)))

/-- The time of the last call of a run, or later. -/
theorem le_lastTime (calls : List (Nat × AuditCall)) :
    ∀ x ∈ calls, x.1 ≤ (calls.map (·.1)).foldr max 0 :=
  fun _ hx => le_foldr_max (List.mem_map_of_mem _ hx)

/-- Six failed logins from one IP, a second apart. -/
def exampleLogins : List (Nat × AuditCall) :=
  [1000, 1001, 1002, 1003, 1004, 1005].map fun t =>
    (t, .request ⟨"POST", "/api/v1/auth/login", 401, none, some "203.0.113.9", none, "r" ++ toString t⟩)

/-- **Alerts of one key are spaced.** After any run with a clock that does not
    go back, of two alerts of the same rule, actor and IP (`None` or non-empty),
    the later was created at least `ALERT_DEDUP_MINUTES` after the earlier, in
    stored seconds, or the earlier had been acknowledged by then. -/
theorem security_alerts_deduplicated (lower : String → String) (calls : List (Nat × AuditCall))
    (hsorted : calls.Pairwise fun x y => x.1 ≤ y.1) :
    (run lower calls).alerts.Pairwise SecurityAlert.Spaced :=
  (inv_run lower calls hsorted (le_lastTime calls)).spaced

theorem example_logins_deduplicated : (run id exampleLogins).alerts.Pairwise SecurityAlert.Spaced :=
  security_alerts_deduplicated id exampleLogins (by decide)

end AuditDb

/-! ### The IP `""` -/

namespace AuditDb

/-- **The IP `""` is never deduplicated.** When no alert lacks an IP, logging a
    denied request from the IP `""` past the threshold always adds an alert, however
    many unacknowledged alerts of the same rule, actor and IP `""` were just
    raised: for a falsy IP the dedup query asks for `ip_address IS NULL`, and the
    alerts it raises hold `""`. -/
theorem empty_ip_alerts_never_deduplicated (db : AuditDb) (args : HttpAuditArgs) (now : Nat)
    (hty : args.eventType = "auth.access.denied") (hip : args.ipAddress = some "")
    (hnull : ∀ x ∈ db.alerts, x.ipAddress ≠ none)
    (hc : ALERT_ACCESS_DENIED_THRESHOLD ≤ { db with events := db.events ++ [db.newEvent args now] }.countEvents
      "auth.access.denied" ((now : Int) - ALERT_LOOKBACK_MINUTES * 60) args.actorUserId (some "")) :
    ∃ a, (db.logHttpAuditEvent args now).alerts = db.alerts ++ [a] ∧
      a.ruleCode = "EXCESSIVE_FORBIDDEN_REQUESTS" ∧ a.actorUserId = args.actorUserId ∧
      a.ipAddress = some "" ∧ a.createdAt = now ∧ a.acknowledged = false := by
  have hf : ¬((db.newEvent args now).eventType = "auth.login.failed" ∧
      pyTruthy (db.newEvent args now).ipAddress) := fun h => by
    simp only [newEvent, hip, pyTruthy] at h
    exact absurd h.2 (by decide)
  have hfree : ((db.alerts).any fun x => x.blocks "EXCESSIVE_FORBIDDEN_REQUESTS" args.actorUserId
      (some "") ((now : Int) - ALERT_DEDUP_MINUTES * 60)) = false := by
    simp only [List.any_eq_false, SecurityAlert.blocks, pyTruthy]
    intro x hx
    simp [hnull x hx]
  simp only [logHttpAuditEvent, detectAndCreateAlerts, if_neg hf]
  rw [if_pos (by simp [newEvent, hty]), if_pos (by simpa [newEvent, hip] using hc)]
  simp only [createAlertIfNeeded, newEvent, hip, hfree]
  exact ⟨_, rfl, rfl, rfl, rfl, rfl, rfl⟩

/-- Ten forbidden requests of user 7 from the IP `""` in one second. -/
def exampleDenied : List (Nat × AuditCall) :=
  (List.range 10).map fun i =>
    (50, .request ⟨"GET", "/api/v1/admin/alerts", 403, some 7, some "", none, "d" ++ toString i⟩)

/-- An eleventh, in the same second, raises a second alert beside the first. -/
theorem example_empty_ip_alert_repeated :
    ∃ a, ((run id exampleDenied).logHttpAuditEvent
        ⟨"auth.access.denied", some 7, "GET", "/api/v1/admin/alerts", 403, some "", none, some "d10"⟩ 50).alerts =
      (run id exampleDenied).alerts ++ [a] ∧
      a.ruleCode = "EXCESSIVE_FORBIDDEN_REQUESTS" ∧ a.actorUserId = some 7 ∧
      a.ipAddress = some "" ∧ a.createdAt = 50 ∧ a.acknowledged = false :=
  empty_ip_alerts_never_deduplicated _ _ 50 rfl rfl (by decide) (by decide)

end AuditDb

/-! ### Where the events come from -/

namespace AuditMiddleware

/-- **The skip list never decides.** The middleware skips exactly the requests
    whose path does not start with `/api/`: no such path starts with `/docs`,
    `/openapi`, `/redoc` or `/favicon.ico`. -/
theorem should_skip_only_outside_api (path : String) : shouldSkip path = !pyStartsWith path "/api/" := by
  unfold shouldSkip
  cases h : pyStartsWith path "/api/" with
  | false => rfl
  | true =>
    obtain ⟨rest, hrest⟩ := List.isPrefixOf_iff_prefix.mp h
    have hp : path.data = ['/', 'a', 'p', 'i', '/'] ++ rest := hrest.symm
    simp only [SKIP_PREFIXES, List.any_cons, List.any_nil, pyStartsWith, hp]
    rfl

end AuditMiddleware

namespace AuditDb

end AuditDb

end TechPulse
