import Mathlib.Data.List.Basic
import Mathlib.Logic.Function.Basic

/-!
# Abuse protection in memory

`app/core/abuse_protection.py`. An `AbuseProtection` keeps a fixed-window hit
counter per bucket (`hit_rate_limit`) and one-time markers with an expiry
(`set_once`). It uses Redis when a connection was made at first use; the model
is its other path, taken when Redis is unavailable, where both live in two
dictionaries of the process, updated under a lock, so calls apply one at a
time. Times are `int(time.time())`, whole seconds. Each call reads the clock
before it takes the lock, so the order the calls apply in need not be the order
of their clocks; the run theorems assume it is.

A bucket's window starts at a hit that finds no window or an ended one, and
lasts `window_seconds`; every hit in it counts, and one is over the limit once
the count passes `limit`. At most `limit` hits are let through in one window,
but a window starts at any hit, so hits let through at the end of one window and
the start of the next crowd together. Any `window_seconds` consecutive stamps
hold at most `2·limit - 1` hits let through; a real span of `window_seconds`
seconds covers one stamp more, and holds at most `2·limit`
(`hit_rate_limit_window_bound`).

`set_once` answers as if it remembered every marker it ever set: `True` exactly
when no marker for the bucket is still live (`set_once_answers_from_history`).
Dropping expired markers changes no answer.
-/

namespace TechPulse

/-- The memory of an `AbuseProtection`: `_rate_window` gives a bucket's hit count
    and reset time, `_one_time` a bucket's marker expiry. -/
structure AbuseProtection where
  rateWindow : String → Option (Nat × Nat)
  oneTime : String → Option Nat

namespace AbuseProtection

/-- `AbuseProtection()`: both dictionaries empty. -/
def init : AbuseProtection := ⟨fun _ => none, fun _ => none⟩

/-- `_bucket`: the scope and the hex SHA-256 of the key. -/
def bucket (sha256 : String → String) (scope key : String) : String :=
  "abuse:" ++ scope ++ ":" ++ sha256 key

/-- The locked section of `hit_rate_limit`: the bucket's count and reset time
    after a hit at `now`, starting a new window when there is none or it has
    ended. -/
def windowAfterHit (entry : Option (Nat × Nat)) (window now : Nat) : Nat × Nat :=
  let (count, resetAt) := entry.getD (0, now + window)
  let (count, resetAt) := if now ≥ resetAt then (0, now + window) else (count, resetAt)
  (count + 1, resetAt)

/-- `hit_rate_limit` without Redis: whether the hit is over the limit, and the
    seconds until the window resets. -/
def hitRateLimit (ap : AbuseProtection) (sha256 : String → String) (scope key : String)
    (limit windowSeconds : Int) (now : Nat) : (Bool × Int) × AbuseProtection :=
  if limit ≤ 0 ∨ windowSeconds ≤ 0 then ((false, 0), ap)
  else
    let b := bucket sha256 scope key
    let (count, resetAt) := windowAfterHit (ap.rateWindow b) windowSeconds.toNat now
    ((decide (limit < count), max 1 ((resetAt : Int) - now)),
      { ap with rateWindow := Function.update ap.rateWindow b (some (count, resetAt)) })

/-- `_one_time` without the markers expired by `now`. -/
def pruneStale (oneTime : String → Option Nat) (now : Nat) : String → Option Nat :=
  fun k => (oneTime k).filter (now < ·)

/-- `set_once` without Redis: whether the marker was set. A marker still live
    (`existing and existing > now`) refuses; otherwise the marker is set to expire
    `max(1, ttl_seconds)` from now and the expired ones are dropped. -/
def setOnce (ap : AbuseProtection) (sha256 : String → String) (scope key : String)
    (ttlSeconds : Int) (now : Nat) : Bool × AbuseProtection :=
  let ttl := (max 1 ttlSeconds).toNat
  let b := bucket sha256 scope key
  if (ap.oneTime b).any (fun existing => existing ≠ 0 ∧ now < existing) then (false, ap)
  else (true, { ap with oneTime := pruneStale (Function.update ap.oneTime b (some (now + ttl))) now })

end AbuseProtection

/-- A call of `AbuseProtection`. -/
inductive AbuseCall where
  | hitRateLimit (scope key : String) (limit windowSeconds : Int)
  | setOnce (scope key : String) (ttlSeconds : Int)
deriving DecidableEq, Repr

/-- What a call returns. -/
inductive AbuseReply where
  | rate (limited : Bool) (retryAfter : Int)
  | once (set : Bool)
deriving DecidableEq, Repr

namespace AbuseProtection

/-- A call at time `now`. -/
def call (ap : AbuseProtection) (sha256 : String → String) (now : Nat) :
    AbuseCall → AbuseReply × AbuseProtection
  | .hitRateLimit s k l w =>
    let (r, ap) := ap.hitRateLimit sha256 s k l w now
    (.rate r.1 r.2, ap)
  | .setOnce s k t =>
    let (r, ap) := ap.setOnce sha256 s k t now
    (.once r, ap)

/-- One call of a run: its time, the call and the reply are recorded. -/
def step (sha256 : String → String) (acc : List (Nat × AbuseCall × AbuseReply) × AbuseProtection)
    (x : Nat × AbuseCall) : List (Nat × AbuseCall × AbuseReply) × AbuseProtection :=
  let (r, ap) := acc.2.call sha256 x.1 x.2
  (acc.1 ++ [(x.1, x.2, r)], ap)

/-- The calls made one after another: what each returned, and the memory left. -/
def run (sha256 : String → String) (ap : AbuseProtection) (calls : List (Nat × AbuseCall)) :
    List (Nat × AbuseCall × AbuseReply) × AbuseProtection :=
  calls.foldl (step sha256) ([], ap)

theorem run_snoc (sha256 : String → String) (ap : AbuseProtection) (calls : List (Nat × AbuseCall))
    (x : Nat × AbuseCall) : run sha256 ap (calls ++ [x]) = step sha256 (run sha256 ap calls) x := by
  simp [run, List.foldl_append]

end AbuseProtection

/-! ### The fixed window -/

namespace AbuseProtection

variable {sha256 : String → String}

/-- The call is a hit on bucket `b`. -/
def hitsOn (sha256 : String → String) (b : String) : AbuseCall → Bool
  | .hitRateLimit s k _ _ => bucket sha256 s k == b
  | .setOnce .. => false

/-- A hit on bucket `b` uses limit `L` and window `W`. -/
def hitWith (sha256 : String → String) (b : String) (L W : Nat) : AbuseCall → Bool
  | .hitRateLimit s k l w => bucket sha256 s k != b || (l == L && w == W)
  | .setOnce .. => true

/-- A recorded call that is a hit on bucket `b` let through. -/
def allowedOn (sha256 : String → String) (b : String) : Nat × AbuseCall × AbuseReply → Bool
  | (_, c, .rate false _) => hitsOn sha256 b c
  | _ => false

/-- The hits on `b` let through at a time satisfying `P`. -/
def allowedWhen (sha256 : String → String) (b : String) (P : Nat → Prop) [DecidablePred P]
    (tr : List (Nat × AbuseCall × AbuseReply)) : Nat :=
  tr.countP fun e => allowedOn sha256 b e && decide (P e.1)

section Counting

variable {b : String} {tr : List (Nat × AbuseCall × AbuseReply)}
variable {P Q R : Nat → Prop} [DecidablePred P] [DecidablePred Q] [DecidablePred R]

theorem allowedWhen_snoc (e : Nat × AbuseCall × AbuseReply) :
    allowedWhen sha256 b P (tr ++ [e]) =
      allowedWhen sha256 b P tr + if allowedOn sha256 b e ∧ P e.1 then 1 else 0 := by
  simp only [allowedWhen, List.countP_append, List.countP_cons, List.countP_nil, Bool.and_eq_true,
    decide_eq_true_eq, Nat.zero_add]

theorem allowedWhen_mono (h : ∀ e ∈ tr, allowedOn sha256 b e → P e.1 → Q e.1) :
    allowedWhen sha256 b P tr ≤ allowedWhen sha256 b Q tr :=
  List.countP_mono_left fun e he hp => by
    simp only [Bool.and_eq_true, decide_eq_true_eq] at hp ⊢
    exact ⟨hp.1, h e he hp.1 hp.2⟩

/-- Hits in a span covered by two spans are counted by them. -/
theorem allowedWhen_le_add (h : ∀ e ∈ tr, allowedOn sha256 b e → P e.1 → Q e.1 ∨ R e.1) :
    allowedWhen sha256 b P tr ≤ allowedWhen sha256 b Q tr + allowedWhen sha256 b R tr := by
  induction tr with
  | nil => simp [allowedWhen]
  | cons e tr ih =>
    have ih := ih fun e' he' => h e' (List.mem_cons_of_mem _ he')
    have he := h e (List.mem_cons_self _ _)
    simp only [allowedWhen, List.countP_cons, Bool.and_eq_true, decide_eq_true_eq] at ih ⊢
    split_ifs <;> simp_all <;> omega

theorem allowedWhen_eq_zero (h : ∀ e ∈ tr, allowedOn sha256 b e → ¬P e.1) :
    allowedWhen sha256 b P tr = 0 :=
  List.countP_eq_zero.mpr fun e he hp => by
    simp only [Bool.and_eq_true, decide_eq_true_eq] at hp
    exact h e he hp.1 hp.2

end Counting

theorem allowedOn_hitsOn {b : String} {e : Nat × AbuseCall × AbuseReply}
    (h : allowedOn sha256 b e) : hitsOn sha256 b e.2.1 := by
  rcases e with ⟨t, c, _ | _⟩
  · rename_i lim _; cases lim <;> simp_all [allowedOn]
  · simp [allowedOn] at h

theorem windowAfterHit_new {W t : Nat} (hW : 0 < W) : windowAfterHit none W t = (1, t + W) := by
  simp only [windowAfterHit, Option.getD_none]
  rw [if_neg (by omega)]

theorem windowAfterHit_live {c r W t : Nat} (h : t < r) :
    windowAfterHit (some (c, r)) W t = (c + 1, r) := by
  simp only [windowAfterHit, Option.getD_some]
  rw [if_neg (by omega)]

theorem windowAfterHit_ended {c r W t : Nat} (h : r ≤ t) :
    windowAfterHit (some (c, r)) W t = (1, t + W) := by
  simp only [windowAfterHit, Option.getD_some]
  rw [if_pos h]

/-- A hit on bucket `b` with a positive limit and window updates `b`'s entry by
    `windowAfterHit` and is let through exactly when the new count is within the
    limit. -/
theorem call_hit {ap : AbuseProtection} {s k : String} {L W now : Nat} (hL : 0 < L) (hW : 0 < W) :
    ap.call sha256 now (.hitRateLimit s k L W) =
      (.rate (decide ((L : Int) < (windowAfterHit (ap.rateWindow (bucket sha256 s k)) W now).1))
          (max 1 (((windowAfterHit (ap.rateWindow (bucket sha256 s k)) W now).2 : Int) - now)),
        { ap with
          rateWindow := Function.update ap.rateWindow (bucket sha256 s k)
                          (some (windowAfterHit (ap.rateWindow (bucket sha256 s k)) W now)) }) := by
  simp only [call, hitRateLimit, Int.toNat_ofNat]
  rw [if_neg (by omega)]

/-- A call that is no hit on `b` leaves `b`'s entry alone. -/
theorem call_rateWindow_other {ap : AbuseProtection} {b : String} {now : Nat} {c : AbuseCall}
    (h : hitsOn sha256 b c = false) : (ap.call sha256 now c).2.rateWindow b = ap.rateWindow b := by
  cases c with
  | hitRateLimit s k l w =>
    simp only [hitsOn, beq_eq_false_iff_ne] at h
    simp only [call, hitRateLimit]
    split_ifs
    · rfl
    · exact Function.update_noteq (Ne.symm h) _ _
  | setOnce s k t =>
    simp only [call, setOnce]
    split_ifs <;> rfl

/-! ### The window invariant -/

/-- What the recorded calls keep true of bucket `b` and its entry under limit `L`
    and window `W`. With no entry, no hit on `b` has been made. With count `c` and
    reset time `r`, the window started at `r - W` with a hit on `b`, every hit on
    `b` came before `r`, at most `min c L` hits got through since the window
    started and fewer after its first second, fewer than `L` in the `W` seconds
    before it, and at most `L` from `W` seconds before it. -/
def WindowInv (sha256 : String → String) (b : String) (L W : Nat)
    (tr : List (Nat × AbuseCall × AbuseReply)) : Option (Nat × Nat) → Prop
  | none => ∀ e ∈ tr, hitsOn sha256 b e.2.1 = false
  | some (c, r) =>
    W ≤ r ∧ 1 ≤ c ∧ (∀ e ∈ tr, hitsOn sha256 b e.2.1 → e.1 < r) ∧
    (∃ e ∈ tr, hitsOn sha256 b e.2.1 ∧ e.1 = r - W) ∧
    allowedWhen sha256 b (r - W ≤ ·) tr ≤ min c L ∧
    allowedWhen sha256 b (r - W < ·) tr + 1 ≤ min c L ∧
    allowedWhen sha256 b (fun t => r - W < t + W ∧ t < r - W) tr + 1 ≤ L ∧
    allowedWhen sha256 b (fun t => r - W ≤ t + W ∧ t < r - W) tr ≤ L

/-- No `W` consecutive stamps hold `2·L` hits on `b` that got through, and no
    `W + 1` consecutive stamps more than `2·L`. -/
def Burst (sha256 : String → String) (b : String) (L W : Nat)
    (tr : List (Nat × AbuseCall × AbuseReply)) : Prop :=
  ∀ a, allowedWhen sha256 b (fun t => a ≤ t ∧ t < a + W) tr + 1 ≤ 2 * L ∧
    allowedWhen sha256 b (fun t => a ≤ t ∧ t ≤ a + W) tr ≤ 2 * L

section Step

variable {b : String} {L W : Nat} {tr : List (Nat × AbuseCall × AbuseReply)}

theorem allowedOn_rate (t : Nat) (c : AbuseCall) (lim : Bool) (ra : Int) :
    allowedOn sha256 b (t, c, .rate lim ra) = (!lim && hitsOn sha256 b c) := by
  cases lim <;> rfl

/-- A call that is no hit on `b` changes no count of `b`. -/
theorem allowedWhen_snoc_other {P : Nat → Prop} [DecidablePred P] {e : Nat × AbuseCall × AbuseReply}
    (h : hitsOn sha256 b e.2.1 = false) :
    allowedWhen sha256 b P (tr ++ [e]) = allowedWhen sha256 b P tr := by
  rw [allowedWhen_snoc, if_neg fun ⟨ha, _⟩ => by simp [allowedOn_hitsOn ha] at h, Nat.add_zero]

/-- A hit on `b`, let through or not, adds itself to the counts it falls in. -/
theorem allowedWhen_snoc_hit {P : Nat → Prop} [DecidablePred P] {t : Nat} {c : AbuseCall}
    {lim : Bool} {ra : Int} (h : hitsOn sha256 b c = true) :
    allowedWhen sha256 b P (tr ++ [(t, c, .rate lim ra)]) =
      allowedWhen sha256 b P tr + if lim = false ∧ P t then 1 else 0 := by
  rw [allowedWhen_snoc, allowedOn_rate, h]
  cases lim <;> simp

theorem windowInv_snoc_other {st : Option (Nat × Nat)} {e : Nat × AbuseCall × AbuseReply}
    (h : hitsOn sha256 b e.2.1 = false) (hi : WindowInv sha256 b L W tr st) :
    WindowInv sha256 b L W (tr ++ [e]) st := by
  have mem : ∀ x ∈ tr ++ [e], hitsOn sha256 b x.2.1 = true → x ∈ tr := fun x hx hx' => by
    rcases List.mem_append.mp hx with hx | hx
    · exact hx
    · rw [List.mem_singleton.mp hx, h] at hx'; cases hx'
  rcases st with _ | ⟨c, r⟩
  · intro x hx
    cases hx' : hitsOn sha256 b x.2.1
    · rfl
    · exact absurd (hi x (mem x hx hx')) (by simp [hx'])
  · obtain ⟨h1, h2, h3, ⟨x, hx, hx'⟩, h5, h6, h7, h8⟩ := hi
    simp only [WindowInv, allowedWhen_snoc_other h]
    exact ⟨h1, h2, fun y hy hy' => h3 y (mem y hy hy') hy', ⟨x, List.mem_append_left _ hx, hx'⟩,
      h5, h6, h7, h8⟩

/-- With no hit on `b` yet, no count of `b` has anything in it. -/
theorem allowedWhen_of_none {P : Nat → Prop} [DecidablePred P] (hi : WindowInv sha256 b L W tr none) :
    allowedWhen sha256 b P tr = 0 :=
  allowedWhen_eq_zero fun e he ha => absurd (allowedOn_hitsOn ha) (by simp [hi e he])

/-- The first hit on `b` opens a window. -/
theorem windowInv_first (hL : 0 < L) (hW : 0 < W) {t : Nat} {c : AbuseCall} {ra : Int}
    (h : hitsOn sha256 b c = true) (hi : WindowInv sha256 b L W tr none) :
    WindowInv sha256 b L W (tr ++ [(t, c, .rate false ra)]) (some (1, t + W)) ∧
      Burst sha256 b L W (tr ++ [(t, c, .rate false ra)]) := by
  simp only [WindowInv, Burst, allowedWhen_snoc_hit h, allowedWhen_of_none hi, Nat.add_sub_cancel,
    true_and, Nat.zero_add]
  refine ⟨⟨by omega, le_refl 1, fun e he _ => ?_,
    ⟨_, List.mem_append_right _ (List.mem_singleton_self _), h, rfl⟩,
    by split_ifs <;> omega, by split_ifs <;> omega, by split_ifs <;> omega, by split_ifs <;> omega⟩,
    fun a => ⟨by split_ifs <;> omega, by split_ifs <;> omega⟩⟩
  rcases List.mem_append.mp he with he | he
  · simp_all [hi e he]
  · rw [List.mem_singleton.mp he]; omega

/-- A hit on `b` inside the live window counts in it, and is let through while
    the count stays within the limit. -/
theorem windowInv_live {c r t : Nat} {call : AbuseCall} {lim : Bool} {ra : Int}
    (h : hitsOn sha256 b call = true) (hlim : lim = false ↔ c + 1 ≤ L) (ht : ∀ e ∈ tr, e.1 ≤ t)
    (hlive : t < r) (hi : WindowInv sha256 b L W tr (some (c, r))) (hb : Burst sha256 b L W tr) :
    WindowInv sha256 b L W (tr ++ [(t, call, .rate lim ra)]) (some (c + 1, r)) ∧
      Burst sha256 b L W (tr ++ [(t, call, .rate lim ra)]) := by
  obtain ⟨h1, h2, h3, ⟨x, hx, hxb, hxt⟩, h5, h6, h7, h8⟩ := hi
  have hst : r - W ≤ t := hxt ▸ ht x hx
  simp only [WindowInv, Burst, allowedWhen_snoc_hit h]
  refine ⟨⟨h1, by omega, fun e he hb' => ?_, ⟨x, List.mem_append_left _ hx, hxb, hxt⟩, ?_, ?_, ?_, ?_⟩,
    fun a => ⟨?_, ?_⟩⟩
  · rcases List.mem_append.mp he with he | he
    · exact h3 e he hb'
    · rw [List.mem_singleton.mp he]; exact hlive
  all_goals split_ifs with hc
  all_goals try omega
  · have := hlim.mp hc.1; omega
  · have := hlim.mp hc.1; omega
  · -- the hit lands in the span: what got through before it fell in the last
    -- `W` seconds before the window or in the window
    have := hlim.mp hc.1
    have cover : allowedWhen sha256 b (fun t' => a ≤ t' ∧ t' < a + W) tr ≤
        allowedWhen sha256 b (fun t' => r - W < t' + W ∧ t' < r - W) tr +
          allowedWhen sha256 b (r - W ≤ ·) tr :=
      allowedWhen_le_add fun e _ _ hP => by omega
    omega
  · exact (hb a).1
  · -- likewise over `W + 1` stamps, from `W` seconds before the window
    have := hlim.mp hc.1
    have cover : allowedWhen sha256 b (fun t' => a ≤ t' ∧ t' ≤ a + W) tr ≤
        allowedWhen sha256 b (fun t' => r - W ≤ t' + W ∧ t' < r - W) tr +
          allowedWhen sha256 b (r - W ≤ ·) tr :=
      allowedWhen_le_add fun e _ _ hP => by omega
    omega
  · exact (hb a).2

/-- A hit on `b` after its window has ended opens a new one. -/
theorem windowInv_ended (hL : 0 < L) (hW : 0 < W) {c r t : Nat} {call : AbuseCall} {ra : Int}
    (h : hitsOn sha256 b call = true) (hend : r ≤ t) (hi : WindowInv sha256 b L W tr (some (c, r)))
    (hb : Burst sha256 b L W tr) :
    WindowInv sha256 b L W (tr ++ [(t, call, .rate false ra)]) (some (1, t + W)) ∧
      Burst sha256 b L W (tr ++ [(t, call, .rate false ra)]) := by
  obtain ⟨h1, -, h3, -, h5, h6, -, -⟩ := hi
  have before : ∀ e ∈ tr, allowedOn sha256 b e → e.1 < r := fun e he ha => h3 e he (allowedOn_hitsOn ha)
  have old : allowedWhen sha256 b (t ≤ ·) tr = 0 :=
    allowedWhen_eq_zero fun e he ha => by have := before e he ha; omega
  have old' : allowedWhen sha256 b (t < ·) tr = 0 :=
    allowedWhen_eq_zero fun e he ha => by have := before e he ha; omega
  have last : allowedWhen sha256 b (fun x => t < x + W ∧ x < t) tr ≤ allowedWhen sha256 b (r - W < ·) tr :=
    allowedWhen_mono fun e _ _ hP => by omega
  have last' : allowedWhen sha256 b (fun x => t ≤ x + W ∧ x < t) tr ≤ allowedWhen sha256 b (r - W ≤ ·) tr :=
    allowedWhen_mono fun e _ _ hP => by omega
  simp only [WindowInv, Burst, allowedWhen_snoc_hit h, Nat.add_sub_cancel, true_and]
  refine ⟨⟨by omega, le_refl 1, fun e he hb' => ?_,
    ⟨_, List.mem_append_right _ (List.mem_singleton_self _), h, rfl⟩,
    by split_ifs <;> omega, by split_ifs <;> omega, by split_ifs <;> omega, by split_ifs <;> omega⟩,
    fun a => ⟨?_, ?_⟩⟩
  · rcases List.mem_append.mp he with he | he
    · have := h3 e he hb'; omega
    · rw [List.mem_singleton.mp he]; omega
  · split_ifs with hc
    · have : allowedWhen sha256 b (fun t' => a ≤ t' ∧ t' < a + W) tr ≤ allowedWhen sha256 b (r - W < ·) tr :=
        allowedWhen_mono fun e _ _ hP => by omega
      omega
    · exact (hb a).1
  · split_ifs with hc
    · have : allowedWhen sha256 b (fun t' => a ≤ t' ∧ t' ≤ a + W) tr ≤ allowedWhen sha256 b (r - W ≤ ·) tr :=
        allowedWhen_mono fun e _ _ hP => by omega
      omega
    · exact (hb a).2

theorem burst_snoc_other {e : Nat × AbuseCall × AbuseReply} (h : hitsOn sha256 b e.2.1 = false)
    (hb : Burst sha256 b L W tr) : Burst sha256 b L W (tr ++ [e]) := fun a => by
  rw [allowedWhen_snoc_other h, allowedWhen_snoc_other h]; exact hb a

/-- A hit on `b` under `hitWith` is the hit with limit `L` and window `W`. -/
theorem eq_of_hitWith {c : AbuseCall} (hw : hitWith sha256 b L W c = true)
    (h : hitsOn sha256 b c = true) : ∃ s k, c = .hitRateLimit s k L W ∧ bucket sha256 s k = b := by
  cases c with
  | hitRateLimit s k l w =>
    simp only [hitsOn, beq_iff_eq] at h
    simp only [hitWith, h, bne_self_eq_false, Bool.false_or, Bool.and_eq_true, beq_iff_eq] at hw
    exact ⟨s, k, by rw [hw.1, hw.2], h⟩
  | setOnce => cases h

/-- One call keeps the invariant and the bound of bucket `b`. -/
theorem windowInv_step (hL : 0 < L) (hW : 0 < W) {ap : AbuseProtection} {t : Nat} {c : AbuseCall}
    (hw : hitWith sha256 b L W c = true) (ht : ∀ e ∈ tr, e.1 ≤ t)
    (hi : WindowInv sha256 b L W tr (ap.rateWindow b)) (hb : Burst sha256 b L W tr) :
    WindowInv sha256 b L W (tr ++ [(t, c, (ap.call sha256 t c).1)]) ((ap.call sha256 t c).2.rateWindow b) ∧
      Burst sha256 b L W (tr ++ [(t, c, (ap.call sha256 t c).1)]) := by
  cases hh : hitsOn sha256 b c with
  | false =>
    rw [call_rateWindow_other hh]
    exact ⟨windowInv_snoc_other hh hi, burst_snoc_other hh hb⟩
  | true =>
    obtain ⟨s, k, rfl, hbk⟩ := eq_of_hitWith hw hh
    rw [call_hit hL hW]
    dsimp only
    rw [hbk, Function.update_same]
    rcases hst : ap.rateWindow b with _ | ⟨c0, r0⟩
    · rw [hst] at hi
      have hd : decide ((L : Int) < ((windowAfterHit none W t).1 : Int)) = false := by
        simp [windowAfterHit_new hW]; omega
      rw [hd, windowAfterHit_new hW]
      exact windowInv_first hL hW hh hi
    · rw [hst] at hi
      by_cases hlive : t < r0
      · rw [windowAfterHit_live hlive]
        exact windowInv_live hh (by simp; omega) ht hlive hi hb
      · have hd : decide ((L : Int) < ((windowAfterHit (some (c0, r0)) W t).1 : Int)) = false := by
          simp [windowAfterHit_ended (W := W) (c := c0) (not_lt.mp hlive)]; omega
        rw [hd, windowAfterHit_ended (not_lt.mp hlive)]
        exact windowInv_ended hL hW hh (not_lt.mp hlive) hi hb

end Step

theorem step_eq (sha256 : String → String) (tr : List (Nat × AbuseCall × AbuseReply))
    (ap : AbuseProtection) (x : Nat × AbuseCall) :
    step sha256 (tr, ap) x = (tr ++ [(x.1, x.2, (ap.call sha256 x.1 x.2).1)], (ap.call sha256 x.1 x.2).2) :=
  rfl

/-- A run records each call with its time, in order. -/
theorem run_calls (sha256 : String → String) (ap : AbuseProtection) (calls : List (Nat × AbuseCall)) :
    (run sha256 ap calls).1.map (fun e => (e.1, e.2.1)) = calls := by
  induction calls using List.reverseRecOn with
  | nil => rfl
  | append_singleton calls x ih => rw [run_snoc, step_eq]; simp [ih]

/-- In a run with a nondecreasing clock in which every hit on `b` has limit `L`
    and window `W`, the invariant and the bound of `b` hold throughout. -/
theorem windowInv_run {b : String} {L W : Nat} (hL : 0 < L) (hW : 0 < W)
    (calls : List (Nat × AbuseCall)) (hsorted : calls.Pairwise fun x y => x.1 ≤ y.1)
    (hwith : ∀ x ∈ calls, hitWith sha256 b L W x.2 = true) :
    WindowInv sha256 b L W (run sha256 init calls).1 ((run sha256 init calls).2.rateWindow b) ∧
      Burst sha256 b L W (run sha256 init calls).1 := by
  induction calls using List.reverseRecOn with
  | nil =>
    exact ⟨(fun e he => (by cases he) : WindowInv sha256 b L W [] none),
      fun a => by simp only [run, List.foldl_nil, allowedWhen, List.countP_nil]; omega⟩
  | append_singleton calls x ih =>
    rw [List.pairwise_append] at hsorted
    obtain ⟨hi, hb⟩ := ih hsorted.1 fun y hy => hwith y (List.mem_append_left _ hy)
    have ht : ∀ e ∈ (run sha256 init calls).1, e.1 ≤ x.1 := fun e he => by
      have hmem : (e.1, e.2.1) ∈ calls := run_calls sha256 init calls ▸ List.mem_map_of_mem _ he
      exact hsorted.2.2 _ hmem x (List.mem_singleton_self x)
    rw [run_snoc]
    exact windowInv_step hL hW (hwith x (List.mem_append_right _ (List.mem_singleton_self x))) ht hi hb

/-- **The fixed window lets bursts through.** In a run with a nondecreasing clock
    in which every hit on bucket `b` has limit `L ≥ 1` and window `W ≥ 1`
    seconds, no `W` consecutive stamps `int(time.time())` hold more than
    `2·L - 1` hits on `b` that `hit_rate_limit` let through. A real span of `W`
    seconds covers the stamps `a` to `a + W` at most, and holds at most `2·L`. -/
theorem hit_rate_limit_window_bound (sha256 : String → String) (calls : List (Nat × AbuseCall))
    (b : String) {L W : Nat} (hL : 0 < L) (hW : 0 < W)
    (hsorted : calls.Pairwise fun x y => x.1 ≤ y.1)
    (hwith : ∀ x ∈ calls, hitWith sha256 b L W x.2 = true) (a : Nat) :
    allowedWhen sha256 b (fun t => a ≤ t ∧ t < a + W) (run sha256 init calls).1 ≤ 2 * L - 1 ∧
      allowedWhen sha256 b (fun t => a ≤ t ∧ t ≤ a + W) (run sha256 init calls).1 ≤ 2 * L := by
  obtain ⟨hopen, hclosed⟩ := (windowInv_run hL hW calls hsorted hwith).2 a
  exact ⟨by omega, hclosed⟩

/-- Hits on one bucket under limit 2 and a window of 10 seconds: two at the end
    of the first window, two at the start of the next, then one over the limit. -/
def exampleHits : List (Nat × AbuseCall) :=
  [0, 9, 10, 10, 11].map fun t => (t, .hitRateLimit "login" "client" 2 10)

theorem example_hits_within_bound :
    allowedWhen id (bucket id "login" "client") (fun t => 0 ≤ t ∧ t < 0 + 10) (run id init exampleHits).1 ≤
      2 * 2 - 1 ∧
      allowedWhen id (bucket id "login" "client") (fun t => 0 ≤ t ∧ t ≤ 0 + 10) (run id init exampleHits).1 ≤
        2 * 2 :=
  hit_rate_limit_window_bound id exampleHits _ (by decide) (by decide) (by decide) (by decide) 0

/-- Both bounds are reached: three hits got through in the stamps 1 to 10, and
    four in the stamps 0 to 10, which the real span from 0.5 to 10.5 covers. -/
example : allowedWhen id (bucket id "login" "client") (fun t => 1 ≤ t ∧ t < 1 + 10)
      (run id init exampleHits).1 = 3 ∧
    allowedWhen id (bucket id "login" "client") (fun t => 0 ≤ t ∧ t ≤ 0 + 10)
      (run id init exampleHits).1 = 4 := by
  decide

/-! ### One-time markers -/

/-- The marker a recorded call set, with its bucket and expiry, when `set_once`
    returned `True`. -/
def grantedMarker (sha256 : String → String) : Nat × AbuseCall × AbuseReply → Option (String × Nat)
  | (t, .setOnce s k ttl, .once true) => some (bucket sha256 s k, t + (max 1 ttl).toNat)
  | _ => none

/-- Every marker the recorded calls set, expired or not. -/
def markers (sha256 : String → String) (tr : List (Nat × AbuseCall × AbuseReply)) : List (String × Nat) :=
  tr.filterMap (grantedMarker sha256)

/-- What `set_once` on bucket `b` at `now` would answer if it remembered every
    marker: `True` when no marker set for `b` is still live. -/
def onceSpec (sha256 : String → String) (tr : List (Nat × AbuseCall × AbuseReply)) (b : String)
    (now : Nat) : Bool :=
  !(markers sha256 tr).any fun m => m.1 == b && decide (now < m.2)

/-- The kept markers against the markers set, at time `T`: each kept one was set,
    and each one set that is live after `T` is kept, with an expiry no earlier. -/
def OnceInv (T : Nat) (ms : List (String × Nat)) (oneTime : String → Option Nat) : Prop :=
  ∀ k, (∀ e, oneTime k = some e → (k, e) ∈ ms) ∧
    ∀ e, (k, e) ∈ ms → T < e → ∃ e', oneTime k = some e' ∧ e ≤ e'

section Once

variable {T t : Nat} {ms : List (String × Nat)} {o : String → Option Nat}

theorem markers_snoc (tr : List (Nat × AbuseCall × AbuseReply)) (e : Nat × AbuseCall × AbuseReply) :
    markers sha256 (tr ++ [e]) = markers sha256 tr ++ (grantedMarker sha256 e).toList := by
  cases h : grantedMarker sha256 e <;> simp [markers, h]

theorem OnceInv.mono (hi : OnceInv T ms o) (hT : T ≤ t) : OnceInv t ms o :=
  fun k => ⟨(hi k).1, fun e he hlt => (hi k).2 e he (by omega)⟩

/-- Under `OnceInv`, `set_once` finds a live marker for `b` exactly when a marker
    set for `b` is live. -/
theorem oneTime_live_eq {tr : List (Nat × AbuseCall × AbuseReply)}
    (hi : OnceInv T (markers sha256 tr) o) (hT : T ≤ t) (b : String) :
    (o b).any (fun e => decide (e ≠ 0 ∧ t < e)) = !onceSpec sha256 tr b t := by
  rw [onceSpec, Bool.not_not, Bool.eq_iff_iff, List.any_eq_true]
  constructor
  · intro h
    cases hb : o b with
    | none => simp [hb] at h
    | some e =>
      simp only [hb, Option.any_some, decide_eq_true_eq] at h
      exact ⟨(b, e), (hi b).1 e hb, by simp [h.2]⟩
  · rintro ⟨⟨k, e⟩, hm, hlive⟩
    simp only [Bool.and_eq_true, beq_iff_eq, decide_eq_true_eq] at hlive
    obtain ⟨rfl, hlt⟩ := hlive
    obtain ⟨e', he', hle⟩ := (hi k).2 e hm (by omega)
    simp only [he', Option.any_some, decide_eq_true_eq]
    omega

/-- A marker for `b` expiring at `d`, set at `t` when `b` had none live, is kept
    with every other marker not expired by `t`. -/
theorem OnceInv.set {b : String} {d : Nat} (hi : OnceInv T ms o) (hT : T ≤ t)
    (hlive : ¬(o b).any (fun e => decide (e ≠ 0 ∧ t < e)) = true) (hd : t < d) :
    OnceInv t (ms ++ [(b, d)]) (pruneStale (Function.update o b (some d)) t) := by
  intro k
  by_cases hk : k = b
  · subst hk
    simp only [pruneStale, Function.update_same, Option.filter_some, decide_eq_true hd, if_true]
    refine ⟨fun e he => ?_, fun e he hlt => ⟨d, rfl, ?_⟩⟩
    · cases he; exact List.mem_append_right _ (List.mem_singleton_self _)
    · rcases List.mem_append.mp he with he | he
      · obtain ⟨e', he', hle⟩ := (hi k).2 e he (by omega)
        simp only [he', Option.any_some, decide_eq_true_eq] at hlive
        omega
      · cases List.mem_singleton.mp he; exact le_rfl
  · simp only [pruneStale, Function.update_noteq hk]
    refine ⟨fun e he => List.mem_append_left _ ((hi k).1 e ?_), fun e he hlt => ?_⟩
    · cases ho : o k <;> simp_all [Option.filter_some]
    · rcases List.mem_append.mp he with he | he
      · obtain ⟨e', he', hle⟩ := (hi k).2 e he (by omega)
        exact ⟨e', by simp only [he', Option.filter_some, decide_eq_true (by omega : t < e'), if_true], hle⟩
      · cases (Prod.mk.inj (List.mem_singleton.mp he)).1; exact absurd rfl hk

theorem call_hitRateLimit_oneTime {ap : AbuseProtection} {s k : String} {l w : Int} :
    (ap.call sha256 t (.hitRateLimit s k l w)).2.oneTime = ap.oneTime := by
  simp only [call, hitRateLimit]
  split_ifs <;> rfl

theorem call_setOnce (ap : AbuseProtection) (s k : String) (ttl : Int) :
    ap.call sha256 t (.setOnce s k ttl) =
      (.once (ap.setOnce sha256 s k ttl t).1, (ap.setOnce sha256 s k ttl t).2) :=
  rfl

/-- Under `OnceInv`, `set_once` answers what it would if it remembered every
    marker. -/
theorem setOnce_reply {ap : AbuseProtection} {tr : List (Nat × AbuseCall × AbuseReply)}
    (hi : OnceInv T (markers sha256 tr) ap.oneTime) (hT : T ≤ t) (s k : String) (ttl : Int) :
    (ap.setOnce sha256 s k ttl t).1 = onceSpec sha256 tr (bucket sha256 s k) t := by
  unfold setOnce
  dsimp only
  rw [oneTime_live_eq hi hT]
  cases onceSpec sha256 tr (bucket sha256 s k) t <;> rfl

/-- One call at `t ≥ T` keeps `OnceInv`, moved on to `t`. -/
theorem onceInv_step {ap : AbuseProtection} {tr : List (Nat × AbuseCall × AbuseReply)} (c : AbuseCall)
    (hi : OnceInv T (markers sha256 tr) ap.oneTime) (hT : T ≤ t) :
    OnceInv t (markers sha256 (tr ++ [(t, c, (ap.call sha256 t c).1)])) (ap.call sha256 t c).2.oneTime := by
  rw [markers_snoc]
  cases c with
  | hitRateLimit s k l w =>
    rw [call_hitRateLimit_oneTime]
    exact (List.append_nil (markers sha256 tr)).symm ▸ hi.mono hT
  | setOnce s k ttl =>
    rw [call_setOnce]
    unfold setOnce
    dsimp only
    split_ifs with hlive
    · exact (List.append_nil (markers sha256 tr)).symm ▸ hi.mono hT
    · exact hi.set hT hlive (by omega)

end Once

/-- Over a run with a nondecreasing clock, `OnceInv` holds at any time no earlier
    than the last call. -/
theorem onceInv_run (calls : List (Nat × AbuseCall)) (hsorted : calls.Pairwise fun x y => x.1 ≤ y.1)
    {T : Nat} (hT : ∀ x ∈ calls, x.1 ≤ T) :
    OnceInv T (markers sha256 (run sha256 init calls).1) (run sha256 init calls).2.oneTime := by
  induction calls using List.reverseRecOn generalizing T with
  | nil => intro k; simp [run, init, markers]
  | append_singleton calls x ih =>
    rw [List.pairwise_append] at hsorted
    have hi := ih hsorted.1 fun y hy => hsorted.2.2 y hy x (List.mem_singleton_self x)
    rw [run_snoc, step_eq]
    exact (onceInv_step x.2 hi le_rfl).mono (hT x (List.mem_append_right _ (List.mem_singleton_self x)))

/-- **`set_once` answers from the whole history.** After any run with a
    nondecreasing clock, `set_once` at a time no earlier than the last call
    returns `True` exactly when no marker set for its bucket by an earlier call
    is still live: keeping one marker per bucket and dropping expired ones
    forgets nothing an answer needs. -/
theorem set_once_answers_from_history (sha256 : String → String) (calls : List (Nat × AbuseCall))
    (hsorted : calls.Pairwise fun x y => x.1 ≤ y.1) {now : Nat} (hnow : ∀ x ∈ calls, x.1 ≤ now)
    (s k : String) (ttl : Int) :
    ((run sha256 init calls).2.call sha256 now (.setOnce s k ttl)).1 =
      .once (onceSpec sha256 (run sha256 init calls).1 (bucket sha256 s k) now) := by
  rw [call_setOnce, setOnce_reply (onceInv_run calls hsorted hnow) le_rfl]

/-- A marker set at 0 for a minute, refused at 30, set again at 60. -/
def exampleOnce : List (Nat × AbuseCall) :=
  [0, 30, 60].map fun t => (t, .setOnce "resend" "12" 60)

theorem example_once_answer :
    ((run id init exampleOnce).2.call id 90 (.setOnce "resend" "12" 60)).1 =
      .once (onceSpec id (run id init exampleOnce).1 (bucket id "resend" "12") 90) :=
  set_once_answers_from_history id exampleOnce (by decide) (by decide) _ _ _

end AbuseProtection

end TechPulse
