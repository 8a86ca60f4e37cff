import TechPulse.Tables

/-!
# The counters under read-committed isolation

The rest of the development runs each `with self.uow` block as one atomic
transaction. This module looks at the blocks that change a counter at the
granularity of their statements, under read-committed isolation: a statement
sees the latest committed value of a row, and the blob and version rows these
blocks read are not locked. `increment_blob_refcount`,
`decrement_blob_refcount` and `increment_file_version_download_count` change the
loaded object in Python, and the commit writes that value back.

A transaction is the list of counter updates its statements make, in order. A
statement loads its counter (the transaction's own value when it has already
changed that row, as the session's identity map returns the same object) and
computes the new value; the commit writes every value the transaction computed.
The removal of a blob row whose count reaches zero writes no counter and is left
out.

Two finalizations of the same payload that both load the blob row before either
commits write the same count, and one increment is lost
(`reference_count_lost_update`).
-/

namespace TechPulse

namespace ReadCommitted

/-- A counter column of one row: `file_blobs.reference_count` of a blob, or
    `file_versions.download_count` of a version. -/
inductive Counter where
  | referenceCount (blobId : Nat)
  | downloadCount (versionId : Nat)
deriving DecidableEq, Repr

/-- The change a repository method makes to a loaded counter. -/
inductive CounterOp where
  | increment
  | decrement
deriving DecidableEq, Repr

/-- The value computed in Python: `+= 1`, or `max(0, … - 1)`, which truncated
    subtraction on `Nat` is. -/
def CounterOp.apply : CounterOp → Nat → Nat
  | .increment, v => v + 1
  | .decrement, v => v - 1

/-- The blocks of the service that change a counter: the blob lookup of
    `_finalize_upload_with_checksum` and the block after `promote_upload`, on a
    blob they found; the compensating block after a duplicate version; the block
    of `get_download_ticket`; and the block of `delete_package_for_owner`, with
    the blob of each version of the package, in the order of its loop. -/
inductive Txn where
  | blobLookup (blobId : Nat)
  | blobReconcile (blobId : Nat)
  | compensate (blobId : Nat)
  | downloadTicket (versionId : Nat)
  | deletePackage (blobIds : List Nat)
deriving DecidableEq, Repr

/-- The counter updates of a block's statements, in order. -/
def Txn.updates : Txn → List (Counter × CounterOp)
  | .blobLookup b | .blobReconcile b => [(.referenceCount b, .increment)]
  | .compensate b => [(.referenceCount b, .decrement)]
  | .downloadTicket v => [(.downloadCount v, .increment)]
  | .deletePackage bs => bs.map fun b => (.referenceCount b, .decrement)

def Txn.count (t : Txn) (c : Counter) (op : CounterOp) : Nat :=
  t.updates.countP (· = (c, op))

/-- A transaction in progress: the updates its statements have still to make,
    and the values it has computed, last first. -/
structure Open where
  txn : Txn
  pending : List (Counter × CounterOp)
  dirty : List (Counter × Nat)

/-- The value of counter `c` as the transaction sees it: its own value when it
    has changed the row, the latest committed value otherwise. -/
def Open.read (o : Open) (committed : Counter → Nat) (c : Counter) : Nat :=
  (o.dirty.lookup c).getD (committed c)

/-- The committed counters, the transactions made so far (`none` once committed
    or rolled back), and how many increments and decrements of each counter the
    committed transactions made. -/
structure St where
  committed : Counter → Nat
  txns : List (Option Open)
  increments : Counter → Nat
  decrements : Counter → Nat

def St.init (init : Counter → Nat) : St := ⟨init, [], fun _ => 0, fun _ => 0⟩

/-- What happens next: a block starts, transaction `i` runs its next statement,
    commits, or rolls back. -/
inductive Act where
  | begin (t : Txn)
  | statement (i : Nat)
  | commit (i : Nat)
  | rollback (i : Nat)

def St.next (s : St) : Act → Option St
  | .begin t => some { s with txns := s.txns ++ [some ⟨t, t.updates, []⟩] }
  | .statement i =>
    match s.txns[i]? with
    | some (some o) =>
      match o.pending with
      | [] => none
      | (c, op) :: rest =>
        let o' := { o with pending := rest, dirty := (c, op.apply (o.read s.committed c)) :: o.dirty }
        some { s with txns := s.txns.set i (some o') }
    | _ => none
  | .commit i =>
    match s.txns[i]? with
    | some (some o) =>
      if o.pending = [] then
        some ⟨o.read s.committed, s.txns.set i none,
          fun c => s.increments c + o.txn.count c .increment,
          fun c => s.decrements c + o.txn.count c .decrement⟩
      else none
    | _ => none
  | .rollback i =>
    match s.txns[i]? with
    | some (some _) => some { s with txns := s.txns.set i none }
    | _ => none

def St.run : St → List Act → Option St
  | s, [] => some s
  | s, a :: rest => (s.next a).bind fun s => s.run rest

/-- The states some interleaving of statements reaches from the counters `init`. -/
inductive Reachable (init : Counter → Nat) : St → Prop where
  | init : Reachable init (St.init init)
  | next {s s' : St} {a : Act} : Reachable init s → s.next a = some s' → Reachable init s'

theorem Reachable.run {init : Counter → Nat} :
    ∀ {s s' : St} {acts : List Act}, Reachable init s → s.run acts = some s' → Reachable init s'
  | _, _, [], hs, h => by cases h; exact hs
  | s, s', a :: rest, hs, h => by
    simp only [St.run] at h
    cases hn : s.next a with
    | none => rw [hn] at h; cases h
    | some t => rw [hn] at h; exact Reachable.run (.next hs hn) h

/-- Every counter is its starting value plus the increments and minus the
    decrements that committed transactions made. -/
def St.Exact (init : Counter → Nat) (s : St) : Prop :=
  ∀ c, (s.committed c : Int) = init c + s.increments c - s.decrements c

/-- Two finalizations of the same payload both load blob 1 before either
    commits. -/
def lostUpdate : List Act :=
  [.begin (.blobLookup 1), .begin (.blobLookup 1), .statement 0, .statement 1, .commit 0, .commit 1]

/-- Blob 1 starts with one reference; both lookups commit their increment, and
    the count ends at 2, not 3. -/
theorem reference_count_lost_update :
    ∃ s, Reachable (fun _ => 1) s ∧ s.committed (.referenceCount 1) = 2 ∧
      s.increments (.referenceCount 1) = 2 ∧ s.decrements (.referenceCount 1) = 0 ∧
      ¬s.Exact fun _ => 1 := by
  have h : ((St.init fun _ => 1).run lostUpdate).map (fun s => (s.committed (.referenceCount 1),
      s.increments (.referenceCount 1), s.decrements (.referenceCount 1))) = some (2, 2, 0) := by
    decide
  cases hr : (St.init fun _ => 1).run lostUpdate with
  | none => rw [hr] at h; cases h
  | some s =>
    rw [hr, Option.map_some', Option.some.injEq, Prod.mk.injEq, Prod.mk.injEq] at h
    obtain ⟨h1, h2, h3⟩ := h
    refine ⟨s, .run .init hr, h1, h2, h3, fun hx => ?_⟩
    have := hx (.referenceCount 1)
    rw [h1, h2, h3] at this
    simp at this

end ReadCommitted

end TechPulse
