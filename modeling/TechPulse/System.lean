import TechPulse.Calls

/-!
# Concurrent runs of the service

Clients make service calls at any time, and the calls in progress take their
steps in any order: a run is a sequence of actions, each either a new call or
one step (possibly faulty) of a call in progress. `Reachable svc allowed` is the
set of states some run reaches from the empty store, when every action of the
run is `allowed` where it is taken; `sequential` allows a new call only once
every earlier call has returned or raised.
-/

namespace TechPulse

/-- A call a client makes, with its arguments. `initUpload` is the route
    `POST /uploads/init` (`init_upload_session`, then `storage.init_upload`); a
    call that draws a `uuid4` carries the id it draws. -/
inductive Call where
  | initUpload (userId : Int) (form : PackageForm) (maxSizeBytes : Option Int) (uploadId : String)
  | appendUploadStream (a : AppendArgs)
  | uploadSingleRequest (a : SingleArgs)
  | completeUpload (uploadId : String) (userId : Int)
  | cancelUpload (uploadId : String) (userId : Int)
  | getDownloadTicket (userId : Int) (packageId versionId : Nat)
  | deletePackageForOwner (packageId : Nat) (userId : Int)

/-- A call in progress: its arguments and where it stands. -/
inductive Proc where
  | initUpload (userId : Int) (form : PackageForm) (maxSizeBytes : Option Int)
      (uploadId : String) (pc : InitPc)
  | append (a : AppendArgs) (pc : AppendPc)
  | single (a : SingleArgs) (pc : SinglePc)
  | complete (uploadId : String) (userId : Int) (pc : CompletePc)
  | cancel (uploadId : String) (userId : Int) (pc : CancelPc)
  | ticket (userId : Int) (packageId versionId : Nat) (pc : TicketPc)
  | delete (packageId : Nat) (userId : Int) (pc : DeletePc)

/-- A call before its first step. -/
def Call.start : Call → Proc
  | .initUpload u f m i => .initUpload u f m i .init
  | .appendUploadStream a => .append a .lock
  | .uploadSingleRequest a => .single a .init
  | .completeUpload i u => .complete i u .open
  | .cancelUpload i u => .cancel i u .lock
  | .getDownloadTicket u p v => .ticket u p v .tx
  | .deletePackageForOwner p u => .delete p u .tx

namespace Proc

/-- One step of a call in progress. -/
def step (svc : SoftwarePackageService) (fault : Bool) (w : World) : Proc → Proc × World
  | .initUpload u f m i pc =>
    match pc.step svc u f m i fault w with
    | (pc, w) => (.initUpload u f m i pc, w)
  | .append a pc => match pc.step a fault w with
    | (pc, w) => (.append a pc, w)
  | .single a pc => match pc.step svc a fault w with
    | (pc, w) => (.single a pc, w)
  | .complete i u pc => match pc.step svc i u fault w with
    | (pc, w) => (.complete i u pc, w)
  | .cancel i u pc => match pc.step i u fault w with
    | (pc, w) => (.cancel i u pc, w)
  | .ticket u p v pc => match pc.step p v fault w with
    | (pc, w) => (.ticket u p v pc, w)
  | .delete p u pc => match pc.step p u fault w with
    | (pc, w) => (.delete p u pc, w)

/-- Whether the call has returned or raised. -/
def isDone : Proc → Bool
  | .initUpload _ _ _ _ (.done _) | .append _ (.done _) | .single _ (.done _)
  | .complete _ _ (.done _) | .cancel _ _ (.done _) | .ticket _ _ _ (.done _)
  | .delete _ _ (.done _) => true
  | _ => false

end Proc

/-- The whole system: the shared world and every call made so far. -/
structure Sys where
  world : World
  procs : List Proc

def Sys.empty : Sys := ⟨.empty, []⟩

/-- What happens next: a client makes a call, or call `pid` takes a step. -/
inductive Action where
  | call (c : Call)
  | step (pid : Nat) (fault : Bool)

def Action.fault : Action → Bool
  | .call _ => false
  | .step _ f => f

/-- Every call made so far has returned or raised. -/
def Sys.quiet (s : Sys) : Prop := ∀ p ∈ s.procs, p.isDone = true

/-- The next state, or `none` when the action cannot be taken. -/
def Sys.next (svc : SoftwarePackageService) (s : Sys) : Action → Option Sys
  | .call c => some { s with procs := s.procs ++ [c.start] }
  | .step pid fault =>
    match s.procs[pid]? with
    | some p =>
      if p.isDone then none
      else match p.step svc fault s.world with
        | (p, w) => some ⟨w, s.procs.set pid p⟩
    | none => none

def Sys.run (svc : SoftwarePackageService) : Sys → List Action → Option Sys
  | s, [] => some s
  | s, a :: rest => (s.next svc a).bind fun s => s.run svc rest

/-- The states reachable from the empty store by runs whose actions are allowed. -/
inductive Reachable (svc : SoftwarePackageService) (allowed : Sys → Action → Prop) : Sys → Prop where
  | empty : Reachable svc allowed .empty
  | next {s s' : Sys} {a : Action} :
      Reachable svc allowed s → allowed s a → s.next svc a = some s' → Reachable svc allowed s'

def anyOrder : Sys → Action → Prop := fun _ _ => True

/-- Every interleaving in which no I/O fails. -/
def noFault : Sys → Action → Prop := fun _ a => a.fault = false

/-- Calls one at a time: a call starts only once every earlier call is done. -/
def sequential : Sys → Action → Prop := fun s a =>
  match a with
  | .call _ => s.quiet
  | .step _ _ => True

theorem Reachable.mono {svc : SoftwarePackageService} {p q : Sys → Action → Prop}
    (hpq : ∀ s a, p s a → q s a) {s : Sys} (h : Reachable svc p s) : Reachable svc q s := by
  induction h with
  | empty => exact .empty
  | next _ ha hs ih => exact .next ih (hpq _ _ ha) hs

instance (s : Sys) : Decidable s.quiet := inferInstanceAs (Decidable (∀ p ∈ s.procs, p.isDone = true))

instance (s : Sys) (a : Action) : Decidable (anyOrder s a) := inferInstanceAs (Decidable True)

instance (s : Sys) (a : Action) : Decidable (noFault s a) := inferInstanceAs (Decidable (a.fault = false))

instance (s : Sys) : (a : Action) → Decidable (sequential s a)
  | .call _ => inferInstanceAs (Decidable s.quiet)
  | .step _ _ => inferInstanceAs (Decidable True)

/-- Run a list of actions, each only where `allowed` allows it. -/
def Sys.runWhere (svc : SoftwarePackageService) (allowed : Sys → Action → Prop)
    [∀ s a, Decidable (allowed s a)] : Sys → List Action → Option Sys
  | s, [] => some s
  | s, a :: rest => if allowed s a then (s.next svc a).bind fun s => s.runWhere svc allowed rest else none

theorem Reachable.runWhere {svc : SoftwarePackageService} {allowed : Sys → Action → Prop}
    [∀ s a, Decidable (allowed s a)] :
    ∀ {s s' : Sys} {acts : List Action}, Reachable svc allowed s →
      s.runWhere svc allowed acts = some s' → Reachable svc allowed s'
  | s, s', [], hs, h => by cases h; exact hs
  | s, s', a :: rest, hs, h => by
    simp only [Sys.runWhere] at h
    split at h
    · cases hn : s.next svc a with
      | none => simp [hn] at h
      | some t =>
        rw [hn] at h
        exact Reachable.runWhere (.next hs ‹_› hn) h
    · cases h

/-- The state that a run allowed throughout reaches from the empty store. -/
def Sys.reachedBy (svc : SoftwarePackageService) (allowed : Sys → Action → Prop)
    [∀ s a, Decidable (allowed s a)] (acts : List Action) : Sys :=
  (Sys.empty.runWhere svc allowed acts).getD .empty

theorem Reachable.reachedBy {svc : SoftwarePackageService} {allowed : Sys → Action → Prop}
    [∀ s a, Decidable (allowed s a)] {acts : List Action}
    (h : (Sys.empty.runWhere svc allowed acts).isSome) :
    Reachable svc allowed (Sys.reachedBy svc allowed acts) := by
  unfold Sys.reachedBy
  cases hr : Sys.empty.runWhere svc allowed acts with
  | none => rw [hr] at h; cases h
  | some s => exact Reachable.runWhere .empty hr

/-! ### A service for worked runs -/

def hexDigit (n : Nat) : Char := if n < 10 then Char.ofNat (48 + n) else Char.ofNat (87 + n)

/-- A stand-in for the SHA-256 hex digest on short payloads: 64 hex characters
    spelling the payload's length and its bytes, padded with zeros, so that two
    payloads of at most 31 bytes have the same digest only if they are equal. -/
def stubSha256 (b : Bytes) : String :=
  String.mk (((b.length % 256) :: b.map UInt8.toNat).flatMap (fun x => [hexDigit (x / 16), hexDigit (x % 16)])
    ++ List.replicate 64 '0' |>.take 64)

/-- A service with small limits, the stand-in digest and a scanner that accepts
    every stream. -/
def exampleService : SoftwarePackageService := ⟨8, 4, stubSha256, fun _ _ _ => .ok ()⟩

/-- A valid package form for version `version` of the package `name`. -/
def exampleForm (name version : String) : PackageForm :=
  ⟨name, "A command-line tool", "Student Projects", "Python", version, true, "tool.zip", none⟩

end TechPulse
