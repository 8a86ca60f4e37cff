import Mathlib.Logic.Relation
import TechPulse.Steps

/-!
# What a failed finalization leaves behind

`_finalize_upload_with_checksum` commits its work in several blocks: FINALIZING,
the blob lookup (which takes a reference on an existing blob, or finds none),
the blob reconciliation after `promote_upload` (which adds the blob row), and the
version insert, with a storage call between the lookup and the insert. Only the
version insert writes packages and versions, and it is the finalization's last
step, so a finalization that raises, at whatever step and with whatever fault,
leaves the catalog as it found it (`finalize_failure_keeps_catalog`).

The reference it took is another matter: no block gives it back unless the
version insert itself fails on a unique constraint. When `abort_upload` fails
after the lookup took a reference on an existing blob, the finalization raises
with that blob's count one higher than before, for a version that was never
inserted (`finalize_failure_leaks_reference`).
-/

namespace TechPulse

/-- A finalization that runs alone, from one of its states and a world to a
    later pair, whatever faults its steps meet. -/
def FinalizePc.Runs (svc : SoftwarePackageService) (fa : FinalizeArgs) :
    FinalizePc × World → FinalizePc × World → Prop :=
  Relation.ReflTransGen fun x y => ∃ fault, x.1.step svc fa fault x.2 = y

/-- The finalization after one step per fault of `faults`. -/
def FinalizePc.runFaults (svc : SoftwarePackageService) (fa : FinalizeArgs) :
    List Bool → FinalizePc × World → FinalizePc × World
  | [], x => x
  | f :: faults, x => runFaults svc fa faults (x.1.step svc fa f x.2)

theorem FinalizePc.runs_runFaults (svc : SoftwarePackageService) (fa : FinalizeArgs)
    (faults : List Bool) (x : FinalizePc × World) :
    FinalizePc.Runs svc fa x (runFaults svc fa faults x) := by
  induction faults generalizing x with
  | nil => exact .refl
  | cons f faults ih => exact .head ⟨f, rfl⟩ (ih _)

/-- Until it has returned a version, a finalization keeps the packages and the
    versions as they were. -/
theorem FinalizePc.step_catalog {svc : SoftwarePackageService} {fa : FinalizeArgs} {fault : Bool}
    {w w' : World} {pc pc' : FinalizePc} (h : pc.step svc fa fault w = (pc', w')) :
    (w'.db.versions = w.db.versions ∧ w'.db.packages = w.db.packages) ∨ ∃ r, pc' = .done (.ok r) := by
  rcases step_db h with ⟨rfl, -⟩ | hr
  · exact .inl ⟨rfl, rfl⟩
  · rcases run_tables hr with ⟨hp, hv⟩ | ⟨-, -, r, -, rfl, -⟩
    exacts [.inl ⟨hv, hp⟩, .inr ⟨r, rfl⟩]

/-- **A failed finalization leaves the catalog alone.** A finalization that runs
    from its first block to an exception, whatever faults its steps meet, leaves
    the versions and the packages as they were. -/
theorem finalize_failure_keeps_catalog {svc : SoftwarePackageService} {fa : FinalizeArgs}
    {w w' : World} {e : Err} (h : FinalizePc.Runs svc fa (.lock, w) (.done (.error e), w')) :
    w'.db.versions = w.db.versions ∧ w'.db.packages = w.db.packages := by
  suffices ∀ y, FinalizePc.Runs svc fa (.lock, w) y →
      (y.2.db.versions = w.db.versions ∧ y.2.db.packages = w.db.packages) ∨
        ∃ r, y.1 = .done (.ok r) by
    rcases this _ h with hc | ⟨r, hr⟩
    exacts [hc, by cases hr]
  intro y hy
  induction hy with
  | refl => exact .inl ⟨rfl, rfl⟩
  | tail _ hn ih =>
    obtain ⟨fault, hst⟩ := hn
    rcases ih with ⟨hv, hp⟩ | ⟨r, hr⟩
    · rcases FinalizePc.step_catalog hst with ⟨hv', hp'⟩ | hd
      exacts [.inl ⟨hv'.trans hv, hp'.trans hp⟩, .inr hd]
    · rw [hr] at hst
      cases hst
      exact .inr ⟨r, rfl⟩

/-! ### A reference taken and never given back -/

/-- User 1 uploads `[1, 2]` for version 1.0 of `tool`, then the same payload for
    version 2.0, in one request each; the second call stops where it enters the
    finalization. -/
def reuseBlob : List Action :=
  [.call (.uploadSingleRequest ⟨1, exampleForm "tool" "1.0", [[1, 2]], "u1"⟩)] ++
    List.replicate 14 (.step 0 false) ++
    [.call (.uploadSingleRequest ⟨1, exampleForm "tool" "2.0", [[1, 2]], "u2"⟩)] ++
    List.replicate 7 (.step 1 false)

/-- The second upload's finalization. -/
def reuseArgs : FinalizeArgs := ⟨"u2", 1, stubSha256 [1, 2], 2⟩

/-- In a run of one call at a time, the second upload enters its finalization with
    blob 1 at one reference. The finalization takes a second reference in its
    lookup, and `abort_upload` then fails: it raises, with no new version, and
    blob 1 keeps two references. -/
theorem finalize_failure_leaks_reference :
    Reachable exampleService sequential (Sys.reachedBy exampleService sequential reuseBlob) ∧
      ((Sys.reachedBy exampleService sequential reuseBlob).procs.getLast?.bind Proc.finalizing).map
        (·.1) = some reuseArgs ∧
      FinalizePc.Runs exampleService reuseArgs (.lock, (Sys.reachedBy exampleService sequential reuseBlob).world)
        (FinalizePc.runFaults exampleService reuseArgs [false, false, false, false, true]
          (.lock, (Sys.reachedBy exampleService sequential reuseBlob).world)) ∧
      (FinalizePc.runFaults exampleService reuseArgs [false, false, false, false, true]
          (.lock, (Sys.reachedBy exampleService sequential reuseBlob).world)).1 = .done (.error .io) ∧
      (Sys.reachedBy exampleService sequential reuseBlob).world.db.blobs.map
        (fun b => (b.id, b.referenceCount)) = [(1, 1)] ∧
      (FinalizePc.runFaults exampleService reuseArgs [false, false, false, false, true]
          (.lock, (Sys.reachedBy exampleService sequential reuseBlob).world)).2.db.blobs.map
        (fun b => (b.id, b.referenceCount)) = [(1, 2)] :=
  ⟨.reachedBy (by decide), by decide, FinalizePc.runs_runFaults _ _ _ _, rfl, by decide, by decide⟩

theorem finalize_failure_keeps_catalog_after_failed_abort :
    (FinalizePc.runFaults exampleService reuseArgs [false, false, false, false, true]
        (.lock, (Sys.reachedBy exampleService sequential reuseBlob).world)).2.db.versions =
        (Sys.reachedBy exampleService sequential reuseBlob).world.db.versions ∧
      (FinalizePc.runFaults exampleService reuseArgs [false, false, false, false, true]
        (.lock, (Sys.reachedBy exampleService sequential reuseBlob).world)).2.db.packages =
        (Sys.reachedBy exampleService sequential reuseBlob).world.db.packages :=
  finalize_failure_keeps_catalog
    (FinalizePc.runs_runFaults exampleService reuseArgs [false, false, false, false, true]
      (.lock, (Sys.reachedBy exampleService sequential reuseBlob).world) :
      FinalizePc.Runs _ _ _ (.done (.error .io), (FinalizePc.runFaults exampleService reuseArgs
        [false, false, false, false, true] (.lock, (Sys.reachedBy exampleService sequential reuseBlob).world)).2))

end TechPulse
