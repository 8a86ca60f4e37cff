import TechPulse.Domain

/-!
# Streaming checksum

`app/infrastructure/checksum.py`. `hashlib.sha256` keeps, in effect, the bytes it
has absorbed; the model keeps them as they are and leaves the digest function to
a parameter `sha256 : Bytes → String` (the hex digest). The running byte count is
a field of its own, as in the source, and carries the proof that it is the length
of what was absorbed.
-/

namespace TechPulse

/-- `StreamingSHA256`. -/
structure StreamingSHA256 where
  absorbed : Bytes
  sizeBytes : Nat
  sizeBytes_eq : sizeBytes = absorbed.length

namespace StreamingSHA256

/-- A fresh hasher. -/
def init : StreamingSHA256 := ⟨[], 0, rfl⟩

/-- `update`: empty chunks are ignored. -/
def update (h : StreamingSHA256) (chunk : Bytes) : StreamingSHA256 :=
  if chunk.isEmpty then h
  else ⟨h.absorbed ++ chunk, h.sizeBytes + chunk.length, by simp [h.sizeBytes_eq]⟩

/-- `hexdigest()`, for the hash function `sha256`. -/
def hexdigest (sha256 : Bytes → String) (h : StreamingSHA256) : String := sha256 h.absorbed

@[simp] theorem init_absorbed : init.absorbed = [] := rfl

end StreamingSHA256

end TechPulse
