import ExpressOS.Venus.Upcall

/-!
# Routing upcalls to workers

`find_worker`, and the bytes of the frame that it and `post_upcall` reach.
-/

namespace ExpressOS
open Systems

/-- `WORKER_NUM` and `HANDLE_SHIFT` -/
def workerNum : ℕ := 20
def handleShift : ℕ := 13

variable (codes : VenusCodes)

/-- Whether `find_worker` routes an opcode by handle. -/
def isAsyncOpcode (opcode : ℕ) : Bool :=
  match codes.decode opcode with
  | some k => k.isAsync
  | none => false

/-- The worker for a handle; the last one takes the synchronous calls. -/
def asyncWorker (handle : ℕ) : Fin workerNum :=
  ⟨(handle >>> handleShift) % (workerNum - 1),
    lt_trans (Nat.mod_lt _ (by decide)) (by decide)⟩

def syncWorker : Fin workerNum := ⟨workerNum - 1, by decide⟩

def findWorker (u : Upcall) : Option (Fin workerNum) :=
  if u.opcode ≥ codes.callCount then none
  else if isAsyncOpcode codes u.opcode then some (asyncWorker u.handle)
  else some syncWorker

lemma asyncWorker_ne_syncWorker (handle : ℕ) : asyncWorker handle ≠ syncWorker := by
  intro h
  have hval := congrArg Fin.val h
  have hlt : (handle >>> handleShift) % (workerNum - 1) < workerNum - 1 :=
    Nat.mod_lt _ (by decide)
  simp only [asyncWorker, syncWorker] at hval
  omega

lemma opcode_lt_callCount {codes : VenusCodes} {u : Upcall}
    (h : isAsyncOpcode codes u.opcode = true) : u.opcode < codes.callCount := by
  unfold isAsyncOpcode at h
  split at h
  · rename_i k hk
    rw [← codes.code_of_decode hk]
    exact codes.code_lt k
  · cases h

end ExpressOS
