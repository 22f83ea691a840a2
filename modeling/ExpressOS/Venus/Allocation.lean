import ExpressOS.Systems.Refinement
import ExpressOS.Venus.Delivery

/-!
# The end of the process in `post_upcall`

The machine of `Workers.lean` gets a block for every copy. `post_upcall` does not look at what
`malloc` returns: where it returns no block, `memcpy` writes through a null pointer, and the process
ends while the mutex of the worker is taken. Until then the process is the machine.
-/

namespace ExpressOS
open Systems

/-- Venus as one process, at work or as it was when it ended. -/
structure VenusProcess where
  venus : Venus
  ended : Bool

inductive ProcessAct
  | venus (a : VenusAct)
  -- `malloc` returns a null pointer in `post_upcall`
  | mallocFails

def VenusProcess.step (codes : VenusCodes) (buf : ℕ) (s : VenusProcess) (a : ProcessAct) :
    Option VenusProcess :=
  match s.ended, a, s.venus.dispatcher with
  | false, .venus a, _ => (s.venus.step codes buf a).map (fun v => ⟨v, false⟩)
  | false, .mallocFails, .posting .storing _ _ => some ⟨s.venus, true⟩
  | _, _, _ => none

def processMachine (codes : VenusCodes) (buf : ℕ) (junk : Memory) :
    Machine VenusProcess ProcessAct where
  start := ⟨(venusMachine codes buf junk).start, false⟩
  step := VenusProcess.step codes buf

/-- What an action does to the process, and when. -/
def ProcessTurn (codes : VenusCodes) (buf : ℕ) (s s' : VenusProcess) : ProcessAct → Prop
  | .venus a => s.ended = false ∧ s'.ended = false ∧ s.venus.step codes buf a = some s'.venus
  | .mallocFails => s.ended = false ∧ s' = ⟨s.venus, true⟩ ∧
      ∃ ptr w, s.venus.dispatcher = .posting .storing ptr w

section Process

variable {codes : VenusCodes} {buf : ℕ} {junk : Memory} {s s' : VenusProcess}

lemma processStep_turn {a : ProcessAct} (h : s.step codes buf a = some s') :
    ProcessTurn codes buf s s' a := by
  unfold VenusProcess.step at h
  split at h
  · rename_i hended
    obtain ⟨v, hv, rfl⟩ := Option.map_eq_some_iff.mp h
    exact ⟨hended, rfl, hv⟩
  · rename_i ptr w hended hphase
    exact ⟨hended, (Option.some.inj h).symm, ptr, w, hphase⟩
  · cases h

lemma processMachine_refines :
    (processMachine codes buf junk).Refines (venusMachine codes buf junk) VenusProcess.venus where
  start := rfl
  step s a s' h := by
    cases a with
    | venus a =>
      obtain ⟨-, -, hstep⟩ := processStep_turn h
      exact ⟨[a], (Machine.run_singleton _ _ _).trans hstep⟩
    | mallocFails =>
      obtain ⟨-, rfl, -⟩ := processStep_turn h
      exact ⟨[], rfl⟩

/-- Where the dispatcher stands when there is no block for the copy. -/
def VenusProcess.EndsInPost (s : VenusProcess) : Prop :=
  s.ended = true → ∃ ptr w, s.venus.dispatcher = .posting .storing ptr w

lemma endsInPost_step {a : ProcessAct} (h : s.step codes buf a = some s') : s'.EndsInPost := by
  intro hend
  cases a with
  | venus a =>
    obtain ⟨-, halive, -⟩ := processStep_turn h
    rw [halive] at hend
    cases hend
  | mallocFails =>
    obtain ⟨-, rfl, hphase⟩ := processStep_turn h
    exact hphase

/-- Whether or not the process has ended, its upcalls are delivered as before. It ends with one
upcall that no worker gets, and with the mutex of the worker of that upcall taken. -/
theorem process_delivered {ls : List ProcessAct}
    (hrun : (processMachine codes buf junk).Reaches ls s)
    (hsize : ∀ p ∈ s.venus.posted, hdrSize + p.2.payloadSize < 2 ^ 32) :
    Delivered codes s.venus ∧
      (s.ended = true → ∃ ptr w, s.venus.dispatcher = .posting .storing ptr w ∧
        (s.venus.cells w).monitor.owner = some .dispatcher ∧
        s.venus.inHand w = [(s.venus.lastNumber, (Upcall.mk s.venus.mem ptr).copy)]) := by
  have hstart : (processMachine codes buf junk).start.EndsInPost := fun hend => by cases hend
  obtain ⟨hinv, hphase⟩ := processMachine_refines.invariant (venusInv_start codes buf junk)
    (fun _ _ _ => venusInv_step) hstart (fun _ _ _ _ _ => endsInPost_step) hrun
  refine ⟨delivered_of_inv hinv hsize, fun hend => ?_⟩
  obtain ⟨ptr, w, hposting⟩ := hphase hend
  have hpost : s.venus.dispatcher.postingTo w = some .storing := by
    rw [hposting, postingTo_posting]
  refine ⟨ptr, w, hposting, (hinv.cell w).dispatcher_owns.mpr (.inl hpost), ?_⟩
  rw [Venus.inHand, if_pos (.inr hpost), (hinv.hand _ ptr w hposting).1]
  rfl

end Process

end ExpressOS
