import ExpressOS.Venus.Delivery

/-!
# Clients that keep the one-to-one mapping

The threads of ExpressOS on the other side of the glue device. A thread has at most one
asynchronous upcall without its downcall, and the whole system at most one synchronous one. The
handles of the live threads are far enough apart for `find_worker` to tell the threads apart.
-/

namespace ExpressOS
open Systems

/-- The worker for the calls of one thread, or for the synchronous calls of all threads. -/
def callerWorker : Option ℕ → Fin workerNum
  | some handle => asyncWorker handle
  | none => syncWorker

/-- Who waits for the answer to an upcall with these bytes: the thread of its handle, or, for a
synchronous call, `none`. -/
def callerOf (codes : VenusCodes) (bytes : List UInt8) : Option ℕ :=
  if isAsyncOpcode codes (leNat (bytes.take 4)) then
    some (leNat ((bytes.drop handleOffset).take handleSize))
  else none

/-- An upcall of a client: one of the eight calls, with its handle if it has one. -/
def ClientCall (codes : VenusCodes) (f : Frame) : Prop :=
  (codes.decode f.opcode).isSome ∧ (isAsyncOpcode codes f.opcode → handleSize ≤ f.payload.length)

instance (codes : VenusCodes) (f : Frame) : Decidable (ClientCall codes f) :=
  inferInstanceAs (Decidable (_ ∧ _))

/-- The handles of the live threads differ after the shift, and lie in a window of
`WORKER_NUM - 1` values. -/
def InWindow (base : ℕ) (live : List ℕ) : Prop :=
  (live.map (fun h => h >>> handleShift)).Nodup ∧
    ∀ h ∈ live, h < 2 ^ 32 ∧ base ≤ h >>> handleShift ∧ h >>> handleShift < base + (workerNum - 1)

instance (base : ℕ) (live : List ℕ) : Decidable (InWindow base live) :=
  inferInstanceAs (Decidable (_ ∧ _))

/-- Venus, the live threads, those that wait for a downcall, and the upcalls on their way to the
dispatcher. -/
structure ClientSystem where
  venus : Venus
  live : List ℕ
  waiting : List (Option ℕ)
  queue : List Frame

inductive ClientAct
  | spawn (handle base : ℕ)
  | exit (handle : ℕ)
  | issue (f : Frame)
  -- the `ioctl` of the dispatcher returns with `batch`, and `rest` stays behind
  | deliver (mem : Memory) (batch rest : List Frame)
  -- any other action of the dispatcher
  | dispatcher (a : DispatcherAct)
  | worker (w : Fin workerNum) (a : WorkerAct)

namespace ClientSystem

variable (codes : VenusCodes) (buf : ℕ)

def step (s : ClientSystem) : ClientAct → Option ClientSystem
  | .spawn handle base =>
    if InWindow base (handle :: s.live) then some { s with live := handle :: s.live } else none
  | .exit handle =>
    if some handle ∈ s.waiting then none else some { s with live := s.live.erase handle }
  | .issue f =>
    let caller := callerOf codes f.encode
    if ClientCall codes f ∧ caller ∉ s.waiting ∧ (∀ handle ∈ caller, handle ∈ s.live) then
      some { s with waiting := caller :: s.waiting, queue := f :: s.queue }
    else none
  | .deliver mem batch rest =>
    let bytes := frameStream.encodeAll batch
    if (batch ++ rest).Perm s.queue ∧ mem.read buf bytes.length = bytes then
      (s.venus.dispatcherStep codes buf (.ioctl mem bytes.length)).map (fun venus =>
        { s with venus := venus, queue := rest })
    else none
  | .dispatcher (.ioctl _ _) => none
  | .dispatcher a =>
    (s.venus.dispatcherStep codes buf a).map (fun venus => { s with venus := venus })
  | .worker w a =>
    ((s.venus.cells w).workerStep a).bind (fun c =>
      let venus := s.venus.setCell w c
      match a, (s.venus.cells w).phase with
      -- the downcall ends the wait of the caller
      | .downcall, .handling u _ =>
        some { s with venus := venus, waiting := s.waiting.erase (callerOf codes u.2) }
      -- a handler returns after its downcall, and returns 0
      | .ret r, .handling _ sent => if sent ∧ r = 0 then some { s with venus := venus } else none
      | _, _ => some { s with venus := venus })

end ClientSystem

/-- Before the first client. -/
def clientMachine (codes : VenusCodes) (buf : ℕ) (junk : Memory) :
    Machine ClientSystem ClientAct where
  start := ⟨(venusMachine codes buf junk).start, [], [], []⟩
  step := ClientSystem.step codes buf

/-- What an action of the system does, and when. -/
def ClientTurn (codes : VenusCodes) (buf : ℕ) (s s' : ClientSystem) : ClientAct → Prop
  | .spawn handle base => InWindow base (handle :: s.live) ∧
      s' = { s with live := handle :: s.live }
  | .exit handle => some handle ∉ s.waiting ∧ s' = { s with live := s.live.erase handle }
  | .issue f => ClientCall codes f ∧ callerOf codes f.encode ∉ s.waiting ∧
      (∀ handle ∈ callerOf codes f.encode, handle ∈ s.live) ∧
      s' = { s with waiting := callerOf codes f.encode :: s.waiting, queue := f :: s.queue }
  | .deliver mem batch rest => (batch ++ rest).Perm s.queue ∧
      mem.read buf (frameStream.encodeAll batch).length = frameStream.encodeAll batch ∧
      ∃ venus, DispatcherTurn codes buf s.venus venus
          (.ioctl mem (frameStream.encodeAll batch).length) ∧
        s' = { s with venus := venus, queue := rest }
  | .dispatcher a => (∀ mem n, a ≠ .ioctl mem n) ∧
      ∃ venus, DispatcherTurn codes buf s.venus venus a ∧ s' = { s with venus := venus }
  | .worker w a => ∃ c waiting, WorkerTurn (s.venus.cells w) c a ∧
      (∀ r, a = .ret r → r = 0 ∧ ∃ u, (s.venus.cells w).phase = .handling u true) ∧
      (∀ u, a = .downcall → (s.venus.cells w).phase = .handling u false →
        waiting = s.waiting.erase (callerOf codes u.2)) ∧
      (a ≠ .downcall → waiting = s.waiting) ∧
      s' = { s with venus := s.venus.setCell w c, waiting := waiting }

lemma clientStep_turn {codes : VenusCodes} {buf : ℕ} {s s' : ClientSystem} {l : ClientAct}
    (h : s.step codes buf l = some s') : ClientTurn codes buf s s' l := by
  cases l with
  | spawn handle base =>
    obtain ⟨hwindow, hs⟩ := Option.ite_none_right_eq_some.mp h
    exact ⟨hwindow, (Option.some.inj hs).symm⟩
  | exit handle =>
    obtain ⟨hfree, hs⟩ := Option.ite_none_left_eq_some.mp h
    exact ⟨hfree, (Option.some.inj hs).symm⟩
  | issue f =>
    obtain ⟨⟨hcall, hfree, hlive⟩, hs⟩ := Option.ite_none_right_eq_some.mp h
    exact ⟨hcall, hfree, hlive, (Option.some.inj hs).symm⟩
  | deliver mem batch rest =>
    obtain ⟨⟨hperm, hread⟩, hs⟩ := Option.ite_none_right_eq_some.mp h
    obtain ⟨venus, hv, rfl⟩ := Option.map_eq_some_iff.mp hs
    exact ⟨hperm, hread, venus, dispatcherStep_turn hv, rfl⟩
  | dispatcher a =>
    by_cases hioctl : ∃ mem n, a = .ioctl mem n
    · obtain ⟨mem, n, rfl⟩ := hioctl
      cases h
    · have hs : (s.venus.dispatcherStep codes buf a).map (fun venus => { s with venus := venus }) =
          some s' := by
        cases a <;> first | exact h | exact absurd ⟨_, _, rfl⟩ hioctl
      obtain ⟨venus, hv, rfl⟩ := Option.map_eq_some_iff.mp hs
      exact ⟨fun mem n ha => hioctl ⟨mem, n, ha⟩, venus, dispatcherStep_turn hv, rfl⟩
  | worker w a =>
    obtain ⟨c, hc, hs⟩ := Option.bind_eq_some_iff.mp h
    have ht := workerStep_turn hc
    dsimp only at hs
    split at hs
    · rename_i u sent hphase
      refine ⟨c, _, ht, by simp, ?_, by simp, (Option.some.inj hs).symm⟩
      intro u' _ hphase'
      rw [hphase] at hphase'
      cases hphase'
      rfl
    · rename_i r u sent hphase
      obtain ⟨⟨hsent, hr⟩, hs'⟩ := Option.ite_none_right_eq_some.mp hs
      refine ⟨c, _, ht, ?_, by simp, fun _ => rfl, (Option.some.inj hs').symm⟩
      rintro r' ⟨⟩
      exact ⟨hr, u, hsent ▸ hphase⟩
    · rename_i hdown hret
      refine ⟨c, _, ht, ?_, ?_, fun _ => rfl, (Option.some.inj hs).symm⟩
      · rintro r rfl
        obtain ⟨u, sent, hphase, -⟩ := ht
        exact absurd hphase (hret r u sent rfl)
      · rintro u rfl hphase
        exact absurd hphase (hdown u false rfl)

end ExpressOS
