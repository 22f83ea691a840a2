import ExpressOS.Systems.Machine
import ExpressOS.Systems.Mailbox
import ExpressOS.Systems.Monitor
import ExpressOS.Venus.Dispatcher
import ExpressOS.Venus.Routing

/-!
# The dispatcher and its workers

`dispatcher_loop`, `post_upcall` and `worker_loop` as one machine. A step is one action of one
thread on the state it shares with others: taking or leaving a mutex, testing or changing `arg`, a
condition variable, or an action of a handler that can be seen from outside. Accepted upcalls are
numbered, and a copy carries the number of its upcall.
-/

namespace ExpressOS
open Systems

/-- The threads that use the mutex of a worker: the dispatcher, and the worker itself. -/
inductive Party
  | dispatcher
  | worker
  deriving DecidableEq, Repr

/-- What a mailbox holds: the number of an upcall, and the copy `post_upcall` made of it. -/
abbrev Work := ℕ × List UInt8

/-- Where a thread stands in `worker_loop`. -/
inductive WorkerPhase
  | locking
  -- holds the mutex, before the test of `while (!w->arg)`
  | testing
  -- holds the mutex and is about to wait, or to take `w->arg`
  | waiting
  | taking
  -- inside `pthread_cond_wait`
  | inWait
  -- has set `w->arg` to null and is about to leave the mutex
  | leaving (u : Work)
  -- in the handler; `sent` when the downcall is out
  | handling (u : Work) (sent : Bool)
  | exited

def WorkerPhase.holds : WorkerPhase → Prop
  | .testing | .waiting | .taking | .leaving _ => True
  | .locking | .inWait | .handling _ _ | .exited => False

/-- `struct worker_thread` and the thread that runs on it; `mailbox` is `arg`. -/
structure Cell where
  monitor : Monitor Party
  mailbox : Mailbox Work
  phase : WorkerPhase

inductive WorkerAct
  | lock
  | test
  | wait
  -- woken for no reason
  | wake
  -- takes the mutex again inside `pthread_cond_wait`
  | relock
  | take
  | unlock
  | downcall
  | ret (r : ℤ)
  deriving DecidableEq, Repr

def Cell.workerStep (c : Cell) (a : WorkerAct) : Option Cell :=
  match a, c.phase with
  | .lock, .locking =>
    (c.monitor.lock .worker).map (fun m => { c with monitor := m, phase := .testing })
  | .test, .testing =>
    some { c with phase := if c.mailbox.slot.isSome then .taking else .waiting }
  | .wait, .waiting =>
    (c.monitor.wait .worker).map (fun m => { c with monitor := m, phase := .inWait })
  | .wake, .inWait => (c.monitor.wake .worker).map (fun m => { c with monitor := m })
  | .relock, .inWait =>
    if .worker ∈ c.monitor.asleep then none
    else (c.monitor.lock .worker).map (fun m => { c with monitor := m, phase := .testing })
  | .take, .taking =>
    c.mailbox.take.map (fun (u, mailbox) => { c with mailbox := mailbox, phase := .leaving u })
  | .unlock, .leaving u =>
    (c.monitor.unlock .worker).map (fun m => { c with monitor := m, phase := .handling u false })
  | .downcall, .handling u false => some { c with phase := .handling u true }
  | .ret r, .handling _ _ => some { c with phase := if r = 0 then .locking else .exited }
  | _, _ => none

/-- Where the dispatcher stands in `post_upcall`: about to take the mutex of the worker, to set
`w->arg`, to signal, and to leave the mutex. -/
inductive PostPhase
  | locking
  | storing
  | signalling
  | unlocking
  deriving DecidableEq, Repr

inductive DispatcherPhase
  | inIoctl
  -- at the head of the inner loop
  | scanning (ptr : ℕ)
  -- in `post_upcall` with the upcall at `ptr` and its worker
  | posting (p : PostPhase) (ptr : ℕ) (w : Fin workerNum)
  | returned

/-- How far the dispatcher is with an upcall for `w`. -/
def DispatcherPhase.postingTo (d : DispatcherPhase) (w : Fin workerNum) : Option PostPhase :=
  match d with
  | .posting p _ w' => if w' = w then some p else none
  | _ => none

inductive DispatcherAct
  | ioctl (mem : Memory) (consumed : ℕ)
  | ioctlFails
  -- the loop test, and the check of the frame
  | turn
  | lock
  | store
  | signal (pick : Option Party)
  | unlock

/-- The buffer of the dispatcher, the workers, and the upcalls accepted so far. -/
structure Venus where
  mem : Memory
  stop : ℕ
  dispatcher : DispatcherPhase
  cells : Fin workerNum → Cell
  posted : List (ℕ × Upcall)

namespace Venus

def setCell (s : Venus) (w : Fin workerNum) (c : Cell) : Venus :=
  { s with cells := Function.update s.cells w c }

/-- The dispatcher moves on in `post_upcall` and changes the state of the worker it posts to. -/
def post (s : Venus) (next : DispatcherPhase) (w : Fin workerNum) (c : Cell) : Venus :=
  { s.setCell w c with dispatcher := next }

@[simp] lemma setCell_cells_self (s : Venus) (w : Fin workerNum) (c : Cell) :
    (s.setCell w c).cells w = c := Function.update_self ..

lemma setCell_cells_of_ne (s : Venus) {w w' : Fin workerNum} (c : Cell) (h : w' ≠ w) :
    (s.setCell w c).cells w' = s.cells w' := Function.update_of_ne h ..

@[simp] lemma post_cells_self (s : Venus) (next : DispatcherPhase) (w : Fin workerNum) (c : Cell) :
    (s.post next w c).cells w = c := Function.update_self ..

lemma post_cells_of_ne (s : Venus) (next : DispatcherPhase) {w w' : Fin workerNum} (c : Cell)
    (h : w' ≠ w) : (s.post next w c).cells w' = s.cells w' := Function.update_of_ne h ..

def lastNumber (s : Venus) : ℕ := s.posted.length - 1

def accept (s : Venus) (u : Upcall) (next : DispatcherPhase) : Venus :=
  { s with posted := s.posted ++ [(s.posted.length, u)], dispatcher := next }

/-- `malloc` has a block for each copy; `VenusProcess` is the process in which it may fail. -/
def dispatcherStep (codes : VenusCodes) (buf : ℕ) (s : Venus) (a : DispatcherAct) :
    Option Venus :=
  match a, s.dispatcher with
  | .ioctl mem consumed, .inIoctl =>
    if consumed ≤ bufSize then
      some { s with mem := mem, stop := buf + consumed, dispatcher := .scanning buf }
    else none
  | .ioctlFails, .inIoctl => some { s with dispatcher := .returned }
  | .turn, .scanning ptr =>
    if ptr < s.stop then
      let u : Upcall := ⟨s.mem, ptr⟩
      if u.next > s.stop then some { s with dispatcher := .returned }
      else
        match findWorker codes u with
        | none => some (s.accept u (.scanning u.next))
        | some w => some (s.accept u (.posting .locking ptr w))
    else some { s with dispatcher := .inIoctl }
  | .lock, .posting .locking ptr w =>
    ((s.cells w).monitor.lock .dispatcher).map (fun m =>
      s.post (.posting .storing ptr w) w { s.cells w with monitor := m })
  | .store, .posting .storing ptr w =>
    let arg : Work := (s.lastNumber, (Upcall.mk s.mem ptr).copy)
    some (s.post (.posting .signalling ptr w) w
      { s.cells w with mailbox := (s.cells w).mailbox.put arg })
  | .signal pick, .posting .signalling ptr w =>
    ((s.cells w).monitor.signal pick).map (fun m =>
      s.post (.posting .unlocking ptr w) w { s.cells w with monitor := m })
  | .unlock, .posting .unlocking ptr w =>
    ((s.cells w).monitor.unlock .dispatcher).map (fun m =>
      s.post (.scanning (Upcall.mk s.mem ptr).next) w { s.cells w with monitor := m })
  | _, _ => none

end Venus

inductive VenusAct
  | dispatcher (a : DispatcherAct)
  | worker (w : Fin workerNum) (a : WorkerAct)

def Venus.step (codes : VenusCodes) (buf : ℕ) (s : Venus) : VenusAct → Option Venus
  | .dispatcher a => s.dispatcherStep codes buf a
  | .worker w a => ((s.cells w).workerStep a).map (s.setCell w)

/-- A worker as `init_workers` makes it. -/
def Cell.idle : Cell := ⟨.free, .empty, .locking⟩

/-- Venus before the first `ioctl`; the buffer of the dispatcher holds `junk`. -/
def venusMachine (codes : VenusCodes) (buf : ℕ) (junk : Memory) : Machine Venus VenusAct where
  start := ⟨junk, buf, .inIoctl, fun _ => .idle, []⟩
  step := Venus.step codes buf

/-- What an action of a worker does to its cell, and when. -/
def WorkerTurn (c c' : Cell) : WorkerAct → Prop
  | .lock => c.phase = .locking ∧ c.monitor.owner = none ∧
      c' = { c with monitor := ⟨some .worker, c.monitor.asleep⟩, phase := .testing }
  | .test => c.phase = .testing ∧
      c' = { c with phase := if c.mailbox.slot.isSome then .taking else .waiting }
  | .wait => c.phase = .waiting ∧ c.monitor.owner = some .worker ∧
      c' = { c with monitor := ⟨none, .worker :: c.monitor.asleep⟩, phase := .inWait }
  | .wake => c.phase = .inWait ∧ .worker ∈ c.monitor.asleep ∧
      c' = { c with monitor := ⟨c.monitor.owner, c.monitor.asleep.erase .worker⟩ }
  | .relock => c.phase = .inWait ∧ .worker ∉ c.monitor.asleep ∧ c.monitor.owner = none ∧
      c' = { c with monitor := ⟨some .worker, c.monitor.asleep⟩, phase := .testing }
  | .take => c.phase = .taking ∧ ∃ u mailbox, c.mailbox.take = some (u, mailbox) ∧
      c' = { c with mailbox := mailbox, phase := .leaving u }
  | .unlock => ∃ u, c.phase = .leaving u ∧ c.monitor.owner = some .worker ∧
      c' = { c with monitor := ⟨none, c.monitor.asleep⟩, phase := .handling u false }
  | .downcall => ∃ u, c.phase = .handling u false ∧ c' = { c with phase := .handling u true }
  | .ret r => ∃ u sent, c.phase = .handling u sent ∧
      c' = { c with phase := if r = 0 then .locking else .exited }

lemma workerStep_turn {c c' : Cell} {a : WorkerAct} (h : c.workerStep a = some c') :
    WorkerTurn c c' a := by
  unfold Cell.workerStep at h
  split at h
  · rename_i hphase
    obtain ⟨m, hm, rfl⟩ := Option.map_eq_some_iff.mp h
    obtain ⟨hfree, rfl⟩ := Monitor.lock_eq_some_iff.mp hm
    exact ⟨hphase, hfree, rfl⟩
  · rename_i hphase
    exact ⟨hphase, (Option.some.inj h).symm⟩
  · rename_i hphase
    obtain ⟨m, hm, rfl⟩ := Option.map_eq_some_iff.mp h
    obtain ⟨howner, rfl⟩ := Monitor.wait_eq_some_iff.mp hm
    exact ⟨hphase, howner, rfl⟩
  · rename_i hphase
    obtain ⟨m, hm, rfl⟩ := Option.map_eq_some_iff.mp h
    obtain ⟨hsleep, rfl⟩ := Monitor.wake_eq_some_iff.mp hm
    exact ⟨hphase, hsleep, rfl⟩
  · rename_i hphase
    split at h
    · cases h
    · rename_i hawake
      obtain ⟨m, hm, rfl⟩ := Option.map_eq_some_iff.mp h
      obtain ⟨hfree, rfl⟩ := Monitor.lock_eq_some_iff.mp hm
      exact ⟨hphase, hawake, hfree, rfl⟩
  · rename_i hphase
    obtain ⟨⟨u, mailbox⟩, hu, rfl⟩ := Option.map_eq_some_iff.mp h
    exact ⟨hphase, u, mailbox, hu, rfl⟩
  · rename_i u hphase
    obtain ⟨m, hm, rfl⟩ := Option.map_eq_some_iff.mp h
    obtain ⟨howner, rfl⟩ := Monitor.unlock_eq_some_iff.mp hm
    exact ⟨u, hphase, howner, rfl⟩
  · rename_i u hphase
    exact ⟨u, hphase, (Option.some.inj h).symm⟩
  · rename_i u sent hphase
    exact ⟨u, sent, hphase, (Option.some.inj h).symm⟩
  · cases h

/-- Only taking the upcall out touches the mailbox. -/
lemma WorkerTurn.mailbox {c c' : Cell} {a : WorkerAct} (ht : WorkerTurn c c' a) :
    c'.mailbox = c.mailbox ∨ ∃ u, c.mailbox.take = some (u, c'.mailbox) := by
  cases a with
  | take =>
    obtain ⟨-, u, mailbox, htake, rfl⟩ := ht
    exact .inr ⟨u, htake⟩
  | lock | wait | wake =>
    obtain ⟨-, -, rfl⟩ := ht
    exact .inl rfl
  | test =>
    obtain ⟨-, rfl⟩ := ht
    exact .inl rfl
  | relock =>
    obtain ⟨-, -, -, rfl⟩ := ht
    exact .inl rfl
  | unlock =>
    obtain ⟨u, -, -, rfl⟩ := ht
    exact .inl rfl
  | downcall =>
    obtain ⟨u, -, rfl⟩ := ht
    exact .inl rfl
  | ret r =>
    obtain ⟨u, sent, -, rfl⟩ := ht
    exact .inl rfl

def DispatcherTurn (codes : VenusCodes) (buf : ℕ) (s s' : Venus) : DispatcherAct → Prop
  | .ioctl mem consumed => s.dispatcher = .inIoctl ∧ consumed ≤ bufSize ∧
      s' = { s with mem := mem, stop := buf + consumed, dispatcher := .scanning buf }
  | .ioctlFails => s.dispatcher = .inIoctl ∧ s' = { s with dispatcher := .returned }
  | .turn => ∃ ptr, s.dispatcher = .scanning ptr ∧
      (s.stop ≤ ptr ∧ s' = { s with dispatcher := .inIoctl } ∨
        ptr < s.stop ∧ (Upcall.mk s.mem ptr).next > s.stop ∧
          s' = { s with dispatcher := .returned } ∨
        ptr < s.stop ∧ (Upcall.mk s.mem ptr).next ≤ s.stop ∧
          (findWorker codes ⟨s.mem, ptr⟩ = none ∧
              s' = s.accept ⟨s.mem, ptr⟩ (.scanning (Upcall.mk s.mem ptr).next) ∨
            ∃ w, findWorker codes ⟨s.mem, ptr⟩ = some w ∧
              s' = s.accept ⟨s.mem, ptr⟩ (.posting .locking ptr w)))
  | .lock => ∃ ptr w, s.dispatcher = .posting .locking ptr w ∧
      (s.cells w).monitor.owner = none ∧
      s' = s.post (.posting .storing ptr w) w
        { s.cells w with monitor := ⟨some .dispatcher, (s.cells w).monitor.asleep⟩ }
  | .store => ∃ ptr w, s.dispatcher = .posting .storing ptr w ∧
      s' = s.post (.posting .signalling ptr w) w { s.cells w with
        mailbox := (s.cells w).mailbox.put (s.lastNumber, (Upcall.mk s.mem ptr).copy) }
  | .signal pick => ∃ ptr w, s.dispatcher = .posting .signalling ptr w ∧
      (∀ t, pick = some t → t ∈ (s.cells w).monitor.asleep) ∧
      (pick = none → (s.cells w).monitor.asleep = []) ∧
      s' = s.post (.posting .unlocking ptr w) w { s.cells w with
        monitor := ⟨(s.cells w).monitor.owner, pick.elim (s.cells w).monitor.asleep
          (fun t => (s.cells w).monitor.asleep.erase t)⟩ }
  | .unlock => ∃ ptr w, s.dispatcher = .posting .unlocking ptr w ∧
      (s.cells w).monitor.owner = some .dispatcher ∧
      s' = s.post (.scanning (Upcall.mk s.mem ptr).next) w
        { s.cells w with monitor := ⟨none, (s.cells w).monitor.asleep⟩ }

lemma dispatcherStep_turn {codes : VenusCodes} {buf : ℕ} {s s' : Venus} {a : DispatcherAct}
    (h : s.dispatcherStep codes buf a = some s') : DispatcherTurn codes buf s s' a := by
  unfold Venus.dispatcherStep at h
  split at h
  · rename_i hphase
    split at h
    · rename_i hle
      exact ⟨hphase, hle, (Option.some.inj h).symm⟩
    · cases h
  · rename_i hphase
    exact ⟨hphase, (Option.some.inj h).symm⟩
  · rename_i ptr hphase
    refine ⟨ptr, hphase, ?_⟩
    split at h
    · rename_i hlt
      dsimp only at h
      split at h
      · rename_i hbad
        exact .inr (.inl ⟨hlt, hbad, (Option.some.inj h).symm⟩)
      · rename_i hgood
        refine .inr (.inr ⟨hlt, not_lt.mp hgood, ?_⟩)
        split at h
        · rename_i hnone
          exact .inl ⟨hnone, (Option.some.inj h).symm⟩
        · rename_i w hw
          exact .inr ⟨w, hw, (Option.some.inj h).symm⟩
    · rename_i hge
      exact .inl ⟨not_lt.mp hge, (Option.some.inj h).symm⟩
  · rename_i ptr w hphase
    obtain ⟨m, hm, rfl⟩ := Option.map_eq_some_iff.mp h
    obtain ⟨hfree, rfl⟩ := Monitor.lock_eq_some_iff.mp hm
    exact ⟨ptr, w, hphase, hfree, rfl⟩
  · rename_i ptr w hphase
    exact ⟨ptr, w, hphase, (Option.some.inj h).symm⟩
  · rename_i pick ptr w hphase
    obtain ⟨m, hm, rfl⟩ := Option.map_eq_some_iff.mp h
    obtain ⟨hpick, hnone, rfl⟩ := Monitor.signal_eq_some_iff.mp hm
    exact ⟨ptr, w, hphase, hpick, hnone, rfl⟩
  · rename_i ptr w hphase
    obtain ⟨m, hm, rfl⟩ := Option.map_eq_some_iff.mp h
    obtain ⟨howner, rfl⟩ := Monitor.unlock_eq_some_iff.mp hm
    exact ⟨ptr, w, hphase, howner, rfl⟩
  · cases h

end ExpressOS
