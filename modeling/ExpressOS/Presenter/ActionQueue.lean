import ExpressOS.Presenter.Slides
import ExpressOS.Systems.Machine
import ExpressOS.Systems.Monitor

/-!
# The action queue

`signalAction` and the loop of `runPresentation` as one machine. `mAction` holds at most one action,
and one condition variable serves both sides: the callers wait there for `mAction` to become
`NO_OP`, and `runPresentation` waits for it to become an action. A step is one action of one thread
on what the threads share.
-/

namespace ExpressOS
open Systems

inductive Thread (P : Type)
  | runner
  | caller (p : P)
  deriving DecidableEq

/-- What `signalAction` does not return from at once. -/
abbrev SlideAction := { a : Action // a ≠ .noOp }

inductive RunnerPhase
  | locking
  -- holds the mutex, before the test of `while (mAction == NO_OP)`
  | testing
  | waiting
  -- inside `pthread_cond_wait`
  | inWait
  -- before the switch, before `mAction = NO_OP`, and before the mutex is released
  | executing
  | clearing
  | unlocking
  deriving DecidableEq

def RunnerPhase.holds : RunnerPhase → Prop
  | .testing | .waiting | .executing | .clearing | .unlocking => True
  | .locking | .inWait => False

inductive CallerPhase
  | idle
  | locking (a : SlideAction)
  -- holds the mutex, before the test of `while (mAction != NO_OP)`
  | testing (a : SlideAction)
  | waiting (a : SlideAction)
  | inWait (a : SlideAction)
  -- before `mAction = action`, before the signal, and before the mutex is released
  | storing (a : SlideAction)
  | signalling
  | unlocking
  deriving DecidableEq

def CallerPhase.holds : CallerPhase → Prop
  | .testing _ | .waiting _ | .storing _ | .signalling | .unlocking => True
  | .idle | .locking _ | .inWait _ => False

inductive RunnerAct
  | lock
  | test
  | wait
  -- woken for no reason
  | wake
  -- takes the mutex again inside `pthread_cond_wait`
  | relock
  -- the archive as it is read then
  | execute (slides : SlideArchive)
  | clear
  | unlock

inductive CallerAct (P : Type)
  | call (a : Action)
  | lock
  | test
  | wait
  | wake
  | relock
  | store
  | signal (pick : Option (Thread P))
  | unlock

/-- `mCondMutex` with `mCond`, `mAction`, the slides, the threads, and the history: the actions that
`signalAction` has stored, and those that the switch of `runPresentation` has executed. -/
structure ActionQueue (P : Type) where
  monitor : Monitor (Thread P)
  action : Action
  presenter : Presenter
  runner : RunnerPhase
  callers : P → CallerPhase
  stored : List SlideAction
  executed : List (SlideArchive × Action)

inductive QueueAct (P : Type)
  | runner (a : RunnerAct)
  | caller (p : P) (a : CallerAct P)

namespace ActionQueue

variable {P : Type} [DecidableEq P]

/-- A caller moves on with the monitor as it is then. -/
def setCaller (s : ActionQueue P) (p : P) (phase : CallerPhase) (m : Monitor (Thread P)) :
    ActionQueue P :=
  { s with monitor := m, callers := Function.update s.callers p phase }

@[simp] lemma setCaller_callers_self (s : ActionQueue P) (p : P) (phase : CallerPhase)
    (m : Monitor (Thread P)) : (s.setCaller p phase m).callers p = phase := Function.update_self ..

lemma setCaller_callers_of_ne (s : ActionQueue P) {p p' : P} (phase : CallerPhase)
    (m : Monitor (Thread P)) (h : p' ≠ p) : (s.setCaller p phase m).callers p' = s.callers p' :=
  Function.update_of_ne h ..

def runnerStep (s : ActionQueue P) (a : RunnerAct) : Option (ActionQueue P) :=
  match a, s.runner with
  | .lock, .locking =>
    (s.monitor.lock .runner).map (fun m => { s with monitor := m, runner := .testing })
  | .test, .testing =>
    some { s with runner := if s.action = .noOp then .waiting else .executing }
  | .wait, .waiting =>
    (s.monitor.wait .runner).map (fun m => { s with monitor := m, runner := .inWait })
  | .wake, .inWait => (s.monitor.wake .runner).map (fun m => { s with monitor := m })
  | .relock, .inWait =>
    if .runner ∈ s.monitor.asleep then none
    else (s.monitor.lock .runner).map (fun m => { s with monitor := m, runner := .testing })
  | .execute slides, .executing =>
    some { s with
      presenter := s.presenter.execute slides s.action
      runner := .clearing
      executed := s.executed ++ [(slides, s.action)] }
  -- nobody is signalled here
  | .clear, .clearing => some { s with action := .noOp, runner := .unlocking }
  | .unlock, .unlocking =>
    (s.monitor.unlock .runner).map (fun m => { s with monitor := m, runner := .locking })
  | _, _ => none

def callerStep (s : ActionQueue P) (p : P) (a : CallerAct P) : Option (ActionQueue P) :=
  match a, s.callers p with
  | .call a, .idle =>
    some (s.setCaller p (if h : a = .noOp then .idle else .locking ⟨a, h⟩) s.monitor)
  | .lock, .locking a => (s.monitor.lock (.caller p)).map (s.setCaller p (.testing a))
  | .test, .testing a =>
    some (s.setCaller p (if s.action = .noOp then .storing a else .waiting a) s.monitor)
  | .wait, .waiting a => (s.monitor.wait (.caller p)).map (s.setCaller p (.inWait a))
  | .wake, .inWait a => (s.monitor.wake (.caller p)).map (s.setCaller p (.inWait a))
  | .relock, .inWait a =>
    if .caller p ∈ s.monitor.asleep then none
    else (s.monitor.lock (.caller p)).map (s.setCaller p (.testing a))
  | .store, .storing a =>
    some { s.setCaller p .signalling s.monitor with
      action := a
      stored := s.stored ++ [a] }
  | .signal pick, .signalling => (s.monitor.signal pick).map (s.setCaller p .unlocking)
  | .unlock, .unlocking => (s.monitor.unlock (.caller p)).map (s.setCaller p .idle)
  | _, _ => none

def step (s : ActionQueue P) : QueueAct P → Option (ActionQueue P)
  | .runner a => s.runnerStep a
  | .caller p a => s.callerStep p a

/-- The queue when `runPresentation` has shown the first slide. -/
def init (presenter : Presenter) : ActionQueue P :=
  ⟨.free, .noOp, presenter, .locking, fun _ => .idle, [], []⟩

def machine (presenter : Presenter) : Machine (ActionQueue P) (QueueAct P) := ⟨init presenter, step⟩

def Holds (s : ActionQueue P) : Thread P → Prop
  | .runner => s.runner.holds
  | .caller p => (s.callers p).holds

/-- What a step of `runPresentation` does, and when. -/
def RunnerTurn (s s' : ActionQueue P) : RunnerAct → Prop
  | .lock => s.runner = .locking ∧ ∃ m, s.monitor.lock .runner = some m ∧
      s' = { s with monitor := m, runner := .testing }
  | .test => s.runner = .testing ∧
      (s.action = .noOp ∧ s' = { s with runner := .waiting } ∨
        s.action ≠ .noOp ∧ s' = { s with runner := .executing })
  | .wait => s.runner = .waiting ∧ ∃ m, s.monitor.wait .runner = some m ∧
      s' = { s with monitor := m, runner := .inWait }
  | .wake => s.runner = .inWait ∧ ∃ m, s.monitor.wake .runner = some m ∧
      s' = { s with monitor := m }
  | .relock => s.runner = .inWait ∧ .runner ∉ s.monitor.asleep ∧
      ∃ m, s.monitor.lock .runner = some m ∧ s' = { s with monitor := m, runner := .testing }
  | .execute slides => s.runner = .executing ∧
      s' = { s with
        presenter := s.presenter.execute slides s.action
        runner := .clearing
        executed := s.executed ++ [(slides, s.action)] }
  | .clear => s.runner = .clearing ∧ s' = { s with action := .noOp, runner := .unlocking }
  | .unlock => s.runner = .unlocking ∧ ∃ m, s.monitor.unlock .runner = some m ∧
      s' = { s with monitor := m, runner := .locking }

lemma runnerStep_turn {s s' : ActionQueue P} {a : RunnerAct} (h : s.runnerStep a = some s') :
    RunnerTurn s s' a := by
  unfold runnerStep at h
  split at h
  case h_1 hphase | h_3 hphase | h_4 hphase | h_8 hphase =>
    obtain ⟨m, hm, rfl⟩ := Option.map_eq_some_iff.mp h
    exact ⟨hphase, m, hm, rfl⟩
  case h_2 hphase =>
    refine ⟨hphase, ?_⟩
    split_ifs at h with hempty
    · exact .inl ⟨hempty, (Option.some.inj h).symm⟩
    · exact .inr ⟨hempty, (Option.some.inj h).symm⟩
  case h_5 hphase =>
    split_ifs at h with hasleep
    obtain ⟨m, hm, rfl⟩ := Option.map_eq_some_iff.mp h
    exact ⟨hphase, hasleep, m, hm, rfl⟩
  case h_6 hphase | h_7 hphase => exact ⟨hphase, (Option.some.inj h).symm⟩
  case h_9 => cases h

def CallerTurn (s s' : ActionQueue P) (p : P) : CallerAct P → Prop
  | .call a => s.callers p = .idle ∧
      (a = .noOp ∧ s' = s.setCaller p .idle s.monitor ∨
        ∃ h : a ≠ .noOp, s' = s.setCaller p (.locking ⟨a, h⟩) s.monitor)
  | .lock => ∃ a, s.callers p = .locking a ∧ ∃ m, s.monitor.lock (.caller p) = some m ∧
      s' = s.setCaller p (.testing a) m
  | .test => ∃ a, s.callers p = .testing a ∧
      (s.action = .noOp ∧ s' = s.setCaller p (.storing a) s.monitor ∨
        s.action ≠ .noOp ∧ s' = s.setCaller p (.waiting a) s.monitor)
  | .wait => ∃ a, s.callers p = .waiting a ∧ ∃ m, s.monitor.wait (.caller p) = some m ∧
      s' = s.setCaller p (.inWait a) m
  | .wake => ∃ a, s.callers p = .inWait a ∧ ∃ m, s.monitor.wake (.caller p) = some m ∧
      s' = s.setCaller p (.inWait a) m
  | .relock => ∃ a, s.callers p = .inWait a ∧ .caller p ∉ s.monitor.asleep ∧
      ∃ m, s.monitor.lock (.caller p) = some m ∧ s' = s.setCaller p (.testing a) m
  | .store => ∃ a : SlideAction, s.callers p = .storing a ∧
      s' = { s.setCaller p .signalling s.monitor with
        action := a
        stored := s.stored ++ [a] }
  | .signal pick => s.callers p = .signalling ∧ ∃ m, s.monitor.signal pick = some m ∧
      s' = s.setCaller p .unlocking m
  | .unlock => s.callers p = .unlocking ∧ ∃ m, s.monitor.unlock (.caller p) = some m ∧
      s' = s.setCaller p .idle m

lemma callerStep_turn {s s' : ActionQueue P} {p : P} {a : CallerAct P}
    (h : s.callerStep p a = some s') : CallerTurn s s' p a := by
  unfold callerStep at h
  split at h
  case h_1 hphase =>
    refine ⟨hphase, ?_⟩
    split_ifs at h with hnoOp
    · exact .inl ⟨hnoOp, (Option.some.inj h).symm⟩
    · exact .inr ⟨hnoOp, (Option.some.inj h).symm⟩
  case h_2 a hphase | h_4 a hphase | h_5 a hphase =>
    obtain ⟨m, hm, rfl⟩ := Option.map_eq_some_iff.mp h
    exact ⟨a, hphase, m, hm, rfl⟩
  case h_3 a hphase =>
    refine ⟨a, hphase, ?_⟩
    split_ifs at h with hempty
    · exact .inl ⟨hempty, (Option.some.inj h).symm⟩
    · exact .inr ⟨hempty, (Option.some.inj h).symm⟩
  case h_6 a hphase =>
    split_ifs at h with hasleep
    obtain ⟨m, hm, rfl⟩ := Option.map_eq_some_iff.mp h
    exact ⟨a, hphase, hasleep, m, hm, rfl⟩
  case h_7 a hphase => exact ⟨a, hphase, (Option.some.inj h).symm⟩
  case h_8 hphase | h_9 hphase =>
    obtain ⟨m, hm, rfl⟩ := Option.map_eq_some_iff.mp h
    exact ⟨hphase, m, hm, rfl⟩
  case h_10 => cases h

end ActionQueue

end ExpressOS
