import ExpressOS.Presenter.HandOver

/-!
# Deadlock

`runPresentation` empties `mAction` without a signal, so a caller that has found it full is woken by
nobody. The file is about one caller, which is what `key_handler` is.
-/

namespace ExpressOS
open Systems

/-- A thread leaves its wait for no reason. -/
def QueueAct.Spurious {P : Type} : QueueAct P → Prop
  | .runner .wake | .caller _ .wake => True
  | _ => False

def QueueAct.IsCall {P : Type} : QueueAct P → Prop
  | .caller _ (.call _) => True
  | _ => False

namespace ActionQueue

/-- Both threads are blocked in `pthread_cond_wait`, and nobody has woken them. -/
def Deadlocked (s : ActionQueue Unit) : Prop :=
  .runner ∈ s.monitor.asleep ∧ .caller () ∈ s.monitor.asleep

/-- When `signalAction` tests `mAction`, it is `NO_OP`. -/
def FindsEmpty (s : ActionQueue Unit) : QueueAct Unit → Prop
  | .caller _ .test => s.action = .noOp
  | _ => True

instance (s : ActionQueue Unit) (l : QueueAct Unit) : Decidable (s.FindsEmpty l) := by
  unfold FindsEmpty
  split <;> infer_instance

variable {first : Presenter} {s s' : ActionQueue Unit} {m : Monitor (Thread Unit)}

/-- The caller is not blocked, and not about to be. -/
def CallerAwake (s : ActionQueue Unit) : Prop :=
  .caller () ∉ s.monitor.asleep ∧ ∀ a, s.callers () ≠ .waiting a

lemma callerAwake_runner {a : RunnerAct} (h : s.CallerAwake) (ht : RunnerTurn s s' a) :
    s'.CallerAwake := by
  cases a with
  | lock =>
    obtain ⟨-, m, hm, rfl⟩ := ht
    obtain ⟨-, rfl⟩ := Monitor.lock_eq_some_iff.mp hm
    exact h
  | test =>
    obtain ⟨-, ⟨-, rfl⟩ | ⟨-, rfl⟩⟩ := ht <;> exact h
  | wait =>
    obtain ⟨-, m, hm, rfl⟩ := ht
    obtain ⟨-, rfl⟩ := Monitor.wait_eq_some_iff.mp hm
    exact ⟨by simpa using h.1, h.2⟩
  | wake =>
    obtain ⟨-, m, hm, rfl⟩ := ht
    obtain ⟨-, rfl⟩ := Monitor.wake_eq_some_iff.mp hm
    exact ⟨fun hin => h.1 (List.mem_of_mem_erase hin), h.2⟩
  | relock =>
    obtain ⟨-, -, m, hm, rfl⟩ := ht
    obtain ⟨-, rfl⟩ := Monitor.lock_eq_some_iff.mp hm
    exact h
  | execute | clear =>
    obtain ⟨-, rfl⟩ := ht
    exact h
  | unlock =>
    obtain ⟨-, m, hm, rfl⟩ := ht
    obtain ⟨-, rfl⟩ := Monitor.unlock_eq_some_iff.mp hm
    exact h

lemma callerAwake_setCaller {phase : CallerPhase} (h : s.CallerAwake)
    (hasleep : ∀ t ∈ m.asleep, t ∈ s.monitor.asleep) (hphase : ∀ a, phase ≠ .waiting a) :
    (s.setCaller () phase m).CallerAwake := by
  refine ⟨fun hin => h.1 (hasleep _ hin), fun a => ?_⟩
  rw [setCaller_callers_self]
  exact hphase a

/-- Only a test that finds `mAction` full sends the caller to sleep. -/
lemma callerAwake_caller {a : CallerAct Unit} (h : s.CallerAwake)
    (hempty : s.FindsEmpty (.caller () a)) (ht : CallerTurn s s' () a) : s'.CallerAwake := by
  cases a with
  | call a =>
    obtain ⟨-, ⟨-, rfl⟩ | ⟨-, rfl⟩⟩ := ht <;>
      exact callerAwake_setCaller h (fun _ => id) nofun
  | lock =>
    obtain ⟨a, -, m, hm, rfl⟩ := ht
    obtain ⟨-, rfl⟩ := Monitor.lock_eq_some_iff.mp hm
    exact callerAwake_setCaller h (fun _ => id) nofun
  | test =>
    obtain ⟨a, -, ⟨-, rfl⟩ | ⟨hfull, -⟩⟩ := ht
    · exact callerAwake_setCaller h (fun _ => id) nofun
    · exact absurd hempty hfull
  | wait =>
    obtain ⟨a, hphase, -⟩ := ht
    exact absurd hphase (h.2 a)
  | wake =>
    obtain ⟨a, -, m, hm, rfl⟩ := ht
    obtain ⟨-, rfl⟩ := Monitor.wake_eq_some_iff.mp hm
    exact callerAwake_setCaller h (fun _ => List.mem_of_mem_erase) nofun
  | relock =>
    obtain ⟨a, -, -, m, hm, rfl⟩ := ht
    obtain ⟨-, rfl⟩ := Monitor.lock_eq_some_iff.mp hm
    exact callerAwake_setCaller h (fun _ => id) nofun
  | store =>
    obtain ⟨a, -, rfl⟩ := ht
    exact @callerAwake_setCaller s s.monitor .signalling h (fun _ => id) nofun
  | signal pick =>
    obtain ⟨-, m, hm, rfl⟩ := ht
    obtain ⟨-, -, rfl⟩ := Monitor.signal_eq_some_iff.mp hm
    refine callerAwake_setCaller h (fun t ht => ?_) nofun
    cases pick with
    | none => exact ht
    | some t' => exact List.mem_of_mem_erase ht
  | unlock =>
    obtain ⟨-, m, hm, rfl⟩ := ht
    obtain ⟨-, rfl⟩ := Monitor.unlock_eq_some_iff.mp hm
    exact callerAwake_setCaller h (fun _ => id) nofun

lemma callerAwake_step {l : QueueAct Unit} (h : s.CallerAwake) (hempty : s.FindsEmpty l)
    (hstep : step s l = some s') : s'.CallerAwake := by
  cases l with
  | runner a => exact callerAwake_runner h (runnerStep_turn hstep)
  | caller p a => exact callerAwake_caller h hempty (callerStep_turn hstep)

/-- Who sleeps is in `pthread_cond_wait`, and `runPresentation` is woken for the action that has
been stored. -/
structure SleepInv (s : ActionQueue Unit) : Prop where
  nodup : s.monitor.asleep.Nodup
  runner_asleep : .runner ∈ s.monitor.asleep → s.runner = .inWait
  caller_asleep : .caller () ∈ s.monitor.asleep → ∃ a, s.callers () = .inWait a
  waiting : s.runner = .waiting → s.action = .noOp
  signalled : .runner ∈ s.monitor.asleep → s.action = .noOp ∨ s.callers () = .signalling

namespace SleepInv

/-- A step of `runPresentation` when it is awake, and does not go to sleep. -/
lemma runner_awake (h : s.SleepInv) (hasleep : s'.monitor.asleep = s.monitor.asleep)
    (hcallers : s'.callers = s.callers) (hawake : .runner ∉ s.monitor.asleep)
    (hwaiting : s'.runner = .waiting → s'.action = .noOp) : s'.SleepInv := by
  refine ⟨?_, ?_, ?_, hwaiting, ?_⟩
  · rw [hasleep]
    exact h.nodup
  · rw [hasleep]
    exact fun hin => absurd hin hawake
  · rw [hasleep, hcallers]
    exact h.caller_asleep
  · rw [hasleep]
    exact fun hin => absurd hin hawake

lemma runner_not_asleep (h : s.SleepInv) {r : RunnerPhase} (hphase : s.runner = r)
    (hr : r ≠ .inWait) : .runner ∉ s.monitor.asleep :=
  fun hin => hr (hphase.symm.trans (h.runner_asleep hin))

lemma caller_not_asleep (h : s.SleepInv) {phase : CallerPhase} (hphase : s.callers () = phase)
    (hwait : ∀ a, phase ≠ .inWait a) : .caller () ∉ s.monitor.asleep := by
  intro hin
  obtain ⟨a, ha⟩ := h.caller_asleep hin
  exact hwait a (hphase.symm.trans ha)

lemma runner {a : RunnerAct} (h : s.SleepInv) (ht : RunnerTurn s s' a) : s'.SleepInv := by
  cases a with
  | lock =>
    obtain ⟨hphase, m, hm, rfl⟩ := ht
    obtain ⟨-, rfl⟩ := Monitor.lock_eq_some_iff.mp hm
    exact h.runner_awake rfl rfl (h.runner_not_asleep hphase nofun) nofun
  | test =>
    obtain ⟨hphase, ⟨hempty, rfl⟩ | ⟨-, rfl⟩⟩ := ht
    · exact h.runner_awake rfl rfl (h.runner_not_asleep hphase nofun) (fun _ => hempty)
    · exact h.runner_awake rfl rfl (h.runner_not_asleep hphase nofun) nofun
  | wait =>
    obtain ⟨hphase, m, hm, rfl⟩ := ht
    obtain ⟨-, rfl⟩ := Monitor.wait_eq_some_iff.mp hm
    have hawake := h.runner_not_asleep hphase nofun
    refine ⟨h.nodup.cons hawake, fun _ => rfl, fun hin => ?_, nofun,
      fun _ => .inl (h.waiting hphase)⟩
    have hne : (.caller () : Thread Unit) ≠ .runner := nofun
    exact h.caller_asleep (List.mem_of_ne_of_mem hne hin)
  | wake =>
    obtain ⟨hphase, m, hm, rfl⟩ := ht
    obtain ⟨-, rfl⟩ := Monitor.wake_eq_some_iff.mp hm
    have hawake : .runner ∉ s.monitor.asleep.erase .runner := h.nodup.not_mem_erase
    exact ⟨h.nodup.erase _, fun _ => hphase,
      fun hin => h.caller_asleep (List.mem_of_mem_erase hin), h.waiting,
      fun hin => absurd hin hawake⟩
  | relock =>
    obtain ⟨-, hawake, m, hm, rfl⟩ := ht
    obtain ⟨-, rfl⟩ := Monitor.lock_eq_some_iff.mp hm
    exact h.runner_awake rfl rfl hawake nofun
  | execute | clear =>
    obtain ⟨hphase, rfl⟩ := ht
    exact h.runner_awake rfl rfl (h.runner_not_asleep hphase nofun) nofun
  | unlock =>
    obtain ⟨hphase, m, hm, rfl⟩ := ht
    obtain ⟨-, rfl⟩ := Monitor.unlock_eq_some_iff.mp hm
    exact h.runner_awake rfl rfl (h.runner_not_asleep hphase nofun) nofun

/-- A step of the caller when it is awake, does not go to sleep and does not signal. -/
lemma caller_awake {phase : CallerPhase} (h : s.SleepInv) (hasleep : m.asleep = s.monitor.asleep)
    (hawake : .caller () ∉ s.monitor.asleep) (hphase : s.callers () ≠ .signalling) :
    (s.setCaller () phase m).SleepInv := by
  change SleepInv { s with monitor := m, callers := _ }
  refine ⟨?_, ?_, ?_, h.waiting, ?_⟩ <;> dsimp only <;> rw [hasleep]
  · exact h.nodup
  · exact h.runner_asleep
  · exact fun hin => absurd hin hawake
  · exact fun hin => .inl ((h.signalled hin).resolve_right hphase)

lemma store (h : s.SleepInv) (hinv : HandOverInv first s) {a : SlideAction}
    (hphase : s.callers () = .storing a) :
    SleepInv { s.setCaller () .signalling s.monitor with
      action := a
      stored := s.stored ++ [a] } := by
  refine ⟨h.nodup, h.runner_asleep, fun hin => ?_, fun hwaiting => ?_, fun _ => .inr rfl⟩
  · exact absurd hin (h.caller_not_asleep hphase nofun)
  · have hrunner : s.Holds .runner := by
      change s.runner.holds
      rw [show s.runner = .waiting from hwaiting]
      trivial
    have hcaller : s.Holds (.caller ()) := by
      change (s.callers ()).holds
      rw [hphase]
      trivial
    cases hinv.guards.eq hrunner hcaller

/-- The one thread that can sleep while the caller signals is woken. -/
lemma signal (h : s.SleepInv) (hphase : s.callers () = .signalling) {pick : Option (Thread Unit)}
    (hpick : ∀ t, pick = some t → t ∈ s.monitor.asleep)
    (hnone : pick = none → s.monitor.asleep = []) :
    SleepInv (s.setCaller () .unlocking
      ⟨s.monitor.owner, pick.elim s.monitor.asleep (fun t => s.monitor.asleep.erase t)⟩) := by
  have hcaller := h.caller_not_asleep hphase nofun
  cases pick with
  | none =>
    have hnil := hnone rfl
    refine ⟨h.nodup, h.runner_asleep, fun hin => absurd hin hcaller, h.waiting, fun hin => ?_⟩
    change _ ∈ s.monitor.asleep at hin
    rw [hnil] at hin
    cases hin
  | some t =>
    have ht := hpick t rfl
    cases t with
    | caller p => exact absurd ht hcaller
    | runner =>
      have hawake : .runner ∉ s.monitor.asleep.erase .runner := h.nodup.not_mem_erase
      exact ⟨h.nodup.erase _, fun hin => absurd hin hawake,
        fun hin => absurd (List.mem_of_mem_erase hin) hcaller, h.waiting,
        fun hin => absurd hin hawake⟩

lemma caller {a : CallerAct Unit} (h : s.SleepInv) (hinv : HandOverInv first s)
    (ht : CallerTurn s s' () a) : s'.SleepInv := by
  cases a with
  | call a =>
    obtain ⟨hphase, ⟨-, rfl⟩ | ⟨-, rfl⟩⟩ := ht <;>
      exact h.caller_awake rfl (h.caller_not_asleep hphase nofun) (hphase.trans_ne nofun)
  | lock =>
    obtain ⟨a, hphase, m, hm, rfl⟩ := ht
    obtain ⟨-, rfl⟩ := Monitor.lock_eq_some_iff.mp hm
    exact h.caller_awake rfl (h.caller_not_asleep hphase nofun) (hphase.trans_ne nofun)
  | test =>
    obtain ⟨a, hphase, ⟨-, rfl⟩ | ⟨-, rfl⟩⟩ := ht <;>
      exact h.caller_awake rfl (h.caller_not_asleep hphase nofun) (hphase.trans_ne nofun)
  | wait =>
    obtain ⟨a, hphase, m, hm, rfl⟩ := ht
    obtain ⟨-, rfl⟩ := Monitor.wait_eq_some_iff.mp hm
    have hawake := h.caller_not_asleep hphase nofun
    have hne : (.runner : Thread Unit) ≠ .caller () := nofun
    refine ⟨h.nodup.cons hawake, fun hin => ?_, fun _ => ⟨a, rfl⟩, h.waiting, fun hin => ?_⟩
    · exact h.runner_asleep (List.mem_of_ne_of_mem hne hin)
    · have hempty := h.signalled (List.mem_of_ne_of_mem hne hin)
      exact .inl (hempty.resolve_right (hphase.trans_ne nofun))
  | wake =>
    obtain ⟨a, hphase, m, hm, rfl⟩ := ht
    obtain ⟨-, rfl⟩ := Monitor.wake_eq_some_iff.mp hm
    refine ⟨h.nodup.erase _, fun hin => h.runner_asleep (List.mem_of_mem_erase hin),
      fun _ => ⟨a, rfl⟩, h.waiting, fun hin => ?_⟩
    have hempty := h.signalled (List.mem_of_mem_erase hin)
    exact .inl (hempty.resolve_right (hphase.trans_ne nofun))
  | relock =>
    obtain ⟨a, hphase, hawake, m, hm, rfl⟩ := ht
    obtain ⟨-, rfl⟩ := Monitor.lock_eq_some_iff.mp hm
    exact h.caller_awake rfl hawake (hphase.trans_ne nofun)
  | store =>
    obtain ⟨a, hphase, rfl⟩ := ht
    exact h.store hinv hphase
  | signal pick =>
    obtain ⟨hphase, m, hm, rfl⟩ := ht
    obtain ⟨hpick, hnone, rfl⟩ := Monitor.signal_eq_some_iff.mp hm
    exact h.signal hphase hpick hnone
  | unlock =>
    obtain ⟨hphase, m, hm, rfl⟩ := ht
    obtain ⟨-, rfl⟩ := Monitor.unlock_eq_some_iff.mp hm
    exact h.caller_awake rfl (h.caller_not_asleep hphase nofun) (hphase.trans_ne nofun)

end SleepInv

lemma sleepInv_of_reaches {ls : List (QueueAct Unit)} (h : (machine first).Reaches ls s) :
    s.SleepInv := by
  have hboth : HandOverInv first s ∧ s.SleepInv := by
    refine (machine first).invariant (I := fun s => HandOverInv first s ∧ s.SleepInv) ?_ ?_ h
    · exact ⟨handOverInv_init first, List.nodup_nil, nofun, nofun, nofun, nofun⟩
    · rintro s l s' ⟨hinv, hs⟩ hstep
      refine ⟨hinv.step hstep, ?_⟩
      cases l with
      | runner a => exact hs.runner (runnerStep_turn hstep)
      | caller p a => exact hs.caller hinv (callerStep_turn hstep)
  exact hboth.2

/-- What `runPresentation` does from the test on when `mAction` is full and nobody else moves: it
executes the action, and sleeps at the next turn of its loop. -/
def toSleep (slides : SlideArchive) : List (QueueAct Unit) :=
  [.runner .test, .runner (.execute slides), .runner .clear, .runner .unlock, .runner .lock,
    .runner .test, .runner .wait]

lemma toSleep_ordinary (slides : SlideArchive) :
    ∀ l ∈ toSleep slides, ¬ l.Spurious ∧ ¬ l.IsCall := by
  simp [toSleep, QueueAct.Spurious, QueueAct.IsCall]

lemma run_toSleep (slides : SlideArchive) (howner : s.monitor.owner = some .runner)
    (hphase : s.runner = .testing) (hfull : s.action ≠ .noOp) :
    ∃ s', (machine first).run s (toSleep slides) = some s' ∧
      s'.monitor.asleep = .runner :: s.monitor.asleep := by
  obtain ⟨⟨owner, asleep⟩, action, presenter, runner, callers, stored, executed⟩ := s
  obtain rfl : owner = some .runner := howner
  obtain rfl : runner = .testing := hphase
  change action ≠ .noOp at hfull
  simp [Machine.run, machine, toSleep, step, runnerStep, hfull, Monitor.unlock, Monitor.lock,
    Monitor.wait]

/-- A caller that has found `mAction` full can only be followed by a deadlock when nobody is woken
for no reason and there is no other call. -/
lemma deadlock_of_full (slides : SlideArchive) (hinv : HandOverInv first s) (h : s.SleepInv)
    {a : SlideAction} (hphase : s.callers () = .testing a) (hfull : s.action ≠ .noOp) :
    ∃ ls s'', (∀ l ∈ ls, ¬ l.Spurious ∧ ¬ l.IsCall) ∧
      (machine first).run (s.setCaller () (.waiting a) s.monitor) ls = some s'' ∧
        s''.Deadlocked := by
  have hcaller : s.Holds (.caller ()) := by
    change (s.callers ()).holds
    rw [hphase]
    trivial
  have howner := (hinv.guards (.caller ())).mp hcaller
  have hawake : .runner ∉ s.monitor.asleep := by
    intro hin
    obtain hempty | hsignal := h.signalled hin
    · exact hfull hempty
    · rw [hphase] at hsignal
      cases hsignal
  have hrunner : ¬ s.runner.holds := by
    intro hin
    have hin' : s.Holds .runner := hin
    cases hinv.guards.eq hin' hcaller
  -- the caller goes to sleep, and `runPresentation` takes the mutex
  obtain ⟨l, hl, hlock⟩ : ∃ l : QueueAct Unit, (¬ l.Spurious ∧ ¬ l.IsCall) ∧
      (machine first).run (s.setCaller () (.waiting a) s.monitor) [.caller () .wait, l] =
        some { s.setCaller () (.inWait a) ⟨some .runner, .caller () :: s.monitor.asleep⟩ with
          runner := .testing } := by
    cases hphase' : s.runner with
    | locking =>
      refine ⟨.runner .lock, ⟨id, id⟩, ?_⟩
      simp [Machine.run, machine, step, callerStep, runnerStep, setCaller, hphase', Monitor.wait,
        Monitor.lock, howner]
    | inWait =>
      refine ⟨.runner .relock, ⟨id, id⟩, ?_⟩
      simp [Machine.run, machine, step, callerStep, runnerStep, setCaller, hphase', Monitor.wait,
        Monitor.lock, howner, hawake]
    | testing | waiting | executing | clearing | unlocking =>
      rw [hphase'] at hrunner
      exact absurd trivial hrunner
  obtain ⟨s'', hrun, hasleep⟩ := @run_toSleep first
    { s.setCaller () (.inWait a) ⟨some .runner, .caller () :: s.monitor.asleep⟩ with
      runner := .testing } slides rfl rfl hfull
  refine ⟨[.caller () .wait, l] ++ toSleep slides, s'', ?_, ?_, ?_, ?_⟩
  · rw [List.forall_mem_append, List.forall_mem_cons, List.forall_mem_singleton]
    exact ⟨⟨⟨id, id⟩, hl⟩, toSleep_ordinary slides⟩
  · rw [Machine.run_append, hlock]
    exact hrun
  · rw [hasleep]
    exact List.mem_cons_self
  · rw [hasleep]
    exact List.mem_cons_of_mem _ List.mem_cons_self

end ActionQueue

open ActionQueue Presenter

/-- No deadlock is reached in a run in which `signalAction` never finds `mAction` full; and wherever
it does, the run can go on into a deadlock, with no further call and no wake-up for no reason. -/
theorem deadlock_free_of_findsEmpty (first : Presenter) (slides : SlideArchive) :
    (∀ ls, (machine first).Meets FindsEmpty (machine first).start ls →
        (machine first).Along (fun s => ¬ s.Deadlocked) (machine first).start ls) ∧
      ∀ ls s s', (machine first).Reaches ls s → ¬ s.FindsEmpty (.caller () .test) →
        s.step (.caller () .test) = some s' →
        ∃ ls' s'', (∀ l ∈ ls', ¬ l.Spurious ∧ ¬ l.IsCall) ∧
          (machine first).run s' ls' = some s'' ∧ s''.Deadlocked := by
  constructor
  · intro ls hmeets
    have hawake : (machine first).Along CallerAwake (machine first).start ls :=
      Machine.along_of_meets (fun _ _ _ h hempty hstep => callerAwake_step h hempty hstep)
        ⟨List.not_mem_nil, nofun⟩ hmeets
    exact hawake.imp fun s h hdead => h.1 hdead.2
  · intro ls s s' hreach hfull hstep
    obtain ⟨a, hphase, ⟨hempty, -⟩ | ⟨-, rfl⟩⟩ := callerStep_turn hstep
    · exact absurd hempty hfull
    · exact deadlock_of_full slides (handOverInv_of_reaches hreach) (sleepInv_of_reaches hreach)
        hphase hfull

/-- A caller that comes when `runPresentation` sleeps, and comes back when the slide is shown. -/
def keysApart : List (QueueAct Unit) :=
  [.runner .lock, .runner .test, .runner .wait, .caller () (.call .nextSlide), .caller () .lock,
    .caller () .test, .caller () .store, .caller () (.signal (some .runner)), .caller () .unlock,
    .runner .relock] ++ toSleep (sampleArchive [1, 2]) ++
  [.caller () (.call .prevSlide), .caller () .lock, .caller () .test]

theorem keysApart_deadlock_free :
    (machine (begun (sampleArchive [1, 2]) (opened 2 640 480))).Along
        (fun s => ¬ s.Deadlocked)
        (machine (begun (sampleArchive [1, 2]) (opened 2 640 480))).start keysApart :=
  (deadlock_free_of_findsEmpty _ (sampleArchive [1, 2])).1 keysApart (by decide +kernel)

/-- An action, and another one before the first has been executed. -/
def keysInARow : List (QueueAct Unit) :=
  [.caller () (.call .nextSlide), .caller () .lock, .caller () .test, .caller () .store,
    .caller () (.signal none), .caller () .unlock,
    .caller () (.call .nextSlide), .caller () .lock, .caller () .test, .caller () .wait,
    .runner .lock] ++ toSleep (sampleArchive [1, 2])

/-- Two keys in a row, and both threads wait for ever. -/
theorem keysInARow_deadlock :
    let M := machine (begun (sampleArchive [1, 2]) (opened 2 640 480))
    M.Reaches keysInARow (M.after keysInARow) ∧ (∀ l ∈ keysInARow, ¬ l.Spurious) ∧
      (M.after keysInARow).Deadlocked := by
  refine ⟨Machine.reaches_after _ (by decide +kernel), ?_, by decide +kernel, by decide +kernel⟩
  simp [keysInARow, toSleep, QueueAct.Spurious]

end ExpressOS
