import ExpressOS.Binder.Tracer
import ExpressOS.Systems.Machine
import ExpressOS.Systems.Monitor

/-!
# The interceptor

The `ioctl` that `libr2` puts before that of the C library, called by any number of threads. It
looks up the function it hides once, prints what goes to the driver and what comes back, and hands
the call on.
-/

namespace ExpressOS
open Systems

/-- The arguments of `ioctl`; `arg` points to a `struct binder_write_read` if the request says
so. -/
structure IoctlCall where
  fd : ℕ
  request : ℕ
  arg : ℕ
  deriving DecidableEq, Repr

/-- The fields of `struct binder_write_read`. -/
def bwrWriteSize (mem : Memory) (arg : ℕ) : ℕ := mem.word arg
def bwrWriteConsumed (mem : Memory) (arg : ℕ) : ℕ := mem.word (arg + 4)
def bwrWriteBuffer (mem : Memory) (arg : ℕ) : ℕ := mem.word (arg + 8)
def bwrReadConsumed (mem : Memory) (arg : ℕ) : ℕ := mem.word (arg + 16)
def bwrReadBuffer (mem : Memory) (arg : ℕ) : ℕ := mem.word (arg + 20)

/-- What one call of `printf`, of `dump_memory` or for one record of `dump_transaction` prints. -/
inductive Printed
  | opening (tid writeSize writeConsumed : ℕ)
  | closing (tid readConsumed : ℕ)
  | memory (words : List ℕ)
  | record (d : Dump)
  | rule
  deriving DecidableEq, Repr

/-- The number of `BINDER_WRITE_READ` beside those of the commands. -/
structure InterceptorCodes extends TracerCodes where
  bwr : ℕ

/-- With `_IOWR('b', 1, struct binder_write_read)`. -/
def interceptedCodes : InterceptorCodes where
  toTracerCodes := tracedCodes
  bwr := 0xc0186201

/-- What `ioctl` prints before it hands a call on, and after. -/
def textBefore (codes : InterceptorCodes) (mem : Memory) (tid : ℕ) (c : IoctlCall) :
    List Printed :=
  let size := bwrWriteSize mem c.arg
  let buffer := bwrWriteBuffer mem c.arg
  let consumed := bwrWriteConsumed mem c.arg
  [.opening tid size consumed] ++
    (if size ≠ 0 then [.memory (dumpMemory mem buffer size)] else []) ++ [.rule] ++
    (dumpTransaction codes.toTracerCodes mem buffer consumed size).map .record

def textAfter (codes : InterceptorCodes) (mem : Memory) (tid : ℕ) (c : IoctlCall) :
    List Printed :=
  if c.request = codes.bwr then
    let consumed := bwrReadConsumed mem c.arg
    let buffer := bwrReadBuffer mem c.arg
    [.closing tid consumed, .memory (dumpMemory mem buffer consumed)] ++
      (dumpTransaction codes.toTracerCodes mem buffer 0 consumed).map .record ++ [.rule]
  else []

/-- Where a thread stands in `ioctl`. A value is there when the call has been handed on and has
returned. -/
inductive IoctlPhase
  | outside
  | entering (c : IoctlCall)
  -- has won the exchange in `init`, before `dlsym`
  | resolving (c : IoctlCall)
  | spinning (c : IoctlCall)
  | locking (c : IoctlCall) (ret : Option ℤ)
  -- holds the mutex, with `text` still to print
  | printing (c : IoctlCall) (ret : Option ℤ) (text : List Printed)
  | calling (c : IoctlCall)

/-- What can be told of a thread from outside. -/
inductive IoctlEvent
  | called (c : IoctlCall)
  | dumped (text : List Printed)
  | handedOn (c : IoctlCall) (ret : ℤ)
  | returned (ret : ℤ)
  deriving DecidableEq, Repr

/-- `initialized`, whether `old_ioctl` is set, the mutex, the threads by their number, what has
been printed by whom, what the threads have done, and whether the process is gone because a null
pointer has been called. -/
structure Interceptor where
  initialized : Bool
  resolved : Bool
  mutex : Monitor ℕ
  phase : ℕ → IoctlPhase
  output : List (ℕ × Printed)
  trace : List (ℕ × IoctlEvent)
  crashed : Bool

inductive InterceptorAct
  | call (c : IoctlCall)
  | exchange
  | dlsym
  | spin
  -- takes the mutex; the buffers are those of the calling thread, and stay as they are in `mem`
  | lock (mem : Memory)
  | print
  | unlock
  | handOn (ret : ℤ)

namespace Interceptor

def move (s : Interceptor) (t : ℕ) (next : IoctlPhase) (es : List IoctlEvent) : Interceptor :=
  { s with phase := Function.update s.phase t next, trace := s.trace ++ es.map (fun e => (t, e)) }

@[simp] lemma move_phase (s : Interceptor) (t : ℕ) (next : IoctlPhase) (es : List IoctlEvent) :
    (s.move t next es).phase t = next := Function.update_self ..

def step (codes : InterceptorCodes) (s : Interceptor) : ℕ × InterceptorAct → Option Interceptor
  | (t, a) =>
    if s.crashed then none
    else
      match a, s.phase t with
      | .call c, .outside => some (s.move t (.entering c) [.called c])
      | .exchange, .entering c =>
        if s.initialized then some (s.move t (.spinning c) [])
        else some { s.move t (.resolving c) [] with initialized := true }
      | .dlsym, .resolving c => some { s.move t (.spinning c) [] with resolved := true }
      | .spin, .spinning c =>
        if s.initialized then
          some (s.move t (if c.request = codes.bwr then .locking c none else .calling c) [])
        else none
      | .lock mem, .locking c none =>
        let text := textBefore codes mem t c
        (s.mutex.lock t).map (fun m =>
          { s.move t (.printing c none text) [.dumped text] with mutex := m })
      | .lock mem, .locking c (some ret) =>
        let text := textAfter codes mem t c
        (s.mutex.lock t).map (fun m =>
          { s.move t (.printing c (some ret) text)
              (if c.request = codes.bwr then [.dumped text] else []) with mutex := m })
      | .print, .printing c ret (p :: text) =>
        some { s.move t (.printing c ret text) [] with output := s.output ++ [(t, p)] }
      | .unlock, .printing c none [] =>
        (s.mutex.unlock t).map (fun m => { s.move t (.calling c) [] with mutex := m })
      | .unlock, .printing _ (some ret) [] =>
        (s.mutex.unlock t).map (fun m => { s.move t .outside [.returned ret] with mutex := m })
      | .handOn ret, .calling c =>
        if s.resolved then some (s.move t (.locking c (some ret)) [.handedOn c ret])
        else some { s with crashed := true }
      | _, _ => none

end Interceptor

/-- A process whose threads have not called `ioctl` yet. -/
def interceptor (codes : InterceptorCodes) : Machine Interceptor (ℕ × InterceptorAct) where
  start := ⟨false, false, .free, fun _ => .outside, [], [], false⟩
  step := Interceptor.step codes

/-- What an action of a thread does, and when. -/
inductive InterceptorTurn (codes : InterceptorCodes) (s : Interceptor) (t : ℕ) :
    InterceptorAct → Interceptor → Prop
  | call (c : IoctlCall) (hphase : s.phase t = .outside) :
    InterceptorTurn codes s t (.call c) (s.move t (.entering c) [.called c])
  | exchangeLost (c : IoctlCall) (hphase : s.phase t = .entering c) (h : s.initialized = true) :
    InterceptorTurn codes s t .exchange (s.move t (.spinning c) [])
  | exchangeWon (c : IoctlCall) (hphase : s.phase t = .entering c) (h : s.initialized = false) :
    InterceptorTurn codes s t .exchange { s.move t (.resolving c) [] with initialized := true }
  | dlsym (c : IoctlCall) (hphase : s.phase t = .resolving c) :
    InterceptorTurn codes s t .dlsym { s.move t (.spinning c) [] with resolved := true }
  | spin (c : IoctlCall) (hphase : s.phase t = .spinning c) (h : s.initialized = true) :
    InterceptorTurn codes s t .spin
      (s.move t (if c.request = codes.bwr then .locking c none else .calling c) [])
  | lockBefore (c : IoctlCall) (mem : Memory) (m : Monitor ℕ)
    (hphase : s.phase t = .locking c none) (hm : s.mutex.lock t = some m) :
    InterceptorTurn codes s t (.lock mem)
      { s.move t (.printing c none (textBefore codes mem t c))
          [.dumped (textBefore codes mem t c)] with mutex := m }
  | lockAfter (c : IoctlCall) (mem : Memory) (ret : ℤ) (m : Monitor ℕ)
    (hphase : s.phase t = .locking c (some ret)) (hm : s.mutex.lock t = some m) :
    InterceptorTurn codes s t (.lock mem)
      { s.move t (.printing c (some ret) (textAfter codes mem t c))
          (if c.request = codes.bwr then [.dumped (textAfter codes mem t c)] else []) with
        mutex := m }
  | print (c : IoctlCall) (ret : Option ℤ) (p : Printed) (text : List Printed)
    (hphase : s.phase t = .printing c ret (p :: text)) :
    InterceptorTurn codes s t .print
      { s.move t (.printing c ret text) [] with output := s.output ++ [(t, p)] }
  | unlockBefore (c : IoctlCall) (m : Monitor ℕ) (hphase : s.phase t = .printing c none [])
    (hm : s.mutex.unlock t = some m) :
    InterceptorTurn codes s t .unlock { s.move t (.calling c) [] with mutex := m }
  | unlockAfter (c : IoctlCall) (ret : ℤ) (m : Monitor ℕ)
    (hphase : s.phase t = .printing c (some ret) []) (hm : s.mutex.unlock t = some m) :
    InterceptorTurn codes s t .unlock
      { s.move t .outside [.returned ret] with mutex := m }
  | handOn (c : IoctlCall) (ret : ℤ) (hphase : s.phase t = .calling c) (h : s.resolved = true) :
    InterceptorTurn codes s t (.handOn ret)
      (s.move t (.locking c (some ret)) [.handedOn c ret])
  | crash (c : IoctlCall) (ret : ℤ) (hphase : s.phase t = .calling c) (h : s.resolved = false) :
    InterceptorTurn codes s t (.handOn ret) { s with crashed := true }

section Turns

variable {codes : InterceptorCodes} {s s' : Interceptor} {t : ℕ} {a : InterceptorAct}

lemma interceptorStep_turn (h : s.step codes (t, a) = some s') :
    InterceptorTurn codes s t a s' := by
  unfold Interceptor.step at h
  dsimp only at h
  by_cases hcrashed : s.crashed = true
  · rw [if_pos hcrashed] at h
    cases h
  rw [if_neg hcrashed] at h
  split at h
  · rename_i c hphase
    cases h
    exact .call c hphase
  · rename_i c hphase
    split_ifs at h with hinit <;> cases h
    · exact .exchangeLost c hphase hinit
    · exact .exchangeWon c hphase (Bool.eq_false_of_not_eq_true hinit)
  · rename_i c hphase
    cases h
    exact .dlsym c hphase
  · rename_i c hphase
    by_cases hinit : s.initialized = true
    · rw [if_pos hinit] at h
      cases h
      exact .spin c hphase hinit
    · rw [if_neg hinit] at h
      cases h
  · rename_i mem c hphase
    obtain ⟨m, hm, rfl⟩ := Option.map_eq_some_iff.mp h
    exact .lockBefore c mem m hphase hm
  · rename_i mem c ret hphase
    obtain ⟨m, hm, rfl⟩ := Option.map_eq_some_iff.mp h
    exact .lockAfter c mem ret m hphase hm
  · rename_i c ret p text hphase
    cases h
    exact .print c ret p text hphase
  · rename_i c hphase
    obtain ⟨m, hm, rfl⟩ := Option.map_eq_some_iff.mp h
    exact .unlockBefore c m hphase hm
  · rename_i c ret hphase
    obtain ⟨m, hm, rfl⟩ := Option.map_eq_some_iff.mp h
    exact .unlockAfter c ret m hphase hm
  · rename_i ret c hphase
    split_ifs at h with hres <;> cases h
    · exact .handOn c ret hphase hres
    · exact .crash c ret hphase (Bool.eq_false_of_not_eq_true hres)
  · cases h

end Turns

/-! ### The transcript -/

namespace IoctlPhase

/-- The thread is between `pthread_mutex_lock` and `pthread_mutex_unlock`. -/
def prints : IoctlPhase → Prop
  | .printing _ _ _ => True
  | _ => False

def remaining : IoctlPhase → List Printed
  | .printing _ _ text => text
  | _ => []

end IoctlPhase

/-- What an event of a thread adds to the transcript. -/
def printedBy : ℕ × IoctlEvent → List (ℕ × Printed)
  | (t, .dumped text) => text.map (fun p => (t, p))
  | _ => []

/-- The dump on one side of the call, for a `BINDER_WRITE_READ`. -/
def Around (codes : InterceptorCodes) (text : Memory → List Printed) (c : IoctlCall)
    (es : List IoctlEvent) : Prop :=
  if c.request = codes.bwr then ∃ mem, es = [.dumped (text mem)] else es = []

section Around

variable {codes : InterceptorCodes} {text : Memory → List Printed} {c : IoctlCall}

lemma Around.dumped (h : c.request = codes.bwr) (mem : Memory) :
    Around codes text c [.dumped (text mem)] := by
  rw [Around, if_pos h]
  exact ⟨mem, rfl⟩

lemma Around.passed (h : c.request ≠ codes.bwr) : Around codes text c [] := by
  rw [Around, if_neg h]

end Around

/-- One call of `ioctl` from its beginning to its end. -/
def Session (codes : InterceptorCodes) (t : ℕ) (es : List IoctlEvent) : Prop :=
  ∃ c ret before after, Around codes (fun mem => textBefore codes mem t c) c before ∧
    Around codes (fun mem => textAfter codes mem t c) c after ∧
    es = .called c :: before ++ [.handedOn c ret] ++ after ++ [.returned ret]

/-- How much of a call a thread has done. -/
inductive Opened (codes : InterceptorCodes) (t : ℕ) : IoctlPhase → List IoctlEvent → Prop
  | outside : Opened codes t .outside []
  | entering (c : IoctlCall) : Opened codes t (.entering c) [.called c]
  | resolving (c : IoctlCall) : Opened codes t (.resolving c) [.called c]
  | spinning (c : IoctlCall) : Opened codes t (.spinning c) [.called c]
  | locking (c : IoctlCall) (h : c.request = codes.bwr) :
    Opened codes t (.locking c none) [.called c]
  | printing (c : IoctlCall) (h : c.request = codes.bwr) (mem : Memory) (text : List Printed) :
    Opened codes t (.printing c none text) [.called c, .dumped (textBefore codes mem t c)]
  | calling (c : IoctlCall) (before : List IoctlEvent)
    (h : Around codes (fun mem => textBefore codes mem t c) c before) :
    Opened codes t (.calling c) (.called c :: before)
  | lockingAfter (c : IoctlCall) (before : List IoctlEvent)
    (h : Around codes (fun mem => textBefore codes mem t c) c before) (ret : ℤ) :
    Opened codes t (.locking c (some ret)) (.called c :: before ++ [.handedOn c ret])
  | printingAfter (c : IoctlCall) (before : List IoctlEvent)
    (h : Around codes (fun mem => textBefore codes mem t c) c before) (ret : ℤ)
    (after : List IoctlEvent) (h' : Around codes (fun mem => textAfter codes mem t c) c after)
    (text : List Printed) :
    Opened codes t (.printing c (some ret) text)
      (.called c :: before ++ [.handedOn c ret] ++ after)

namespace Interceptor

/-- What a thread has done, in order. -/
def events (s : Interceptor) (t : ℕ) : List IoctlEvent :=
  (s.trace.filter (fun e => e.1 = t)).map Prod.snd

end Interceptor

/-- At any time the transcript is a sequence of whole dumps, except that the one of the thread that
holds the mutex may not be complete; each thread goes from call to call, with a dump before and
one after the call it hands on if it is a `BINDER_WRITE_READ`, and returns what the driver has
returned. -/
structure Faithful (codes : InterceptorCodes) (s : Interceptor) : Prop where
  whole : s.mutex.owner = none → s.output = s.trace.flatMap printedBy
  in_progress : ∀ t, s.mutex.owner = some t →
    s.output ++ (s.phase t).remaining.map (fun p => (t, p)) = s.trace.flatMap printedBy
  sessions : ∀ t, ∃ (sessions : List (List IoctlEvent)) (opened : List IoctlEvent),
    (∀ es ∈ sessions, Session codes t es) ∧ Opened codes t (s.phase t) opened ∧
      s.events t = sessions.flatten ++ opened

section Faithful

variable {codes : InterceptorCodes} {s s' : Interceptor} {t : ℕ} {a : InterceptorAct}

/-- Each turn takes a call further, or ends it. -/
lemma InterceptorTurn.paces (ht : InterceptorTurn codes s t a s') :
    ∃ next es, s'.phase = Function.update s.phase t next ∧
      s'.trace = s.trace ++ es.map (fun e => (t, e)) ∧
      ∀ opened, Opened codes t (s.phase t) opened →
        Opened codes t next (opened ++ es) ∨ next = .outside ∧ Session codes t (opened ++ es) := by
  cases ht with
  | call c hphase =>
    refine ⟨_, _, rfl, rfl, fun opened h => .inl ?_⟩
    rw [hphase] at h
    cases h
    exact .entering c
  | exchangeLost c hphase | dlsym c hphase =>
    refine ⟨_, _, rfl, rfl, fun opened h => .inl ?_⟩
    rw [hphase] at h
    cases h
    exact .spinning c
  | exchangeWon c hphase =>
    refine ⟨_, _, rfl, rfl, fun opened h => .inl ?_⟩
    rw [hphase] at h
    cases h
    exact .resolving c
  | spin c hphase =>
    refine ⟨_, _, rfl, rfl, fun opened h => .inl ?_⟩
    rw [hphase] at h
    cases h
    split_ifs with hbwr
    · exact .locking c hbwr
    · exact .calling c [] (.passed hbwr)
  | lockBefore c mem m hphase =>
    refine ⟨_, _, rfl, rfl, fun opened h => .inl ?_⟩
    rw [hphase] at h
    cases h with
    | locking _ hbwr => exact .printing c hbwr mem _
  | lockAfter c mem ret m hphase =>
    refine ⟨_, _, rfl, rfl, fun opened h => .inl ?_⟩
    rw [hphase] at h
    cases h with
    | lockingAfter _ before hbefore =>
      refine .printingAfter c before hbefore ret _ ?_ _
      split_ifs with hbwr
      · exact .dumped hbwr mem
      · exact .passed hbwr
  | print c ret p text hphase =>
    refine ⟨_, _, rfl, rfl, fun opened h => .inl ?_⟩
    rw [hphase] at h
    rw [List.append_nil]
    cases h with
    | printing _ hbwr mem => exact .printing c hbwr mem text
    | printingAfter _ before hbefore ret after hafter =>
      exact .printingAfter c before hbefore ret after hafter text
  | unlockBefore c m hphase =>
    refine ⟨_, _, rfl, rfl, fun opened h => .inl ?_⟩
    rw [hphase] at h
    cases h with
    | printing _ hbwr mem => exact .calling c _ (.dumped hbwr mem)
  | unlockAfter c ret m hphase =>
    refine ⟨_, _, rfl, rfl, fun opened h => .inr ⟨rfl, ?_⟩⟩
    rw [hphase] at h
    cases h with
    | printingAfter _ before hbefore ret after hafter =>
      exact ⟨c, ret, before, after, hbefore, hafter, rfl⟩
  | handOn c ret hphase =>
    refine ⟨_, _, rfl, rfl, fun opened h => .inl ?_⟩
    rw [hphase] at h
    cases h with
    | calling _ before hbefore => exact .lockingAfter c before hbefore ret
  | crash c ret hphase =>
    refine ⟨s.phase t, [], (Function.update_eq_self t s.phase).symm, by simp,
      fun opened h => .inl ?_⟩
    rwa [List.append_nil]

lemma events_append {es : List IoctlEvent}
    (htrace : s'.trace = s.trace ++ es.map (fun e => (t, e))) (t' : ℕ) :
    s'.events t' = s.events t' ++ if t' = t then es else [] := by
  rw [Interceptor.events, htrace, List.filter_append, List.map_append]
  congr 1
  by_cases ht : t' = t
  · subst ht
    rw [if_pos rfl, List.filter_eq_self.mpr (by simp), List.map_map]
    exact List.map_id es
  · rw [if_neg ht, List.filter_eq_nil_iff.mpr (by simp [Ne.symm ht])]
    rfl

/-- What a turn of `t` has to do with the mutex and the transcript. -/
inductive MutexEffect (s s' : Interceptor) (t : ℕ) : Prop
  | quiet (hout : ¬ (s.phase t).prints) (hout' : ¬ (s'.phase t).prints)
    (hmutex : s'.mutex = s.mutex) (houtput : s'.output = s.output)
    (htrace : s'.trace.flatMap printedBy = s.trace.flatMap printedBy)
  | takes (hout : ¬ (s.phase t).prints) (hin : (s'.phase t).prints)
    (hmutex : s.mutex.lock t = some s'.mutex) (houtput : s'.output = s.output)
    (htrace : s'.trace.flatMap printedBy =
      s.trace.flatMap printedBy ++ (s'.phase t).remaining.map (fun p => (t, p)))
  | prints (hin : (s.phase t).prints) (hin' : (s'.phase t).prints) (hmutex : s'.mutex = s.mutex)
    (p : Printed) (htext : (s.phase t).remaining = p :: (s'.phase t).remaining)
    (houtput : s'.output = s.output ++ [(t, p)])
    (htrace : s'.trace.flatMap printedBy = s.trace.flatMap printedBy)
  | leaves (hin : (s.phase t).prints) (hout : ¬ (s'.phase t).prints)
    (hmutex : s.mutex.unlock t = some s'.mutex) (htext : (s.phase t).remaining = [])
    (houtput : s'.output = s.output)
    (htrace : s'.trace.flatMap printedBy = s.trace.flatMap printedBy)

lemma InterceptorTurn.effect (ht : InterceptorTurn codes s t a s') : MutexEffect s s' t := by
  cases ht with
  | call c hphase | exchangeLost c hphase | exchangeWon c hphase | dlsym c hphase
  | handOn c ret hphase =>
    exact .quiet (by simp [hphase, IoctlPhase.prints])
      (by simp [Interceptor.move, IoctlPhase.prints]) rfl rfl
      (by simp [Interceptor.move, printedBy])
  | spin c hphase =>
    refine .quiet (by simp [hphase, IoctlPhase.prints]) ?_ rfl rfl (by simp [Interceptor.move])
    rw [Interceptor.move_phase]
    split_ifs <;> exact id
  | lockBefore c mem m hphase hm =>
    exact .takes (by simp [hphase, IoctlPhase.prints])
      (by simp [Interceptor.move, IoctlPhase.prints]) hm rfl
      (by simp [Interceptor.move, printedBy, IoctlPhase.remaining])
  | lockAfter c mem ret m hphase hm =>
    refine .takes (by simp [hphase, IoctlPhase.prints])
      (by simp [Interceptor.move, IoctlPhase.prints]) hm rfl ?_
    by_cases hbwr : c.request = codes.bwr <;>
      simp [Interceptor.move, printedBy, IoctlPhase.remaining, hbwr, textAfter]
  | print c ret p text hphase =>
    exact .prints (by simp [hphase, IoctlPhase.prints])
      (by simp [Interceptor.move, IoctlPhase.prints]) rfl p
      (by simp [Interceptor.move, hphase, IoctlPhase.remaining]) rfl
      (by simp [Interceptor.move])
  | unlockBefore c m hphase hm | unlockAfter c ret m hphase hm =>
    exact .leaves (by simp [hphase, IoctlPhase.prints])
      (by simp [Interceptor.move, IoctlPhase.prints]) hm
      (by simp [hphase, IoctlPhase.remaining]) rfl (by simp [Interceptor.move, printedBy])
  | crash c ret hphase =>
    exact .quiet (by simp [hphase, IoctlPhase.prints]) (by simp [hphase, IoctlPhase.prints]) rfl
      rfl rfl

lemma InterceptorTurn.elsewhere (ht : InterceptorTurn codes s t a s') {t' : ℕ} (hne : t' ≠ t) :
    s'.phase t' = s.phase t' := by
  obtain ⟨next, es, hphase, -⟩ := ht.paces
  rw [hphase, Function.update_of_ne hne]

/-- The mutex is with the thread that prints. -/
lemma InterceptorTurn.guards (ht : InterceptorTurn codes s t a s')
    (h : s.mutex.Guards (fun t => (s.phase t).prints)) :
    s'.mutex.Guards (fun t => (s'.phase t).prints) := by
  have hrest : ∀ t', t' ≠ t → ((s'.phase t').prints ↔ (s.phase t').prints) := by
    intro t' hne
    rw [ht.elsewhere hne]
  have hall : ((s'.phase t).prints ↔ (s.phase t).prints) →
      ∀ t', (s'.phase t').prints ↔ (s.phase t').prints := by
    intro hsame t'
    by_cases hne : t' = t
    · rwa [hne]
    · exact hrest t' hne
  cases ht.effect with
  | quiet hout hout' hmutex =>
    exact h.stay (congrArg Monitor.owner hmutex) (hall (iff_of_false hout' hout))
  | takes hout hin hmutex => exact h.lock hmutex hin hrest
  | prints hin hin' hmutex =>
    exact h.stay (congrArg Monitor.owner hmutex) (hall (iff_of_true hin' hin))
  | leaves hin hout hmutex =>
    obtain ⟨howner, hfree⟩ := Monitor.unlock_eq_some_iff.mp hmutex
    exact h.leave howner (congrArg Monitor.owner hfree.symm) hout hrest

lemma faithful_step (h : Faithful codes s)
    (hguards : s.mutex.Guards (fun t => (s.phase t).prints))
    (ht : InterceptorTurn codes s t a s') : Faithful codes s' := by
  have hsessions : ∀ t', ∃ (sessions : List (List IoctlEvent)) (opened : List IoctlEvent),
      (∀ es ∈ sessions, Session codes t' es) ∧ Opened codes t' (s'.phase t') opened ∧
        s'.events t' = sessions.flatten ++ opened := by
    intro t'
    obtain ⟨next, es, hphase, htrace, hpaces⟩ := ht.paces
    obtain ⟨sessions, opened, hall, hopened, hevents⟩ := h.sessions t'
    rw [events_append htrace, hphase, hevents]
    by_cases hne : t' = t
    · subst hne
      rw [if_pos rfl, Function.update_self]
      obtain hmore | ⟨rfl, hdone⟩ := hpaces opened hopened
      · exact ⟨sessions, opened ++ es, hall, hmore, List.append_assoc _ _ _⟩
      · refine ⟨sessions ++ [opened ++ es], [], ?_, .outside, ?_⟩
        · intro es' hes'
          obtain hold | hnew := List.mem_append.mp hes'
          · exact hall es' hold
          · rwa [List.mem_singleton.mp hnew]
        · rw [List.flatten_append, List.flatten_singleton, List.append_nil, List.append_assoc]
    · rw [if_neg hne, Function.update_of_ne hne, List.append_nil]
      exact ⟨sessions, opened, hall, hopened, rfl⟩
  cases ht.effect with
  | quiet hout hout' hmutex houtput htrace =>
    refine ⟨fun hfree => ?_, fun t' howner => ?_, hsessions⟩
    · rw [houtput, htrace]
      exact h.whole (hmutex ▸ hfree)
    · have howner' := hmutex ▸ howner
      have hne : t' ≠ t := fun heq => hout (heq ▸ (hguards t').mpr howner')
      rw [houtput, htrace, ht.elsewhere hne]
      exact h.in_progress t' howner'
  | takes hout hin hmutex houtput htrace =>
    obtain ⟨hfree, hheld⟩ := Monitor.lock_eq_some_iff.mp hmutex
    refine ⟨fun hnone => ?_, fun t' howner => ?_, hsessions⟩
    · rw [← hheld] at hnone
      cases hnone
    · rw [← hheld] at howner
      obtain rfl : t = t' := Option.some.inj howner
      rw [houtput, htrace, h.whole hfree]
  | prints hin hin' hmutex p htext houtput htrace =>
    have howner := (hguards t).mp hin
    refine ⟨fun hnone => ?_, fun t' howner' => ?_, hsessions⟩
    · rw [hmutex, howner] at hnone
      cases hnone
    · rw [hmutex, howner] at howner'
      obtain rfl : t = t' := Option.some.inj howner'
      have hline := h.in_progress t howner
      rw [htext, List.map_cons] at hline
      rw [houtput, htrace, ← hline, List.append_assoc]
      rfl
  | leaves hin hout hmutex htext houtput htrace =>
    obtain ⟨howner, hfree⟩ := Monitor.unlock_eq_some_iff.mp hmutex
    refine ⟨fun _ => ?_, fun t' howner' => ?_, hsessions⟩
    · have hline := h.in_progress t howner
      rw [htext, List.map_nil, List.append_nil] at hline
      rw [houtput, htrace, hline]
    · rw [← hfree] at howner'
      cases howner'

/-- Whatever the threads do and however they interleave. -/
theorem interceptor_faithful {codes : InterceptorCodes} {ls : List (ℕ × InterceptorAct)}
    {s : Interceptor} (hrun : (interceptor codes).Reaches ls s) : Faithful codes s := by
  have hstart : Faithful codes (interceptor codes).start :=
    ⟨fun _ => rfl, fun t howner => (by cases howner), fun t => ⟨[], [], by simp, .outside, rfl⟩⟩
  have hfree : (interceptor codes).start.mutex.Guards
      (fun t => ((interceptor codes).start.phase t).prints) :=
    fun t => iff_of_false id (fun howner => by cases howner)
  refine ((interceptor codes).invariant (I := fun s => Faithful codes s ∧
    s.mutex.Guards (fun t => (s.phase t).prints)) ⟨hstart, hfree⟩ ?_ hrun).1
  rintro s ⟨t, a⟩ s' ⟨h, hguards⟩ hstep
  have ht := interceptorStep_turn hstep
  exact ⟨faithful_step h hguards ht, ht.guards hguards⟩

end Faithful

/-- A `BINDER_WRITE_READ` of a thread whose memory is all zero. -/
def emptyTransfer : IoctlCall := ⟨5, 0xc0186201, 0x8000⟩

/-- The first thread is in the middle of its dump, and the second one waits for the mutex. -/
def dumpAndWait : List (ℕ × InterceptorAct) :=
  [(1, .call emptyTransfer), (1, .exchange), (1, .dlsym), (2, .call emptyTransfer), (1, .spin),
    (2, .exchange), (1, .lock (fun _ => 0)), (2, .spin), (1, .print)]

theorem interceptor_faithful_dumpAndWait :
    ((interceptor interceptedCodes).after dumpAndWait).output = [(1, .opening 1 0 0)] ∧
      Faithful interceptedCodes ((interceptor interceptedCodes).after dumpAndWait) :=
  ⟨by decide +kernel, interceptor_faithful (Machine.reaches_after _ (by decide +kernel))⟩

/-! ### The function behind -/

/-- `initialized` is set once, by the thread that then looks the function up. -/
structure LookedUpOnce (s : Interceptor) : Prop where
  early : s.initialized = false →
    s.resolved = false ∧ ∀ t, s.phase t = .outside ∨ ∃ c, s.phase t = .entering c
  pending : s.initialized = true → (s.resolved = false ↔ ∃ t c, s.phase t = .resolving c)
  alone : ∀ t t' c c', s.phase t = .resolving c → s.phase t' = .resolving c' → t = t'

/-- No thread calls the function while another one is looking it up. -/
def HandsOnResolved (s : Interceptor) (l : ℕ × InterceptorAct) : Prop :=
  ∀ ret, l.2 = .handOn ret → ∀ t c, s.phase t ≠ .resolving c

section LookedUp

variable {codes : InterceptorCodes} {s s' : Interceptor} {t : ℕ} {a : InterceptorAct}

/-- A thread goes on, which neither was looking the function up nor does so now. -/
lemma LookedUpOnce.go (h : LookedUpOnce s) (helse : ∀ t', t' ≠ t → s'.phase t' = s.phase t')
    (hinit : s'.initialized = s.initialized) (hresolved : s'.resolved = s.resolved)
    (hbefore : ∀ c, s.phase t ≠ .resolving c) (hafter : ∀ c, s'.phase t ≠ .resolving c)
    (hearly : s.initialized = false → s'.phase t = .outside ∨ ∃ c, s'.phase t = .entering c) :
    LookedUpOnce s' := by
  have hsame : ∀ t' c, s'.phase t' = .resolving c ↔ s.phase t' = .resolving c := by
    intro t' c
    by_cases hne : t' = t
    · subst hne
      exact iff_of_false (hafter c) (hbefore c)
    · rw [helse t' hne]
  refine ⟨fun hfalse => ?_, fun htrue => ?_, fun t₁ t₂ c₁ c₂ h₁ h₂ => ?_⟩
  · rw [hinit] at hfalse
    obtain ⟨hnot, hall⟩ := h.early hfalse
    refine ⟨hresolved.trans hnot, fun t' => ?_⟩
    by_cases hne : t' = t
    · subst hne
      exact hearly hfalse
    · rw [helse t' hne]
      exact hall t'
  · rw [hresolved, h.pending (hinit ▸ htrue)]
    simp only [hsame]
  · exact h.alone t₁ t₂ c₁ c₂ ((hsame t₁ c₁).mp h₁) ((hsame t₂ c₂).mp h₂)

lemma lookedUpOnce_step (h : LookedUpOnce s) (ht : InterceptorTurn codes s t a s') :
    LookedUpOnce s' := by
  have helse : ∀ t', t' ≠ t → s'.phase t' = s.phase t' := fun t' hne => ht.elsewhere hne
  -- a thread in the middle of a call shows that the exchange has been made
  have hstarted : (s.phase t ≠ .outside ∧ ∀ c, s.phase t ≠ .entering c) →
      s.initialized = false → False := by
    rintro ⟨hout, henter⟩ hfalse
    obtain hphase | ⟨c, hphase⟩ := (h.early hfalse).2 t
    · exact hout hphase
    · exact henter c hphase
  cases ht with
  | call c hphase =>
    exact h.go helse rfl rfl (by simp [hphase]) (by simp) (fun _ => .inr ⟨c, by simp⟩)
  | exchangeLost c hphase hinit =>
    exact h.go helse rfl rfl (by simp [hphase]) (by simp)
      (fun hfalse => by rw [hinit] at hfalse; cases hfalse)
  | spin c hphase hinit =>
    refine h.go helse rfl rfl (by simp [hphase]) (fun c' => ?_)
      (fun hfalse => by rw [hinit] at hfalse; cases hfalse)
    rw [Interceptor.move_phase]
    split_ifs <;> simp
  | lockBefore c mem m hphase | lockAfter c mem ret m hphase | print c ret p text hphase
  | unlockBefore c m hphase | unlockAfter c ret m hphase | handOn c ret hphase
  | crash c ret hphase =>
    exact h.go helse rfl rfl (by simp [hphase]) (by simp [hphase])
      (fun hfalse => (hstarted (by simp [hphase]) hfalse).elim)
  | exchangeWon c hphase hinit =>
    obtain ⟨hnot, hall⟩ := h.early hinit
    have hnone : ∀ t' c', s.phase t' ≠ .resolving c' := by
      intro t' c' hres
      obtain hphase' | ⟨c'', hphase'⟩ := hall t' <;> cases hphase'.symm.trans hres
    have honly : ∀ t' c', (s.move t (.resolving c) []).phase t' = .resolving c' → t' = t := by
      intro t' c' hres
      by_contra hne
      exact hnone t' c' ((helse t' hne).symm.trans hres)
    refine ⟨fun hfalse => ?_, fun _ => ?_, fun t₁ t₂ c₁ c₂ h₁ h₂ => ?_⟩
    · cases hfalse
    · exact iff_of_true hnot ⟨t, c, Interceptor.move_phase s t _ []⟩
    · exact (honly t₁ c₁ h₁).trans (honly t₂ c₂ h₂).symm
  | dlsym c hphase =>
    have hinit : s.initialized = true := by
      by_contra hfalse
      exact hstarted (by simp [hphase]) (Bool.eq_false_of_not_eq_true hfalse)
    have hnone : ∀ t' c', (s.move t (.spinning c) []).phase t' ≠ .resolving c' := by
      intro t' c' hres
      by_cases hne : t' = t
      · subst hne
        rw [Interceptor.move_phase] at hres
        cases hres
      · have hother := (helse t' hne).symm.trans hres
        exact hne (h.alone t' t c' c hother hphase)
    refine ⟨fun hfalse => ?_, fun _ => ?_, fun t₁ t₂ c₁ c₂ h₁ h₂ => absurd h₁ (hnone t₁ c₁)⟩
    · cases hinit.symm.trans hfalse
    · exact iff_of_false nofun (fun ⟨t', c', hres⟩ => hnone t' c' hres)

/-- What a thread that hands a call on finds. -/
lemma resolved_iff_of_calling (h : LookedUpOnce s) {c : IoctlCall}
    (hphase : s.phase t = .calling c) :
    s.resolved = true ↔ ∀ t' c', s.phase t' ≠ .resolving c' := by
  have hinit : s.initialized = true := by
    by_contra hfalse
    obtain hout | ⟨c', henter⟩ := (h.early (Bool.eq_false_of_not_eq_true hfalse)).2 t
    · cases hphase.symm.trans hout
    · cases hphase.symm.trans henter
  rw [← Bool.not_eq_false, h.pending hinit]
  simp only [not_exists, ne_eq]

/-- A run never calls a null pointer exactly if no thread hands a call on between another
thread's exchange and its `dlsym`. -/
theorem interceptor_null_iff (codes : InterceptorCodes) (ls : List (ℕ × InterceptorAct)) :
    (interceptor codes).Along (fun s => s.crashed = false) (interceptor codes).start ls ↔
      (interceptor codes).Meets HandsOnResolved (interceptor codes).start ls := by
  apply Machine.along_iff_meets (I := LookedUpOnce)
  · rintro s ⟨t, a⟩ s' h hstep
    exact lookedUpOnce_step h (interceptorStep_turn hstep)
  · rintro s ⟨t, a⟩ s' h hok hstep
    have ht := interceptorStep_turn hstep
    cases ht with
    | handOn c ret hphase hres =>
      exact iff_of_true hok (fun _ _ => (resolved_iff_of_calling h hphase).mp hres)
    | crash c ret hphase hres =>
      refine iff_of_false (by simp) (fun hcond => ?_)
      cases ((resolved_iff_of_calling h hphase).mpr (hcond ret rfl)).symm.trans hres
    | call | exchangeLost | exchangeWon | dlsym | spin | lockBefore | lockAfter | print
    | unlockBefore | unlockAfter => exact iff_of_true hok (fun _ heq => by cases heq)
  · exact ⟨fun _ => ⟨rfl, fun _ => .inl rfl⟩, fun htrue => (by cases htrue),
      fun t t' c c' hres => (by cases hres)⟩
  · rfl

end LookedUp

/-- Some call that is no `BINDER_WRITE_READ`. -/
def versionCall : IoctlCall := ⟨5, 0xc0046209, 0x8000⟩

/-- The second thread is done with the loop as soon as the first one has won the exchange. -/
def callTooEarly : List (ℕ × InterceptorAct) :=
  [(1, .call versionCall), (1, .exchange), (2, .call versionCall), (2, .exchange), (2, .spin),
    (2, .handOn 0)]

example : ((interceptor interceptedCodes).after callTooEarly).crashed = true := by
  decide +kernel

end ExpressOS
