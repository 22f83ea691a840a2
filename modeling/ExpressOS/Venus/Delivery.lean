import ExpressOS.Venus.Replies
import ExpressOS.Venus.Workers

/-!
# What becomes of the upcalls that the dispatcher accepts

The invariant of the machine of `Workers.lean`. For each worker it ties the mutex to the places
where the two threads stand, and the mailbox with its history to the accepted upcalls that
`find_worker` routes to that worker.
-/

namespace ExpressOS
open Systems

def WorkerPhase.work : WorkerPhase → Option Work
  | .leaving u | .handling u _ => some u
  | .locking | .testing | .waiting | .taking | .inWait | .exited => none

def PostHolds (p : Option PostPhase) : Prop :=
  p = some .storing ∨ p = some .signalling ∨ p = some .unlocking

/-- One worker, seen with the step of `post_upcall` that the dispatcher is at with it. -/
structure CellInv (p : Option PostPhase) (c : Cell) : Prop where
  worker_owns : c.monitor.owner = some .worker ↔ c.phase.holds
  dispatcher_owns : c.monitor.owner = some .dispatcher ↔ PostHolds p
  asleep : c.monitor.asleep = [] ∨ c.monitor.asleep = [.worker] ∧ c.phase = .inWait
  waiting : c.phase = .waiting → c.mailbox.slot = none
  wakeup : c.monitor.asleep ≠ [] → c.mailbox.slot ≠ none → p = some .signalling
  current : ∀ u, c.phase.work = some u → c.mailbox.taken.getLast? = some u

namespace CellInv

variable {p : Option PostPhase} {c c' : Cell} {a : WorkerAct}

lemma asleep_eq_nil (h : CellInv p c) (hphase : c.phase ≠ .inWait) : c.monitor.asleep = [] :=
  h.asleep.resolve_right (fun hw => hphase hw.2)

/-- While the worker holds its mutex the dispatcher does not. -/
lemma not_postHolds (h : CellInv p c) (hholds : c.phase.holds) : ¬ PostHolds p := by
  rw [← h.dispatcher_owns, h.worker_owns.mpr hholds]
  simp

/-- Of a worker that is not asleep there is less to say. -/
lemma of_awake (hnil : c.monitor.asleep = [])
    (hworker : c.monitor.owner = some .worker ↔ c.phase.holds)
    (hdispatcher : c.monitor.owner = some .dispatcher ↔ PostHolds p)
    (hwaiting : c.phase = .waiting → c.mailbox.slot = none)
    (hcurrent : ∀ u, c.phase.work = some u → c.mailbox.taken.getLast? = some u) : CellInv p c :=
  ⟨hworker, hdispatcher, .inl hnil, hwaiting, fun hsleep => absurd hnil hsleep, hcurrent⟩

lemma worker (h : CellInv p c) (ht : WorkerTurn c c' a) : CellInv p c' := by
  cases a with
  | lock =>
    obtain ⟨hphase, hfree, rfl⟩ := ht
    have hnil := h.asleep_eq_nil (by simp [hphase])
    have hno : ¬ PostHolds p := by simp [← h.dispatcher_owns, hfree]
    exact of_awake hnil (by simp [WorkerPhase.holds]) (by simp [hno]) (by simp)
      (by simp [WorkerPhase.work])
  | test =>
    obtain ⟨hphase, rfl⟩ := ht
    have hnil := h.asleep_eq_nil (by simp [hphase])
    have howner := h.worker_owns
    rw [hphase] at howner
    refine of_awake hnil ?_ h.dispatcher_owns ?_ ?_
    · rw [howner]
      dsimp only
      split <;> simp [WorkerPhase.holds]
    · cases hslot : c.mailbox.slot <;> simp
    · dsimp only
      split <;> simp [WorkerPhase.work]
  | wait =>
    obtain ⟨hphase, howner, rfl⟩ := ht
    have hnil := h.asleep_eq_nil (by simp [hphase])
    have hno := h.not_postHolds (by simp [hphase, WorkerPhase.holds])
    -- the slot is still as the test found it, because the mutex was not given up in between
    have hempty := h.waiting hphase
    exact ⟨by simp [WorkerPhase.holds], by simp [hno], .inr ⟨by simp [hnil], rfl⟩, by simp,
      by simp [hempty], by simp [WorkerPhase.work]⟩
  | wake =>
    obtain ⟨hphase, hsleep, rfl⟩ := ht
    have hone : c.monitor.asleep = [.worker] := by
      rcases h.asleep with hnil | hone
      · rw [hnil] at hsleep
        cases hsleep
      · exact hone.1
    exact ⟨h.worker_owns, h.dispatcher_owns, .inl (by simp [hone]), h.waiting, by simp [hone],
      h.current⟩
  | relock =>
    obtain ⟨hphase, hawake, hfree, rfl⟩ := ht
    have hnil : c.monitor.asleep = [] := by
      refine h.asleep.resolve_right (fun hone => hawake ?_)
      rw [hone.1]
      exact List.mem_singleton_self _
    have hno : ¬ PostHolds p := by simp [← h.dispatcher_owns, hfree]
    exact of_awake hnil (by simp [WorkerPhase.holds]) (by simp [hno]) (by simp)
      (by simp [WorkerPhase.work])
  | take =>
    obtain ⟨hphase, u, mailbox, htake, rfl⟩ := ht
    have hnil := h.asleep_eq_nil (by simp [hphase])
    have howner := h.worker_owns
    rw [hphase] at howner
    obtain ⟨-, rfl⟩ := Mailbox.take_eq_some_iff.mp htake
    exact of_awake hnil (by simpa [WorkerPhase.holds] using howner) h.dispatcher_owns (by simp)
      (by simp [WorkerPhase.work])
  | unlock =>
    obtain ⟨u, hphase, howner, rfl⟩ := ht
    have hnil := h.asleep_eq_nil (by simp [hphase])
    have hno := h.not_postHolds (by simp [hphase, WorkerPhase.holds])
    have hlast := h.current u (by simp [hphase, WorkerPhase.work])
    exact of_awake hnil (by simp [WorkerPhase.holds]) (by simp [hno]) (by simp)
      (by simpa [WorkerPhase.work] using hlast)
  | downcall =>
    obtain ⟨u, hphase, rfl⟩ := ht
    have hnil := h.asleep_eq_nil (by simp [hphase])
    have howner := h.worker_owns
    rw [hphase] at howner
    have hlast := h.current u (by simp [hphase, WorkerPhase.work])
    exact of_awake hnil (by simpa [WorkerPhase.holds] using howner) h.dispatcher_owns (by simp)
      (by simpa [WorkerPhase.work] using hlast)
  | ret r =>
    obtain ⟨u, sent, hphase, rfl⟩ := ht
    have hnil := h.asleep_eq_nil (by simp [hphase])
    have howner := h.worker_owns
    rw [hphase] at howner
    refine of_awake hnil ?_ h.dispatcher_owns ?_ ?_
    · dsimp only
      split <;> simpa [WorkerPhase.holds] using howner
    · dsimp only
      split <;> simp
    · dsimp only
      split <;> simp [WorkerPhase.work]

lemma enter (h : CellInv none c) : CellInv (some .locking) c :=
  ⟨h.worker_owns, by simpa [PostHolds] using h.dispatcher_owns, h.asleep, h.waiting,
    fun hsleep hslot => (by cases h.wakeup hsleep hslot), h.current⟩

lemma lock (h : CellInv (some .locking) c) (hfree : c.monitor.owner = none) :
    CellInv (some .storing) { c with monitor := ⟨some .dispatcher, c.monitor.asleep⟩ } := by
  have hno : ¬ c.phase.holds := by simp [← h.worker_owns, hfree]
  exact ⟨by simp [hno], by simp [PostHolds], h.asleep, h.waiting,
    fun hsleep hslot => (by cases h.wakeup hsleep hslot), h.current⟩

/-- Only this step fills the mailbox, and then the signal is still to come. -/
lemma store (h : CellInv (some .storing) c) (x : Work) :
    CellInv (some .signalling) { c with mailbox := c.mailbox.put x } := by
  have howner : c.monitor.owner = some .dispatcher :=
    h.dispatcher_owns.mpr (by simp [PostHolds])
  have hno : ¬ c.phase.holds := by simp [← h.worker_owns, howner]
  refine ⟨h.worker_owns, by simp [PostHolds, howner], h.asleep, ?_, fun _ _ => rfl, h.current⟩
  intro hwait
  dsimp only at hwait
  rw [hwait] at hno
  exact absurd trivial hno

lemma signal (h : CellInv (some .signalling) c) {pick : Option Party}
    (hpick : ∀ t, pick = some t → t ∈ c.monitor.asleep)
    (hnone : pick = none → c.monitor.asleep = []) :
    CellInv (some .unlocking) { c with monitor := ⟨c.monitor.owner,
      pick.elim c.monitor.asleep (fun t => c.monitor.asleep.erase t)⟩ } := by
  have hnil : pick.elim c.monitor.asleep (fun t => c.monitor.asleep.erase t) = [] := by
    cases pick with
    | none => exact hnone rfl
    | some t =>
      have hmem := hpick t rfl
      rcases h.asleep with hnil | ⟨hone, -⟩
      · rw [hnil] at hmem
        cases hmem
      · rw [hone] at hmem
        rw [List.mem_singleton.mp hmem]
        simp [hone]
  exact ⟨h.worker_owns, by simpa [PostHolds] using h.dispatcher_owns, .inl hnil, h.waiting,
    fun hsleep => absurd hnil hsleep, h.current⟩

lemma unlock (h : CellInv (some .unlocking) c) :
    CellInv none { c with monitor := ⟨none, c.monitor.asleep⟩ } := by
  have howner : c.monitor.owner = some .dispatcher :=
    h.dispatcher_owns.mpr (by simp [PostHolds])
  have hno : ¬ c.phase.holds := by simp [← h.worker_owns, howner]
  exact ⟨by simp [hno], by simp [PostHolds], h.asleep, h.waiting,
    fun hsleep hslot => (by cases h.wakeup hsleep hslot), h.current⟩

end CellInv

lemma cellInv_idle : CellInv none .idle :=
  ⟨by simp [Cell.idle, Monitor.free, WorkerPhase.holds],
    by simp [Cell.idle, Monitor.free, PostHolds], .inl rfl, fun _ => rfl,
    fun h => absurd rfl h, fun _ h => by cases h⟩

namespace Venus

/-- The accepted upcalls that `find_worker` routes to `w`, as `post_upcall` copies them. -/
def routedTo (codes : VenusCodes) (s : Venus) (w : Fin workerNum) : List Work :=
  (s.posted.filter (fun p => findWorker codes p.2 = some w)).map (fun p => (p.1, p.2.copy))

/-- The upcall for `w` that the dispatcher has accepted but not put into the mailbox yet. -/
def inHand (s : Venus) (w : Fin workerNum) : List Work :=
  if s.dispatcher.postingTo w = some .locking ∨ s.dispatcher.postingTo w = some .storing then
    (s.posted.getLast?.map (fun p => (p.1, p.2.copy))).toList
  else []

end Venus

structure VenusInv (codes : VenusCodes) (s : Venus) : Prop where
  cell : ∀ w, CellInv (s.dispatcher.postingTo w) (s.cells w)
  history : ∀ w, ∃ puts, (s.cells w).mailbox.History puts ∧
    s.routedTo codes w = puts ++ s.inHand w
  numbered : s.posted.map Prod.fst = List.range s.posted.length
  hand : ∀ p ptr w, s.dispatcher = .posting p ptr w →
    s.posted.getLast? = some (s.lastNumber, ⟨s.mem, ptr⟩) ∧ findWorker codes ⟨s.mem, ptr⟩ = some w

section Invariant

variable {codes : VenusCodes} {buf : ℕ} {s s' : Venus}

lemma postingTo_posting (p : PostPhase) (ptr : ℕ) (w : Fin workerNum) :
    (DispatcherPhase.posting p ptr w).postingTo w = some p := if_pos rfl

lemma postingTo_of_ne {p : PostPhase} {ptr : ℕ} {w w' : Fin workerNum} (h : w' ≠ w) :
    (DispatcherPhase.posting p ptr w).postingTo w' = none := if_neg (Ne.symm h)

lemma posting_of_postingTo {p : PostPhase} {w : Fin workerNum}
    (h : s.dispatcher.postingTo w = some p) : ∃ ptr, s.dispatcher = .posting p ptr w := by
  unfold DispatcherPhase.postingTo at h
  split at h
  · rename_i p' ptr w' hd
    split_ifs at h with hw
    subst hw
    cases h
    exact ⟨ptr, hd⟩
  · cases h

lemma inHand_of_postingTo_none {w : Fin workerNum} (h : s.dispatcher.postingTo w = none) :
    s.inHand w = [] := by
  simp [Venus.inHand, h]

lemma routedTo_accept (u : Upcall) (next : DispatcherPhase) (w : Fin workerNum) :
    (s.accept u next).routedTo codes w = s.routedTo codes w ++
      if findWorker codes u = some w then [(s.posted.length, u.copy)] else [] := by
  simp only [Venus.routedTo, Venus.accept, List.filter_append, List.map_append]
  congr 1
  by_cases h : findWorker codes u = some w <;> simp [h]

lemma WorkerTurn.history {c c' : Cell} {a : WorkerAct} (ht : WorkerTurn c c' a)
    {puts : List Work} (h : c.mailbox.History puts) : c'.mailbox.History puts := by
  rcases ht.mailbox with hsame | ⟨u, htake⟩
  · rw [hsame]
    exact h
  · exact h.take htake

lemma VenusInv.worker (h : VenusInv codes s) {w : Fin workerNum} {c : Cell} {a : WorkerAct}
    (ht : WorkerTurn (s.cells w) c a) : VenusInv codes (s.setCell w c) := by
  refine ⟨?_, ?_, h.numbered, h.hand⟩
  · intro w'
    by_cases hw : w' = w
    · subst hw
      simpa [Venus.setCell] using (h.cell w').worker ht
    · simpa [Venus.setCell, hw] using h.cell w'
  · intro w'
    obtain ⟨puts, hputs, hrouted⟩ := h.history w'
    refine ⟨puts, ?_, hrouted⟩
    by_cases hw : w' = w
    · subst hw
      simpa [Venus.setCell] using ht.history hputs
    · simpa [Venus.setCell, hw] using hputs

/-- A step inside `post_upcall` concerns one worker only. -/
lemma VenusInv.post (h : VenusInv codes s) {p : PostPhase} {ptr : ℕ} {w : Fin workerNum}
    (hd : s.dispatcher = .posting p ptr w) {next : DispatcherPhase} {c : Cell}
    (hnext : (∃ q, next = .scanning q) ∨ ∃ p', next = .posting p' ptr w)
    (hcell : CellInv (next.postingTo w) c)
    (hhistory : ∃ puts, c.mailbox.History puts ∧
      s.routedTo codes w = puts ++ (s.post next w c).inHand w) :
    VenusInv codes (s.post next w c) := by
  have hother : ∀ w', w' ≠ w → next.postingTo w' = none := by
    intro w' hw
    rcases hnext with ⟨q, rfl⟩ | ⟨p', rfl⟩
    · rfl
    · exact postingTo_of_ne hw
  refine ⟨?_, ?_, h.numbered, ?_⟩
  · intro w'
    by_cases hw : w' = w
    · subst hw
      simpa [Venus.post, Venus.setCell] using hcell
    · have hold := h.cell w'
      rw [hd, postingTo_of_ne hw] at hold
      simpa [Venus.post, Venus.setCell, hw, hother w' hw] using hold
  · intro w'
    by_cases hw : w' = w
    · subst hw
      rw [Venus.post_cells_self]
      exact hhistory
    · obtain ⟨puts, hputs, hrouted⟩ := h.history w'
      rw [inHand_of_postingTo_none (by rw [hd, postingTo_of_ne hw])] at hrouted
      refine ⟨puts, by simpa [Venus.post, Venus.setCell, hw] using hputs, ?_⟩
      rw [inHand_of_postingTo_none (hother w' hw)]
      exact hrouted
  · intro p' ptr' w' hphase
    rcases hnext with ⟨q, rfl⟩ | ⟨p'', rfl⟩
    · cases hphase
    · cases hphase
      exact h.hand p ptr w hd

lemma VenusInv.accept (h : VenusInv codes s) {ptr : ℕ} (hd : s.dispatcher = .scanning ptr) :
    (findWorker codes ⟨s.mem, ptr⟩ = none →
        ∀ q, VenusInv codes (s.accept ⟨s.mem, ptr⟩ (.scanning q))) ∧
      ∀ w, findWorker codes ⟨s.mem, ptr⟩ = some w →
        VenusInv codes (s.accept ⟨s.mem, ptr⟩ (.posting .locking ptr w)) := by
  have haway : ∀ w, s.dispatcher.postingTo w = none := fun w => by rw [hd]; rfl
  have hnumbered : ∀ next, (s.accept ⟨s.mem, ptr⟩ next).posted.map Prod.fst =
      List.range (s.accept ⟨s.mem, ptr⟩ next).posted.length := by
    intro next
    simp only [Venus.accept, List.map_append, List.length_append, h.numbered, List.map_cons,
      List.map_nil, List.length_singleton, List.range_succ]
  constructor
  · intro hnone q
    refine ⟨fun w => ?_, fun w => ?_, hnumbered _, fun p ptr' w hphase => by cases hphase⟩
    · have hold := h.cell w
      rw [haway w] at hold
      exact hold
    · obtain ⟨puts, hputs, hrouted⟩ := h.history w
      rw [inHand_of_postingTo_none (haway w)] at hrouted
      refine ⟨puts, hputs, ?_⟩
      rw [routedTo_accept, inHand_of_postingTo_none rfl, hnone, hrouted]
      simp
  · intro w hw
    refine ⟨fun w' => ?_, fun w' => ?_, hnumbered _, ?_⟩
    · have hold := h.cell w'
      rw [haway w'] at hold
      by_cases hww : w' = w
      · subst hww
        simpa [Venus.accept, postingTo_posting] using hold.enter
      · simpa [Venus.accept, postingTo_of_ne hww] using hold
    · obtain ⟨puts, hputs, hrouted⟩ := h.history w'
      rw [inHand_of_postingTo_none (haway w')] at hrouted
      refine ⟨puts, hputs, ?_⟩
      rw [routedTo_accept, hrouted, hw]
      by_cases hww : w' = w
      · subst hww
        simp [Venus.inHand, Venus.accept, postingTo_posting]
      · rw [inHand_of_postingTo_none (postingTo_of_ne hww)]
        simp [Ne.symm hww]
    · intro p ptr' w' hphase
      cases hphase
      exact ⟨by simp [Venus.accept, Venus.lastNumber], hw⟩

/-- The dispatcher leaves its loop, or begins with another buffer. -/
lemma VenusInv.away (h : VenusInv codes s) (mem : Memory) (stop : ℕ) {next : DispatcherPhase}
    (haway : ∀ w, s.dispatcher.postingTo w = none) (hnext : ∀ w, next.postingTo w = none) :
    VenusInv codes { s with mem := mem, stop := stop, dispatcher := next } := by
  refine ⟨fun w => ?_, fun w => ?_, h.numbered, fun p ptr w hphase => ?_⟩
  · have hold := h.cell w
    rw [haway w] at hold
    simpa [hnext w] using hold
  · obtain ⟨puts, hputs, hrouted⟩ := h.history w
    rw [inHand_of_postingTo_none (haway w)] at hrouted
    refine ⟨puts, hputs, ?_⟩
    rw [inHand_of_postingTo_none (hnext w)]
    exact hrouted
  · have hsome := hnext w
    dsimp only at hphase
    rw [hphase, postingTo_posting] at hsome
    cases hsome

lemma VenusInv.dispatcher (h : VenusInv codes s) {a : DispatcherAct}
    (ht : DispatcherTurn codes buf s s' a) : VenusInv codes s' := by
  cases a with
  | ioctl mem consumed =>
    obtain ⟨hd, -, rfl⟩ := ht
    exact h.away _ _ (fun w => by rw [hd]; rfl) (fun _ => rfl)
  | ioctlFails =>
    obtain ⟨hd, rfl⟩ := ht
    exact h.away _ _ (fun w => by rw [hd]; rfl) (fun _ => rfl)
  | turn =>
    obtain ⟨ptr, hd, ⟨-, rfl⟩ | ⟨-, -, rfl⟩ | ⟨-, -, ⟨hnone, rfl⟩ | ⟨w, hw, rfl⟩⟩⟩ := ht
    · exact h.away _ _ (fun w => by rw [hd]; rfl) (fun _ => rfl)
    · exact h.away _ _ (fun w => by rw [hd]; rfl) (fun _ => rfl)
    · exact (h.accept hd).1 hnone _
    · exact (h.accept hd).2 w hw
  | lock =>
    obtain ⟨ptr, w, hd, hfree, rfl⟩ := ht
    have hold := h.cell w
    obtain ⟨puts, hputs, hrouted⟩ := h.history w
    rw [hd, postingTo_posting] at hold
    refine h.post hd (.inr ⟨_, rfl⟩) ?_ ⟨puts, hputs, ?_⟩
    · rw [postingTo_posting]
      exact hold.lock hfree
    · rw [hrouted]
      simp [Venus.inHand, hd, Venus.post, Venus.setCell, postingTo_posting]
  | store =>
    obtain ⟨ptr, w, hd, rfl⟩ := ht
    have hold := h.cell w
    obtain ⟨puts, hputs, hrouted⟩ := h.history w
    obtain ⟨hlast, -⟩ := h.hand _ _ _ hd
    rw [hd, postingTo_posting] at hold
    refine h.post hd (.inr ⟨_, rfl⟩) ?_ ⟨_, hputs.put _, ?_⟩
    · rw [postingTo_posting]
      exact hold.store _
    · rw [hrouted]
      simp [Venus.inHand, hd, Venus.post, Venus.setCell, postingTo_posting, hlast]
  | signal pick =>
    obtain ⟨ptr, w, hd, hpick, hnone, rfl⟩ := ht
    have hold := h.cell w
    obtain ⟨puts, hputs, hrouted⟩ := h.history w
    rw [hd, postingTo_posting] at hold
    refine h.post hd (.inr ⟨_, rfl⟩) ?_ ⟨puts, hputs, ?_⟩
    · rw [postingTo_posting]
      exact hold.signal hpick hnone
    · rw [hrouted]
      simp [Venus.inHand, hd, Venus.post, Venus.setCell, postingTo_posting]
  | unlock =>
    obtain ⟨ptr, w, hd, howner, rfl⟩ := ht
    have hold := h.cell w
    obtain ⟨puts, hputs, hrouted⟩ := h.history w
    rw [hd, postingTo_posting] at hold
    refine h.post hd (.inl ⟨_, rfl⟩) hold.unlock ⟨puts, hputs, ?_⟩
    rw [hrouted]
    simp [Venus.inHand, hd, Venus.post, Venus.setCell, DispatcherPhase.postingTo]

theorem venusInv_step {l : VenusAct} (h : VenusInv codes s) (hs : s.step codes buf l = some s') :
    VenusInv codes s' := by
  cases l with
  | dispatcher a => exact h.dispatcher (dispatcherStep_turn hs)
  | worker w a =>
    obtain ⟨c, hc, rfl⟩ := Option.map_eq_some_iff.mp hs
    exact h.worker (workerStep_turn hc)

lemma venusInv_start (codes : VenusCodes) (buf : ℕ) (junk : Memory) :
    VenusInv codes (venusMachine codes buf junk).start :=
  ⟨fun _ => cellInv_idle, fun _ => ⟨[], Mailbox.history_empty, rfl⟩, rfl,
    fun _ _ _ hphase => by cases hphase⟩

theorem venusInv_reaches {junk : Memory} {ls : List VenusAct}
    (h : (venusMachine codes buf junk).Reaches ls s) : VenusInv codes s :=
  (venusMachine codes buf junk).invariant (venusInv_start codes buf junk)
    (fun _ _ _ => venusInv_step) h

end Invariant

/-- What the dispatcher and the workers guarantee for the upcalls accepted so far. -/
structure Delivered (codes : VenusCodes) (s : Venus) : Prop where
  in_order : ∀ w, (s.cells w).mailbox.taken.Sublist (s.routedTo codes w)
  once : ∀ w, ((s.cells w).mailbox.taken.map Prod.fst).Nodup
  handles_last : ∀ w x, (s.cells w).phase.work = some x →
    (s.cells w).mailbox.taken.getLast? = some x
  exact_bytes : ∀ w, ∀ x ∈ (s.cells w).mailbox.taken, ∃ u, (x.1, u) ∈ s.posted ∧
    findWorker codes u = some w ∧ x.2 = u.mem.read u.ptr (hdrSize + u.payloadSize)
  async_routed : ∀ p ∈ s.posted, isAsyncOpcode codes p.2.opcode = true →
    findWorker codes p.2 = some (asyncWorker p.2.handle) ∧
      (asyncWorker p.2.handle).val < workerNum - 1
  sync_routed : ∀ p ∈ s.posted, p.2.opcode < codes.callCount →
    isAsyncOpcode codes p.2.opcode = false → findWorker codes p.2 = some syncWorker
  not_concurrent : ∀ w w' x y u v, (s.cells w).phase.work = some x →
    (s.cells w').phase.work = some y → (x.1, u) ∈ s.posted → (y.1, v) ∈ s.posted →
      isAsyncOpcode codes u.opcode = true → isAsyncOpcode codes v.opcode = true →
        u.handle = v.handle → w = w'
  accounted : ∀ w, ∀ x ∈ s.routedTo codes w, x ∈ (s.cells w).mailbox.taken ∨
    (s.cells w).mailbox.slot = some x ∨ x ∈ s.inHand w ∨
      x ∉ (s.cells w).mailbox.taken ∧ ∃ y, (x, y) ∈ (s.cells w).mailbox.replaced ∧
        [x, y].Sublist (s.routedTo codes w)
  awake : ∀ w, (s.cells w).monitor.asleep ≠ [] → (s.cells w).mailbox.slot ≠ none →
    ∃ ptr, s.dispatcher = .posting .signalling ptr w

section Delivered

variable {codes : VenusCodes} {s : Venus}

lemma findWorker_of_async {u : Upcall} (h : isAsyncOpcode codes u.opcode = true) :
    findWorker codes u = some (asyncWorker u.handle) := by
  have hlt : ¬ u.opcode ≥ codes.callCount := not_le.mpr (opcode_lt_callCount h)
  rw [findWorker, if_neg hlt, if_pos h]

lemma mem_routedTo {w : Fin workerNum} {x : Work} :
    x ∈ s.routedTo codes w ↔
      ∃ u, (x.1, u) ∈ s.posted ∧ findWorker codes u = some w ∧ x.2 = u.copy := by
  obtain ⟨n, bytes⟩ := x
  simp only [Venus.routedTo, List.mem_map, List.mem_filter, decide_eq_true_eq, Prod.mk.injEq,
    Prod.exists]
  constructor
  · rintro ⟨n', u, ⟨hu, hw⟩, rfl, rfl⟩
    exact ⟨u, hu, hw, rfl⟩
  · rintro ⟨u, hu, hw, rfl⟩
    exact ⟨n, u, ⟨hu, hw⟩, rfl, rfl⟩

lemma posted_unique (h : VenusInv codes s) {n : ℕ} {u v : Upcall} (hu : (n, u) ∈ s.posted)
    (hv : (n, v) ∈ s.posted) : u = v := by
  have hnodup : (s.posted.map Prod.fst).Nodup := h.numbered ▸ List.nodup_range
  exact congrArg Prod.snd (List.inj_on_of_nodup_map hnodup hu hv rfl)

lemma nodup_routedTo (h : VenusInv codes s) (w : Fin workerNum) :
    ((s.routedTo codes w).map Prod.fst).Nodup := by
  have hnodup : (s.posted.map Prod.fst).Nodup := h.numbered ▸ List.nodup_range
  rw [Venus.routedTo, List.map_map]
  exact hnodup.sublist (List.filter_sublist.map Prod.fst)

lemma taken_sublist (h : VenusInv codes s) (w : Fin workerNum) :
    (s.cells w).mailbox.taken.Sublist (s.routedTo codes w) := by
  obtain ⟨puts, hputs, hrouted⟩ := h.history w
  rw [hrouted]
  exact ((List.sublist_append_left _ _).trans hputs.order).trans (List.sublist_append_left _ _)

lemma work_mem_taken (h : VenusInv codes s) {w : Fin workerNum} {x : Work}
    (hx : (s.cells w).phase.work = some x) : x ∈ (s.cells w).mailbox.taken :=
  List.mem_of_getLast? ((h.cell w).current x hx)

/-- What the invariant says of a state, as far as no accepted `8 + payload_size` wraps. -/
lemma delivered_of_inv (h : VenusInv codes s)
    (hsize : ∀ p ∈ s.posted, hdrSize + p.2.payloadSize < 2 ^ 32) : Delivered codes s := by
  refine ⟨taken_sublist h, ?_, fun w => (h.cell w).current, ?_, ?_, ?_, ?_, ?_, ?_⟩
  · intro w
    exact (nodup_routedTo h w).sublist ((taken_sublist h w).map Prod.fst)
  · intro w x hx
    obtain ⟨u, hu, hw, hcopy⟩ := mem_routedTo.mp ((taken_sublist h w).subset hx)
    refine ⟨u, hu, hw, ?_⟩
    rw [hcopy, Upcall.copy, Upcall.size_of_lt (hsize _ hu)]
  · intro p hp hasync
    exact ⟨findWorker_of_async hasync, Nat.mod_lt _ (by decide)⟩
  · intro p hp hlt hsync
    rw [findWorker, if_neg (not_le.mpr hlt), if_neg (by simp [hsync])]
  · intro w w' x y u v hx hy hu hv hasync hasync' hhandle
    obtain ⟨u', hu', hw, -⟩ := mem_routedTo.mp ((taken_sublist h w).subset (work_mem_taken h hx))
    obtain ⟨v', hv', hw', -⟩ := mem_routedTo.mp ((taken_sublist h w').subset (work_mem_taken h hy))
    rw [posted_unique h hu' hu, findWorker_of_async hasync] at hw
    rw [posted_unique h hv' hv, findWorker_of_async hasync', ← hhandle] at hw'
    exact Option.some.inj (hw.symm.trans hw')
  · intro w x hx
    obtain ⟨puts, hputs, hrouted⟩ := h.history w
    have hnodup : (s.routedTo codes w).Nodup := (nodup_routedTo h w).of_map _
    rw [hrouted] at hx hnodup ⊢
    rcases List.mem_append.mp hx with hput | hhand
    · rcases hputs.accounted (List.nodup_append.mp hnodup).1 hput with
        htaken | hslot | ⟨hno, y, hy, hlater⟩
      · exact .inl htaken
      · exact .inr (.inl hslot)
      · exact .inr (.inr (.inr ⟨hno, y, hy, hlater.trans (List.sublist_append_left _ _)⟩))
    · exact .inr (.inr (.inl hhand))
  · intro w hsleep hslot
    exact posting_of_postingTo ((h.cell w).wakeup hsleep hslot)

/-- The upcalls that a worker handles are those routed to it, in the order of posting and without
repetition, byte for byte; equal handles share a worker and are never handled at the same time; an
upcall that is neither waiting nor handled was overwritten; no wake-up is lost. Sizes are exact as
long as no accepted `8 + payload_size` wraps. -/
theorem delivered {buf : ℕ} {junk : Memory} {ls : List VenusAct}
    (hrun : (venusMachine codes buf junk).Reaches ls s)
    (hsize : ∀ p ∈ s.posted, hdrSize + p.2.payloadSize < 2 ^ 32) : Delivered codes s :=
  delivered_of_inv (venusInv_reaches hrun) hsize

end Delivered

def sampleVenus : Machine Venus VenusAct := venusMachine sampleCodes 4096 (fun _ => 0)

/-- A `SOCKET` call of the thread with the handle `0x2000`. -/
def socketBytes (protocol : UInt8) : List UInt8 :=
  [2, 0, 0, 0, 16, 0, 0, 0, 0, 0x20, 0, 0, 2, 0, 0, 0, 1, 0, 0, 0, protocol, 0, 0, 0]

/-- One batch brings two calls for the same worker: the first wakes it, and the second is posted
while it handles the first. -/
def postTwice : List VenusAct :=
  let batch := socketBytes 6 ++ socketBytes 17
  let post (pick : Option Party) : List VenusAct :=
    [DispatcherAct.turn, .lock, .store, .signal pick, .unlock].map .dispatcher
  let worker (acts : List WorkerAct) : List VenusAct := acts.map (.worker (asyncWorker 0x2000))
  worker [.lock, .test, .wait] ++ .dispatcher (.ioctl (memoryOf batch) batch.length) ::
    post (some .worker) ++ worker [.relock, .test, .take, .unlock] ++ post none ++
      worker [.downcall, .ret 0, .lock, .test, .take, .unlock]

theorem two_calls_delivered :
    sampleVenus.Reaches postTwice (sampleVenus.after postTwice) ∧
      ((sampleVenus.after postTwice).cells (asyncWorker 0x2000)).mailbox.taken =
        [(0, socketBytes 6), (1, socketBytes 17)] ∧
      Delivered sampleCodes (sampleVenus.after postTwice) := by
  have hreach : sampleVenus.Reaches postTwice (sampleVenus.after postTwice) :=
    sampleVenus.reaches_after (by decide +kernel)
  exact ⟨hreach, by decide +kernel, delivered hreach (by decide +kernel)⟩

/-- The dispatcher reads one batch and posts the upcall at its front, and the synchronous worker
takes it and handles it. -/
def postAndHandle (bytes : List UInt8) : List VenusAct :=
  [.dispatcher (.ioctl (memoryOf bytes) bytes.length), .dispatcher .turn, .dispatcher .lock,
    .dispatcher .store, .dispatcher (.signal none), .dispatcher .unlock, .worker syncWorker .lock,
    .worker syncWorker .test, .worker syncWorker .take, .worker syncWorker .unlock,
    .worker syncWorker .downcall, .worker syncWorker (.ret 0)]

def afterHandling (bytes : List UInt8) : Venus := sampleVenus.after (postAndHandle bytes)

/-- A `CLOSE` whose `payload_size` is `0xffffffff`: the dispatcher accepts it, and the worker gets
seven bytes. -/
theorem wrapped_copy_too_short :
    sampleVenus.Reaches (postAndHandle [0, 0, 0, 0, 0xff, 0xff, 0xff, 0xff])
        (afterHandling [0, 0, 0, 0, 0xff, 0xff, 0xff, 0xff]) ∧
      ¬ Delivered sampleCodes (afterHandling [0, 0, 0, 0, 0xff, 0xff, 0xff, 0xff]) := by
  refine ⟨sampleVenus.reaches_after (by decide +kernel), ?_⟩
  intro h
  have htaken : ((afterHandling [0, 0, 0, 0, 0xff, 0xff, 0xff, 0xff]).cells
      syncWorker).mailbox.taken = [(0, [0, 0, 0, 0, 0xff, 0xff, 0xff])] := by decide +kernel
  obtain ⟨u, -, -, hbytes⟩ := h.exact_bytes syncWorker (0, [0, 0, 0, 0, 0xff, 0xff, 0xff])
    (by rw [htaken]; exact List.mem_singleton_self _)
  have hlength := congrArg List.length hbytes
  rw [Memory.length_read] at hlength
  simp only [List.length_cons, List.length_nil, hdrSize] at hlength
  omega

end ExpressOS
