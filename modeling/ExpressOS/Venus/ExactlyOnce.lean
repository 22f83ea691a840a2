import ExpressOS.Venus.OneToOne

/-!
# Under the one-to-one mapping every upcall is handled exactly once
-/

namespace ExpressOS
open Systems

def Cell.handled (c : Cell) : List Work :=
  if c.phase.work.isSome then c.mailbox.taken.dropLast else c.mailbox.taken

/-- How many steps a worker makes before it takes the upcall in its mailbox. -/
def Cell.distance (c : Cell) : ℕ :=
  match c.phase with
  | .handling _ true => 4
  | .inWait => if c.monitor.asleep = [] then 3 else 4
  | .locking => 3
  | .testing => 2
  | .taking => 1
  | _ => 0

/-- What the one-to-one mapping buys. `post_upcall` finds `w->arg` null; the upcalls accepted for a
worker are those handled, the one in its handler, the one in its mailbox and the one in
`post_upcall`, each once. An upcall in a mailbox does not stay there: its worker is neither behind
an unanswered upcall nor asleep without a signal to come, can always go on, and is a step closer to
taking the upcall with each step it makes. -/
structure ExactlyOnce (codes : VenusCodes) (buf : ℕ) (s : ClientSystem) : Prop where
  never_full : ∀ ptr w, s.venus.dispatcher = .posting .storing ptr w →
    (s.venus.cells w).mailbox.slot = none
  routed : ∀ p ∈ s.venus.posted, ∃ w, findWorker codes p.2 = some w
  one_place : ∀ w, (s.venus.cells w).handled ++ (s.venus.cells w).phase.work.toList ++
    (s.venus.cells w).mailbox.slot.toList ++ s.venus.inHand w = s.venus.routedTo codes w
  once : ∀ w, ((s.venus.routedTo codes w).map Prod.fst).Nodup
  not_behind : ∀ w, (s.venus.cells w).mailbox.slot ≠ none → (s.venus.cells w).unanswered = []
  awake : ∀ w, (s.venus.cells w).mailbox.slot ≠ none → (s.venus.cells w).monitor.asleep ≠ [] →
    ∃ ptr, s.venus.dispatcher = .posting .signalling ptr w
  moving : ∀ w, (s.venus.cells w).mailbox.slot ≠ none →
    ((∃ p ptr, s.venus.dispatcher = .posting p ptr w) ∧
        ∃ a s', s.step codes buf (.dispatcher a) = some s') ∨
      ∃ a s', a ≠ .wake ∧ s.step codes buf (.worker w a) = some s'
  closer : ∀ w x l s', (s.venus.cells w).mailbox.slot = some x → s.step codes buf l = some s' →
    (s'.venus.cells w).phase = .leaving x ∨
      (s'.venus.cells w).mailbox.slot = some x ∧
        (s'.venus.cells w).distance ≤ (s.venus.cells w).distance ∧
        ∀ a, l = .worker w a → (s'.venus.cells w).distance < (s.venus.cells w).distance

section Progress

variable {codes : VenusCodes} {buf : ℕ} {s : ClientSystem}

lemma Cell.handled_append_work {p : Option PostPhase} {c : Cell} (h : CellInv p c) :
    c.handled ++ c.phase.work.toList = c.mailbox.taken := by
  unfold Cell.handled
  cases hwork : c.phase.work with
  | none => simp
  | some x =>
    have hlast := h.current x hwork
    rw [if_pos Option.isSome_some]
    exact List.dropLast_append_getLast? x hlast

/-- Nothing was overwritten, so the letters put are those taken and the one in the mailbox. -/
lemma SystemInv.one_place (h : SystemInv codes s) (w : Fin workerNum) :
    (s.venus.cells w).handled ++ (s.venus.cells w).phase.work.toList ++
      (s.venus.cells w).mailbox.slot.toList ++ s.venus.inHand w = s.venus.routedTo codes w := by
  obtain ⟨puts, hputs, hrouted⟩ := h.venus.history w
  have hplaces := hputs.places
  rw [h.kept w, List.map_nil, List.append_nil] at hplaces
  rw [Cell.handled_append_work (h.venus.cell w), hrouted,
    hputs.order.eq_of_length hplaces.length_eq]

/-- The actions of the dispatcher leave a full mailbox alone and wake its worker at most. -/
lemma SystemInv.dispatcher_cell (h : SystemInv codes s) {v : Venus} {a : DispatcherAct}
    (ht : DispatcherTurn codes buf s.venus v a) {w : Fin workerNum}
    (hslot : (s.venus.cells w).mailbox.slot ≠ none) :
    (v.cells w).mailbox = (s.venus.cells w).mailbox ∧
      (v.cells w).phase = (s.venus.cells w).phase ∧
      (v.cells w).monitor.asleep ⊆ (s.venus.cells w).monitor.asleep := by
  cases a with
  | ioctl mem n =>
    obtain ⟨-, -, rfl⟩ := ht
    exact ⟨rfl, rfl, List.Subset.refl _⟩
  | ioctlFails =>
    obtain ⟨-, rfl⟩ := ht
    exact ⟨rfl, rfl, List.Subset.refl _⟩
  | turn =>
    obtain ⟨ptr, -, ⟨-, rfl⟩ | ⟨-, -, rfl⟩ | ⟨-, -, ⟨-, rfl⟩ | ⟨w', -, rfl⟩⟩⟩ := ht <;>
      exact ⟨rfl, rfl, List.Subset.refl _⟩
  | lock | unlock =>
    obtain ⟨ptr, w', -, -, rfl⟩ := ht
    by_cases hw : w = w'
    · subst hw
      simp
    · simp [Venus.post_cells_of_ne _ _ _ hw]
  | store =>
    obtain ⟨ptr, w', hd, rfl⟩ := ht
    have hw : w ≠ w' := by
      rintro rfl
      exact hslot (h.slot_eq_none hd (.inr rfl))
    simp [Venus.post_cells_of_ne _ _ _ hw]
  | signal pick =>
    obtain ⟨ptr, w', -, -, -, rfl⟩ := ht
    by_cases hw : w = w'
    · subst hw
      cases pick with
      | none => simp
      | some t => simp [List.erase_subset]
    · simp [Venus.post_cells_of_ne _ _ _ hw]

lemma Cell.distance_le {c c' : Cell} (hphase : c'.phase = c.phase)
    (hasleep : c'.monitor.asleep ⊆ c.monitor.asleep) : c'.distance ≤ c.distance := by
  unfold Cell.distance
  rw [hphase]
  split
  · exact le_rfl
  · by_cases hnil : c.monitor.asleep = []
    · rw [if_pos hnil, if_pos (List.subset_nil.mp (hnil ▸ hasleep))]
    · rw [if_neg hnil]
      split <;> omega
  · exact le_rfl
  · exact le_rfl
  · exact le_rfl
  · exact le_rfl

/-- A worker with a full mailbox takes what is in it, or comes closer to that. -/
lemma WorkerTurn.closer {p : Option PostPhase} {c c' : Cell} {a : WorkerAct} {x : Work}
    (h : CellInv p c) (ht : WorkerTurn c c' a) (hslot : c.mailbox.slot = some x)
    (hun : c.unanswered = [])
    (hret : ∀ r, a = .ret r → r = 0 ∧ ∃ u, c.phase = .handling u true) :
    c'.phase = .leaving x ∨ c'.mailbox.slot = some x ∧ c'.distance < c.distance := by
  cases a with
  | lock =>
    obtain ⟨hphase, -, rfl⟩ := ht
    exact .inr ⟨hslot, by simp [Cell.distance, hphase]⟩
  | test =>
    obtain ⟨hphase, rfl⟩ := ht
    exact .inr ⟨hslot, by simp [Cell.distance, hphase, hslot]⟩
  | wait =>
    obtain ⟨hphase, -, rfl⟩ := ht
    rw [h.waiting hphase] at hslot
    cases hslot
  | wake =>
    obtain ⟨hphase, hsleep, rfl⟩ := ht
    have hone := h.asleep.resolve_left (List.ne_nil_of_mem hsleep)
    exact .inr ⟨hslot, by simp [Cell.distance, hphase, hone.1]⟩
  | relock =>
    obtain ⟨hphase, hawake, -, rfl⟩ := ht
    have hnil : c.monitor.asleep = [] :=
      h.asleep.resolve_right (fun hone => hawake (by simp [hone.1]))
    exact .inr ⟨hslot, by simp [Cell.distance, hphase, hnil]⟩
  | take =>
    obtain ⟨-, u, mailbox, htake, rfl⟩ := ht
    rw [(Mailbox.take_eq_some_iff.mp htake).1] at hslot
    cases hslot
    exact .inl rfl
  | unlock =>
    obtain ⟨u, hphase, -, rfl⟩ := ht
    simp [Cell.unanswered, hphase] at hun
  | downcall =>
    obtain ⟨u, hphase, rfl⟩ := ht
    simp [Cell.unanswered, hphase] at hun
  | ret r =>
    obtain ⟨rfl, u, hphase⟩ := hret r rfl
    obtain ⟨-, -, -, rfl⟩ := ht
    exact .inr ⟨hslot, by simp [Cell.distance, hphase]⟩

lemma SystemInv.closer (h : SystemInv codes s) {w : Fin workerNum} {x : Work} {l : ClientAct}
    {s' : ClientSystem} (hslot : (s.venus.cells w).mailbox.slot = some x)
    (ht : ClientTurn codes buf s s' l) :
    (s'.venus.cells w).phase = .leaving x ∨
      (s'.venus.cells w).mailbox.slot = some x ∧
        (s'.venus.cells w).distance ≤ (s.venus.cells w).distance ∧
        ∀ a, l = .worker w a → (s'.venus.cells w).distance < (s.venus.cells w).distance := by
  have hfull : (s.venus.cells w).mailbox.slot ≠ none := by simp [hslot]
  cases l with
  | spawn handle base =>
    obtain ⟨-, rfl⟩ := ht
    exact .inr ⟨hslot, le_rfl, fun a ha => (by cases ha)⟩
  | exit handle =>
    obtain ⟨-, rfl⟩ := ht
    exact .inr ⟨hslot, le_rfl, fun a ha => (by cases ha)⟩
  | issue f =>
    obtain ⟨-, -, -, rfl⟩ := ht
    exact .inr ⟨hslot, le_rfl, fun a ha => (by cases ha)⟩
  | deliver mem batch rest =>
    obtain ⟨-, -, v, hv, rfl⟩ := ht
    obtain ⟨hmailbox, hphase, hasleep⟩ := h.dispatcher_cell hv hfull
    exact .inr ⟨hmailbox ▸ hslot, Cell.distance_le hphase hasleep, fun a ha => (by cases ha)⟩
  | dispatcher a =>
    obtain ⟨-, v, hv, rfl⟩ := ht
    obtain ⟨hmailbox, hphase, hasleep⟩ := h.dispatcher_cell hv hfull
    exact .inr ⟨hmailbox ▸ hslot, Cell.distance_le hphase hasleep, fun a ha => (by cases ha)⟩
  | worker w' a =>
    obtain ⟨c, waiting, hc, hret, -, -, rfl⟩ := ht
    by_cases hw : w = w'
    · subst hw
      rw [Venus.setCell_cells_self]
      rcases hc.closer (h.venus.cell w) hslot (h.unanswered_eq_nil hfull) hret with
        htaken | ⟨hkept, hlt⟩
      · exact .inl htaken
      · exact .inr ⟨hkept, hlt.le, fun _ _ => hlt⟩
    · rw [Venus.setCell_cells_of_ne _ _ hw]
      refine .inr ⟨hslot, le_rfl, fun b hb => ?_⟩
      cases hb
      exact absurd rfl hw

/-- The dispatcher can leave `post_upcall` once the mailbox is full. -/
lemma SystemInv.dispatcher_moves (h : SystemInv codes s) {w : Fin workerNum}
    (hslot : (s.venus.cells w).mailbox.slot ≠ none)
    (hholds : PostHolds (s.venus.dispatcher.postingTo w)) :
    (∃ p ptr, s.venus.dispatcher = .posting p ptr w) ∧
      ∃ a s', s.step codes buf (.dispatcher a) = some s' := by
  have howner := (h.venus.cell w).dispatcher_owns.mpr hholds
  rcases hholds with hp | hp | hp <;> obtain ⟨ptr, hd⟩ := posting_of_postingTo hp
  · exact absurd (h.slot_eq_none hd (.inr rfl)) hslot
  · refine ⟨⟨_, ptr, hd⟩, .signal (s.venus.cells w).monitor.asleep.head?, ?_⟩
    cases hasleep : (s.venus.cells w).monitor.asleep <;>
      simp [ClientSystem.step, Venus.dispatcherStep, hd, Monitor.signal, Monitor.wake, hasleep]
  · refine ⟨⟨_, ptr, hd⟩, .unlock, ?_⟩
    simp [ClientSystem.step, Venus.dispatcherStep, hd, Monitor.unlock, howner]

lemma SystemInv.moving (h : SystemInv codes s) {w : Fin workerNum}
    (hslot : (s.venus.cells w).mailbox.slot ≠ none) :
    ((∃ p ptr, s.venus.dispatcher = .posting p ptr w) ∧
        ∃ a s', s.step codes buf (.dispatcher a) = some s') ∨
      ∃ a s', a ≠ .wake ∧ s.step codes buf (.worker w a) = some s' := by
  by_cases hholds : PostHolds (s.venus.dispatcher.postingTo w)
  · exact .inl (h.dispatcher_moves hslot hholds)
  · refine .inr ?_
    have hcell := h.venus.cell w
    have hun := h.unanswered_eq_nil hslot
    -- the dispatcher does not have the mutex, so only the worker can
    have hfree : ¬ (s.venus.cells w).phase.holds → (s.venus.cells w).monitor.owner = none := by
      intro hno
      cases howner : (s.venus.cells w).monitor.owner with
      | none => rfl
      | some t =>
        cases t with
        | dispatcher => exact absurd (hcell.dispatcher_owns.mp howner) hholds
        | worker => exact absurd (hcell.worker_owns.mp howner) hno
    cases hphase : (s.venus.cells w).phase with
    | locking =>
      have hnone := hfree (by simp [hphase, WorkerPhase.holds])
      refine ⟨.lock, ?_⟩
      simp [ClientSystem.step, Cell.workerStep, hphase, Monitor.lock, hnone]
    | testing =>
      refine ⟨.test, ?_⟩
      simp [ClientSystem.step, Cell.workerStep, hphase]
    | waiting => exact absurd (hcell.waiting hphase) hslot
    | taking =>
      obtain ⟨x, hx⟩ := Option.ne_none_iff_exists'.mp hslot
      refine ⟨.take, ?_⟩
      simp [ClientSystem.step, Cell.workerStep, hphase, Mailbox.take, hx]
    | inWait =>
      have hnone := hfree (by simp [hphase, WorkerPhase.holds])
      have hawake : (s.venus.cells w).monitor.asleep = [] := by
        by_contra hsleep
        exact hholds (.inr (.inl (hcell.wakeup hsleep hslot)))
      refine ⟨.relock, ?_⟩
      simp [ClientSystem.step, Cell.workerStep, hphase, Monitor.lock, hnone, hawake]
    | leaving u => simp [Cell.unanswered, hphase] at hun
    | handling u sent =>
      cases sent with
      | false => simp [Cell.unanswered, hphase] at hun
      | true =>
        refine ⟨.ret 0, ?_⟩
        simp [ClientSystem.step, Cell.workerStep, hphase]
    | exited => exact absurd hphase (h.running w)

end Progress

/-- Threads that keep the one-to-one mapping have each of their upcalls handled exactly once,
whatever the order of the steps. -/
theorem exactlyOnce {codes : VenusCodes} {buf : ℕ} {junk : Memory} {ls : List ClientAct}
    {s : ClientSystem} (hbuf : buf + bufSize < 2 ^ 32)
    (hrun : (clientMachine codes buf junk).Reaches ls s) : ExactlyOnce codes buf s := by
  have h := systemInv_reaches hbuf hrun
  refine ⟨?_, h.routed, h.one_place, nodup_routedTo h.venus, ?_, ?_, ?_, ?_⟩
  · intro ptr w hd
    exact h.slot_eq_none hd (.inr rfl)
  · intro w hslot
    exact h.unanswered_eq_nil hslot
  · intro w hslot hsleep
    exact posting_of_postingTo ((h.venus.cell w).wakeup hsleep hslot)
  · intro w hslot
    exact h.moving hslot
  · intro w x l s' hslot hstep
    exact h.closer hslot (clientStep_turn hstep)

/-- A `SOCKET` call of the thread with the handle `0x2000`. -/
def socketCall : Frame :=
  ⟨2, [0, 0x20, 0, 0, 2, 0, 0, 0, 1, 0, 0, 0, 0, 0, 0, 0], by decide, by decide⟩

/-- The thread posts its next call when the downcall is out and the handler has not returned. -/
def callTwice : List ClientAct :=
  let post : List ClientAct := [.issue socketCall,
    .deliver (memoryOf socketCall.encode) [socketCall] [], .dispatcher .turn, .dispatcher .lock,
    .dispatcher .store]
  .spawn 0x2000 0 :: post ++
    [.dispatcher (.signal none), .dispatcher .unlock, .dispatcher .turn] ++
    [WorkerAct.lock, .test, .take, .unlock, .downcall].map (.worker (asyncWorker 0x2000)) ++ post

def sampleClients : Machine ClientSystem ClientAct := clientMachine sampleCodes 4096 (fun _ => 0)

theorem second_call_kept :
    sampleClients.Reaches callTwice (sampleClients.after callTwice) ∧
      ((sampleClients.after callTwice).venus.cells (asyncWorker 0x2000)).mailbox.slot =
        some (1, socketCall.encode) ∧
      ExactlyOnce sampleCodes 4096 (sampleClients.after callTwice) := by
  have hreach : sampleClients.Reaches callTwice (sampleClients.after callTwice) :=
    sampleClients.reaches_after (by decide +kernel)
  exact ⟨hreach, by decide +kernel, exactlyOnce (by decide) hreach⟩

end ExpressOS
