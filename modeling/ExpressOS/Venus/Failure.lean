import ExpressOS.Venus.OneToOne

/-!
# Workers after a failing call

`worker_loop` leaves its loop when a handler returns an error, and nothing starts the worker again.
What has been accepted for such a worker and not taken yet stays where it is for ever. This file
says in which runs that happens.
-/

namespace ExpressOS
open Systems

namespace Venus

/-- What has been accepted for a worker and not taken by it yet. -/
def backlog (s : Venus) (w : Fin workerNum) : List Work :=
  (s.cells w).mailbox.slot.toList ++ s.inHand w

/-- No upcall is with a worker that has returned, neither in its mailbox nor in `post_upcall` on
the way there. -/
def NoneAbandoned (s : Venus) : Prop :=
  ∀ w, (s.cells w).phase = .exited → s.backlog w = []

def Accepts (codes : VenusCodes) (s : Venus) (w : Fin workerNum) : Prop :=
  ∃ ptr, s.dispatcher = .scanning ptr ∧ ptr < s.stop ∧ (Upcall.mk s.mem ptr).next ≤ s.stop ∧
    findWorker codes ⟨s.mem, ptr⟩ = some w

/-- A handler fails only when nothing else has been accepted for its worker, and no upcall is
accepted for a worker that has returned. -/
def FailsAlone (codes : VenusCodes) (s : Venus) : VenusAct → Prop
  | .worker w (.ret r) => r = 0 ∨ s.backlog w = []
  | .dispatcher .turn => ∀ w, s.Accepts codes w → (s.cells w).phase ≠ .exited
  | _ => True

end Venus

section Failure

variable {codes : VenusCodes} {buf : ℕ} {s s' : Venus} {w : Fin workerNum}

lemma WorkerTurn.exited_iff {c c' : Cell} {a : WorkerAct} (ht : WorkerTurn c c' a) :
    c'.phase = .exited ↔ ∃ r, a = .ret r ∧ r ≠ 0 := by
  constructor
  · intro hexit
    by_contra hno
    refine ht.not_exited (fun r hr => ?_) hexit
    by_contra hne
    exact hno ⟨r, hr, hne⟩
  · rintro ⟨r, rfl, hr⟩
    obtain ⟨u, sent, -, rfl⟩ := ht
    exact if_neg hr

lemma WorkerTurn.running {c c' : Cell} {a : WorkerAct} (ht : WorkerTurn c c' a) :
    c.phase ≠ .exited := by
  intro hexit
  cases a with
  | lock | test | wait | wake | relock | take =>
    have hphase := ht.1
    rw [hexit] at hphase
    cases hphase
  | unlock | downcall =>
    obtain ⟨u, hphase, -⟩ := ht
    rw [hexit] at hphase
    cases hphase
  | ret r =>
    obtain ⟨u, sent, hphase, -⟩ := ht
    rw [hexit] at hphase
    cases hphase

/-- The dispatcher neither moves a worker nor takes an upcall out. -/
lemma DispatcherTurn.worker_side {a : DispatcherAct} (ht : DispatcherTurn codes buf s s' a) :
    (s'.cells w).phase = (s.cells w).phase ∧
      (s'.cells w).mailbox.taken = (s.cells w).mailbox.taken := by
  -- the four steps inside `post_upcall` touch one cell
  have hpost : ∀ next w' c, c.phase = (s.cells w').phase ∧
      c.mailbox.taken = (s.cells w').mailbox.taken →
        ((s.post next w' c).cells w).phase = (s.cells w).phase ∧
          ((s.post next w' c).cells w).mailbox.taken = (s.cells w).mailbox.taken := by
    intro next w' c hc
    by_cases hw : w = w'
    · subst hw
      rw [Venus.post_cells_self]
      exact hc
    · rw [Venus.post_cells_of_ne s next c hw]
      exact ⟨rfl, rfl⟩
  cases a with
  | ioctl mem consumed =>
    obtain ⟨-, -, rfl⟩ := ht
    exact ⟨rfl, rfl⟩
  | ioctlFails =>
    obtain ⟨-, rfl⟩ := ht
    exact ⟨rfl, rfl⟩
  | turn =>
    obtain ⟨ptr, -, ⟨-, rfl⟩ | ⟨-, -, rfl⟩ | ⟨-, -, ⟨-, rfl⟩ | ⟨w', -, rfl⟩⟩⟩ := ht <;>
      exact ⟨rfl, rfl⟩
  | lock =>
    obtain ⟨ptr, w', -, -, rfl⟩ := ht
    exact hpost _ w' _ ⟨rfl, rfl⟩
  | store =>
    obtain ⟨ptr, w', -, rfl⟩ := ht
    exact hpost _ w' _ ⟨rfl, rfl⟩
  | signal pick =>
    obtain ⟨ptr, w', -, -, -, rfl⟩ := ht
    exact hpost _ w' _ ⟨rfl, rfl⟩
  | unlock =>
    obtain ⟨ptr, w', -, -, rfl⟩ := ht
    exact hpost _ w' _ ⟨rfl, rfl⟩

lemma backlog_turn (ht : DispatcherTurn codes buf s s' .turn) :
    s'.backlog w = [] ↔ s.backlog w = [] ∧ ¬ s.Accepts codes w := by
  obtain ⟨ptr, hd, hturn⟩ := ht
  have haway : s.inHand w = [] := inHand_of_postingTo_none (by rw [hd]; rfl)
  have haccepts : s.Accepts codes w ↔ ptr < s.stop ∧ (Upcall.mk s.mem ptr).next ≤ s.stop ∧
      findWorker codes ⟨s.mem, ptr⟩ = some w := by
    constructor
    · rintro ⟨ptr', hd', hrest⟩
      rw [hd] at hd'
      cases hd'
      exact hrest
    · intro hrest
      exact ⟨ptr, hd, hrest⟩
  rw [haccepts, Venus.backlog, Venus.backlog, haway]
  rcases hturn with ⟨hge, rfl⟩ | ⟨hlt, hbad, rfl⟩ | ⟨hlt, hgood, ⟨hnone, rfl⟩ | ⟨w', hw', rfl⟩⟩
  · simp [not_lt.mpr hge, Venus.inHand, DispatcherPhase.postingTo]
  · simp [not_le.mpr hbad, Venus.inHand, DispatcherPhase.postingTo]
  · simp [hnone, Venus.accept, Venus.inHand, DispatcherPhase.postingTo]
  · by_cases hw : w = w'
    · subst hw
      simp [Venus.inHand, Venus.accept, postingTo_posting, hlt, hgood, hw']
    · simp [Venus.inHand, Venus.accept, postingTo_of_ne hw, hw', Ne.symm hw]

/-- The other steps of the dispatcher neither accept nor lose an upcall. -/
lemma backlog_dispatcher (h : VenusInv codes s) {a : DispatcherAct}
    (ht : DispatcherTurn codes buf s s' a) (ha : a ≠ .turn) :
    s'.backlog w = [] ↔ s.backlog w = [] := by
  have hother : ∀ p ptr w' next c, s.dispatcher = .posting p ptr w' → w ≠ w' →
      next.postingTo w = none → (s.post next w' c).backlog w = s.backlog w := by
    intro p ptr w' next c hd hw hnext
    rw [Venus.backlog, Venus.backlog, Venus.post_cells_of_ne s next c hw,
      inHand_of_postingTo_none (s := s.post next w' c) hnext,
      inHand_of_postingTo_none (by rw [hd, postingTo_of_ne hw])]
  cases a with
  | ioctl mem consumed =>
    obtain ⟨hd, -, rfl⟩ := ht
    simp [Venus.backlog, Venus.inHand, hd, DispatcherPhase.postingTo]
  | ioctlFails =>
    obtain ⟨hd, rfl⟩ := ht
    simp [Venus.backlog, Venus.inHand, hd, DispatcherPhase.postingTo]
  | turn => exact absurd rfl ha
  | lock =>
    obtain ⟨ptr, w', hd, -, rfl⟩ := ht
    by_cases hw : w = w'
    · subst hw
      simp [Venus.backlog, Venus.inHand, hd, Venus.post, Venus.setCell, postingTo_posting]
    · rw [hother _ _ _ _ _ hd hw (postingTo_of_ne hw)]
  | store =>
    obtain ⟨ptr, w', hd, rfl⟩ := ht
    by_cases hw : w = w'
    · subst hw
      have hhand := inHand_posting h hd (.inr rfl)
      simp [Venus.backlog, hhand, Mailbox.put]
    · rw [hother _ _ _ _ _ hd hw (postingTo_of_ne hw)]
  | signal pick =>
    obtain ⟨ptr, w', hd, -, -, rfl⟩ := ht
    by_cases hw : w = w'
    · subst hw
      simp [Venus.backlog, Venus.inHand, hd, Venus.post, Venus.setCell, postingTo_posting]
    · rw [hother _ _ _ _ _ hd hw (postingTo_of_ne hw)]
  | unlock =>
    obtain ⟨ptr, w', hd, -, rfl⟩ := ht
    by_cases hw : w = w'
    · subst hw
      simp [Venus.backlog, Venus.inHand, hd, Venus.post, Venus.setCell,
        DispatcherPhase.postingTo]
    · rw [hother _ _ _ _ _ hd hw rfl]

lemma backlog_setCell_of_ne {w' : Fin workerNum} (c : Cell) (hw : w ≠ w') :
    (s.setCell w' c).backlog w = s.backlog w := by
  rw [Venus.backlog, Venus.setCell_cells_of_ne s c hw]
  rfl

lemma noneAbandoned_dispatcher (h : VenusInv codes s) (hnone : s.NoneAbandoned)
    {a : DispatcherAct} (ht : DispatcherTurn codes buf s s' a) :
    s'.NoneAbandoned ↔ s.FailsAlone codes (.dispatcher a) := by
  by_cases ha : a = .turn
  · subst ha
    constructor
    · intro hnone' w haccepts hexit
      exact ((backlog_turn ht).mp (hnone' w (ht.worker_side.1.trans hexit))).2 haccepts
    · intro hcond w hexit
      have hexit' := ht.worker_side.1.symm.trans hexit
      exact (backlog_turn ht).mpr ⟨hnone w hexit', fun haccepts => hcond w haccepts hexit'⟩
  · have hcond : s.FailsAlone codes (.dispatcher a) := by
      cases a with
      | turn => exact absurd rfl ha
      | _ => trivial
    refine iff_of_true (fun w hexit => ?_) hcond
    exact (backlog_dispatcher h ht ha).mpr (hnone w (ht.worker_side.1.symm.trans hexit))

/-- Only the worker that moves can come to abandon something. -/
lemma noneAbandoned_setCell (hnone : s.NoneAbandoned) (c : Cell) :
    (s.setCell w c).NoneAbandoned ↔ (c.phase = .exited → (s.setCell w c).backlog w = []) := by
  constructor
  · intro hnone' hexit
    exact hnone' w (by rw [Venus.setCell_cells_self]; exact hexit)
  · intro hcell w' hexit
    by_cases hw : w' = w
    · subst hw
      rw [Venus.setCell_cells_self] at hexit
      exact hcell hexit
    · rw [Venus.setCell_cells_of_ne s c hw] at hexit
      rw [backlog_setCell_of_ne c hw]
      exact hnone w' hexit

lemma noneAbandoned_worker (hnone : s.NoneAbandoned) {a : WorkerAct} {c : Cell}
    (ht : WorkerTurn (s.cells w) c a) :
    (s.setCell w c).NoneAbandoned ↔ s.FailsAlone codes (.worker w a) := by
  rw [noneAbandoned_setCell hnone, ht.exited_iff]
  cases a with
  | ret r =>
    obtain ⟨u, sent, -, rfl⟩ := ht
    have hsame : (s.setCell w { s.cells w with
        phase := if r = 0 then .locking else .exited }).backlog w = s.backlog w := by
      rw [Venus.backlog, Venus.setCell_cells_self]
      rfl
    rw [hsame]
    by_cases hr : r = 0 <;> simp [Venus.FailsAlone, hr]
  | _ => simp [Venus.FailsAlone]

lemma noneAbandoned_step (h : VenusInv codes s) (hnone : s.NoneAbandoned) {l : VenusAct}
    (hs : s.step codes buf l = some s') : s'.NoneAbandoned ↔ s.FailsAlone codes l := by
  cases l with
  | dispatcher a => exact noneAbandoned_dispatcher h hnone (dispatcherStep_turn hs)
  | worker w a =>
    obtain ⟨c, hc, rfl⟩ := Option.map_eq_some_iff.mp hs
    exact noneAbandoned_worker hnone (workerStep_turn hc)

lemma exited_step {l : VenusAct} (hs : s.step codes buf l = some s') :
    (s'.cells w).phase = .exited ↔
      (s.cells w).phase = .exited ∨ ∃ r, l = .worker w (.ret r) ∧ r ≠ 0 := by
  cases l with
  | dispatcher a => simp [(dispatcherStep_turn hs).worker_side.1]
  | worker w' a =>
    obtain ⟨c, hc, rfl⟩ := Option.map_eq_some_iff.mp hs
    have hturn := workerStep_turn hc
    by_cases hw : w = w'
    · subst hw
      rw [Venus.setCell_cells_self, hturn.exited_iff]
      simp [hturn.running]
    · rw [Venus.setCell_cells_of_ne s c hw]
      simp [Ne.symm hw]

lemma exited_iff_failed {ls : List VenusAct} {junk : Memory}
    (hrun : (venusMachine codes buf junk).run s ls = some s') :
    (s'.cells w).phase = .exited ↔
      (s.cells w).phase = .exited ∨ ∃ r, .worker w (.ret r) ∈ ls ∧ r ≠ 0 := by
  induction ls generalizing s with
  | nil =>
    cases hrun
    simp
  | cons l ls ih =>
    obtain ⟨t, ht, hrest⟩ := Option.bind_eq_some_iff.mp hrun
    rw [ih hrest, exited_step ht, or_assoc]
    refine or_congr_right ?_
    simp only [List.mem_cons, or_and_right, exists_or]
    refine or_congr_left (exists_congr fun r => and_congr_left fun _ => eq_comm)

lemma taken_of_exited {ls : List VenusAct} {junk : Memory}
    (hrun : (venusMachine codes buf junk).run s ls = some s')
    (hexit : (s.cells w).phase = .exited) :
    (s'.cells w).mailbox.taken = (s.cells w).mailbox.taken := by
  induction ls generalizing s with
  | nil =>
    cases hrun
    rfl
  | cons l ls ih =>
    obtain ⟨t, ht, hrest⟩ := Option.bind_eq_some_iff.mp hrun
    rw [ih hrest ((exited_step ht).mpr (.inl hexit))]
    cases l with
    | dispatcher a => exact (dispatcherStep_turn ht).worker_side.2
    | worker w' a =>
      obtain ⟨c, hc, rfl⟩ := Option.map_eq_some_iff.mp ht
      have hw : w ≠ w' := by
        rintro rfl
        exact (workerStep_turn hc).running hexit
      rw [Venus.setCell_cells_of_ne s c hw]

/-- What is abandoned once is never handled. -/
theorem abandoned_forever {junk : Memory} {ls ls' : List VenusAct} {x : Work}
    (hreach : (venusMachine codes buf junk).Reaches ls s)
    (hrun : (venusMachine codes buf junk).run s ls' = some s')
    (hexit : (s.cells w).phase = .exited) (hx : x ∈ s.backlog w) :
    x ∉ (s'.cells w).mailbox.taken := by
  have h := venusInv_reaches hreach
  rw [taken_of_exited hrun hexit]
  obtain ⟨puts, hputs, hrouted⟩ := h.history w
  have hnodup : (puts ++ s.inHand w).Nodup := hrouted ▸ (nodup_routedTo h w).of_map _
  obtain ⟨hnodup, -, hapart⟩ := List.nodup_append.mp hnodup
  intro htaken
  rcases List.mem_append.mp hx with hslot | hhand
  · have hkept := hnodup.sublist hputs.order
    exact (List.nodup_append.mp hkept).2.2 x htaken x hslot rfl
  · exact hapart x (hputs.order.subset (List.mem_append_left _ htaken)) x hhand rfl

/-- A run abandons no upcall, at any moment of it, exactly if each of its steps meets the
condition. -/
theorem none_abandoned_iff (codes : VenusCodes) (buf : ℕ) (junk : Memory) (ls : List VenusAct) :
    (venusMachine codes buf junk).Along Venus.NoneAbandoned
        (venusMachine codes buf junk).start ls ↔
      (venusMachine codes buf junk).Meets (Venus.FailsAlone codes)
        (venusMachine codes buf junk).start ls := by
  apply Machine.along_iff_meets (I := VenusInv codes)
  · intro s l s' h hs
    exact venusInv_step h hs
  · intro s l s' h hnone hs
    exact noneAbandoned_step h hnone hs
  · exact venusInv_start codes buf junk
  · intro w hexit
    cases hexit

end Failure

/-- The synchronous worker handles the upcall at the front of a batch and `send_downcall` fails;
the dispatcher goes on with the batch. -/
def failAndPost (bytes : List UInt8) : List VenusAct :=
  (postAndHandle bytes).take 10 ++ [.worker syncWorker (.ret (-1)), .dispatcher .turn,
    .dispatcher .lock, .dispatcher .store]

def closePair : List UInt8 :=
  [0, 0, 0, 0, 4, 0, 0, 0, 5, 0, 0, 0, 0, 0, 0, 0, 4, 0, 0, 0, 6, 0, 0, 0]

/-- The downcall of the first `CLOSE` fails, and `post_upcall` stores the second one in the mailbox
of a worker that has returned. -/
theorem second_close_abandoned :
    sampleVenus.Reaches (failAndPost closePair) (sampleVenus.after (failAndPost closePair)) ∧
      ((sampleVenus.after (failAndPost closePair)).cells syncWorker).phase = .exited ∧
      ((sampleVenus.after (failAndPost closePair)).cells syncWorker).mailbox.slot =
        some (1, [0, 0, 0, 0, 4, 0, 0, 0, 6, 0, 0, 0]) ∧
      ¬ sampleVenus.Along Venus.NoneAbandoned sampleVenus.start (failAndPost closePair) := by
  have hreach : sampleVenus.Reaches (failAndPost closePair)
      (sampleVenus.after (failAndPost closePair)) := sampleVenus.reaches_after (by decide +kernel)
  have hexit : ((sampleVenus.after (failAndPost closePair)).cells syncWorker).phase = .exited :=
    (exited_iff_failed hreach).mpr (.inr ⟨-1, by simp [failAndPost], by decide⟩)
  have hslot : ((sampleVenus.after (failAndPost closePair)).cells syncWorker).mailbox.slot =
      some (1, [0, 0, 0, 0, 4, 0, 0, 0, 6, 0, 0, 0]) := by decide +kernel
  refine ⟨hreach, hexit, hslot, ?_⟩
  intro halong
  have hempty := halong.run hreach syncWorker hexit
  rw [Venus.backlog, hslot] at hempty
  cases hempty

end ExpressOS
