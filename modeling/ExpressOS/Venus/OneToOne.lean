import ExpressOS.Venus.Clients

/-!
# The one-to-one mapping of threads and workers

The invariant of clients that keep the mapping. It counts, for each worker, the callers whose
upcalls are on their way to it or wait there for an answer. There is at most one, because callers
with the same worker are the same.
-/

namespace ExpressOS
open Systems

/-- What a worker has taken and not answered yet. -/
def Cell.unanswered (c : Cell) : List Work :=
  match c.phase with
  | .leaving u | .handling u false => [u]
  | _ => []

def Cell.pending (c : Cell) : List Work := c.mailbox.slot.toList ++ c.unanswered

/-- The callers of the upcalls for `w` that have no answer yet, with `frames` not yet read. -/
def load (codes : VenusCodes) (frames : List Frame) (s : Venus) (w : Fin workerNum) :
    List (Option ℕ) :=
  (frames.map (fun f => callerOf codes f.encode)).filter (fun t => callerWorker t = w) ++
    (s.inHand w ++ (s.cells w).pending).map (fun x => callerOf codes x.2)

structure Outstanding (waiting : List (Option ℕ)) (w : Fin workerNum) (callers : List (Option ℕ)) :
    Prop where
  single : callers.length ≤ 1
  waits : ∀ t ∈ callers, t ∈ waiting
  routed : ∀ t ∈ callers, callerWorker t = w

/-- The bytes that the dispatcher has not looked at are `batch`. -/
def Venus.Ahead (s : Venus) (batch : List Frame) : Prop :=
  let unread (ptr : ℕ) : Prop :=
    ptr ≤ s.stop ∧ s.mem.read ptr (s.stop - ptr) = frameStream.encodeAll batch
  match s.dispatcher with
  | .inIoctl | .returned => batch = []
  | .scanning ptr => unread ptr
  | .posting _ ptr _ => unread (Upcall.mk s.mem ptr).next

/-- The invariant of the clients together with Venus. -/
structure SystemInv (codes : VenusCodes) (s : ClientSystem) : Prop where
  venus : VenusInv codes s.venus
  stop_lt : s.venus.stop < 2 ^ 32
  kept : ∀ w, (s.venus.cells w).mailbox.replaced = []
  running : ∀ w, (s.venus.cells w).phase ≠ .exited
  routed : ∀ p ∈ s.venus.posted, ∃ w, findWorker codes p.2 = some w
  window : ∃ base, InWindow base s.live
  live : ∀ t ∈ s.waiting, ∀ handle ∈ t, handle ∈ s.live
  calls : ∃ batch, s.venus.Ahead batch ∧ (∀ f ∈ batch ++ s.queue, ClientCall codes f) ∧
    ∀ w, Outstanding s.waiting w (load codes (batch ++ s.queue) s.venus w)

section Callers

variable {codes : VenusCodes}

lemma callerWorker_inj {base : ℕ} {live : List ℕ} (h : InWindow base live) {t t' : Option ℕ}
    (ht : ∀ handle ∈ t, handle ∈ live) (ht' : ∀ handle ∈ t', handle ∈ live)
    (heq : callerWorker t = callerWorker t') : t = t' := by
  cases t with
  | none =>
    cases t' with
    | none => rfl
    | some b => exact absurd heq.symm (asyncWorker_ne_syncWorker b)
  | some a =>
    cases t' with
    | none => exact absurd heq (asyncWorker_ne_syncWorker a)
    | some b =>
      obtain ⟨-, halow, hahigh⟩ := h.2 a (ht a rfl)
      obtain ⟨-, hblow, hbhigh⟩ := h.2 b (ht' b rfl)
      have hmod : (a >>> handleShift) % (workerNum - 1) = (b >>> handleShift) % (workerNum - 1) :=
        congrArg Fin.val heq
      have hshift : a >>> handleShift = b >>> handleShift := by
        unfold workerNum at *
        omega
      rw [List.inj_on_of_nodup_map h.1 (ht a rfl) (ht' b rfl) hshift]

lemma findWorker_of_call {f : Frame} (hcall : ClientCall codes f) {mem : Memory} {ptr n : ℕ}
    {rest : List UInt8} (hread : mem.read ptr n = f.encode ++ rest) :
    findWorker codes ⟨mem, ptr⟩ = some (callerWorker (callerOf codes f.encode)) := by
  obtain ⟨hopcode, -, hframe⟩ := Upcall.of_read_frame hread
  have hhead : leNat (f.encode.take 4) = f.opcode := by simpa using headOpcode_encode f []
  rw [callerOf, hhead]
  by_cases hasync : isAsyncOpcode codes f.opcode = true
  · have hlong := hcall.2 hasync
    have hroom : handleOffset + handleSize ≤ f.size := Nat.add_le_add_left hlong _
    have hhandle : (Upcall.mk mem ptr).handle =
        leNat ((f.encode.drop handleOffset).take handleSize) := Memory.word_eq_of_read hframe hroom
    rw [if_pos hasync, findWorker_of_async (by rw [hopcode]; exact hasync), hhandle]
    rfl
  · obtain ⟨k, hk⟩ := Option.isSome_iff_exists.mp hcall.1
    have hlt : ¬ (Upcall.mk mem ptr).opcode ≥ codes.callCount := by
      rw [hopcode, ← codes.code_of_decode hk]
      exact not_le.mpr (codes.code_lt k)
    rw [if_neg hasync, findWorker, if_neg hlt, hopcode, if_neg hasync]
    rfl

end Callers

namespace Outstanding

variable {waiting waiting' callers callers' : List (Option ℕ)} {w : Fin workerNum}

lemma perm (h : Outstanding waiting w callers) (hperm : callers'.Perm callers) :
    Outstanding waiting w callers' :=
  ⟨hperm.length_eq ▸ h.single, fun t ht => h.waits t (hperm.subset ht),
    fun t ht => h.routed t (hperm.subset ht)⟩

lemma mono (h : Outstanding waiting w callers) (hsub : ∀ t ∈ callers, t ∈ waiting → t ∈ waiting') :
    Outstanding waiting' w callers :=
  ⟨h.single, fun t ht => hsub t ht (h.waits t ht), h.routed⟩

lemma nil : Outstanding waiting w [] :=
  ⟨Nat.zero_le 1, fun _ ht => (by cases ht), fun _ ht => (by cases ht)⟩

end Outstanding

section Load

variable {codes : VenusCodes} {s s' : Venus} {w : Fin workerNum}

lemma load_perm {frames frames' : List Frame} (h : frames.Perm frames') :
    (load codes frames s w).Perm (load codes frames' s w) :=
  ((h.map _).filter _).append_right _

lemma load_cons (f : Frame) (frames : List Frame) :
    load codes (f :: frames) s w =
      (if callerWorker (callerOf codes f.encode) = w then [callerOf codes f.encode] else []) ++
        load codes frames s w := by
  unfold load
  rw [List.map_cons, List.filter_cons]
  by_cases h : callerWorker (callerOf codes f.encode) = w <;> simp [h]

lemma load_congr (frames : List Frame) (hhand : s'.inHand w = s.inHand w)
    (hcell : (s'.cells w).pending = (s.cells w).pending) :
    load codes frames s' w = load codes frames s w := by
  rw [load, load, hhand, hcell]

lemma load_setCell (frames : List Frame) {w' : Fin workerNum} {c : Cell}
    (hcell : ((s.setCell w' c).cells w).pending = (s.cells w).pending) :
    load codes frames (s.setCell w' c) w = load codes frames s w :=
  load_congr frames rfl hcell

variable (codes) in
lemma load_downcall (frames : List Frame) {u : Work}
    (hphase : (s.cells w).phase = .handling u false) :
    load codes frames s w =
      load codes frames (s.setCell w { s.cells w with phase := .handling u true }) w ++
        [callerOf codes u.2] := by
  have hhand : (s.setCell w { s.cells w with phase := .handling u true }).inHand w = s.inHand w :=
    rfl
  rw [load, load, hhand, Venus.setCell_cells_self]
  simp [Cell.pending, Cell.unanswered, hphase]

end Load

/-- All that a worker does before its downcall keeps what is pending in its cell. -/
lemma WorkerTurn.pending {c c' : Cell} {a : WorkerAct} (ht : WorkerTurn c c' a)
    (hdown : a ≠ .downcall) (hret : ∀ r, a = .ret r → ∃ u, c.phase = .handling u true) :
    c'.pending = c.pending := by
  cases a with
  | lock | wait =>
    obtain ⟨hphase, -, rfl⟩ := ht
    simp [Cell.pending, Cell.unanswered, hphase]
  | test =>
    obtain ⟨hphase, rfl⟩ := ht
    cases hslot : c.mailbox.slot <;> simp [Cell.pending, Cell.unanswered, hphase, hslot]
  | wake =>
    obtain ⟨-, -, rfl⟩ := ht
    rfl
  | relock =>
    obtain ⟨hphase, -, -, rfl⟩ := ht
    simp [Cell.pending, Cell.unanswered, hphase]
  | take =>
    obtain ⟨hphase, u, mailbox, htake, rfl⟩ := ht
    obtain ⟨hslot, rfl⟩ := Mailbox.take_eq_some_iff.mp htake
    simp [Cell.pending, Cell.unanswered, hphase, hslot]
  | unlock =>
    obtain ⟨u, hphase, -, rfl⟩ := ht
    simp [Cell.pending, Cell.unanswered, hphase]
  | downcall => exact absurd rfl hdown
  | ret r =>
    obtain ⟨u, hphase⟩ := hret r rfl
    obtain ⟨-, -, -, rfl⟩ := ht
    by_cases hr : r = 0 <;> simp [Cell.pending, Cell.unanswered, hphase, hr]

lemma WorkerTurn.replaced {c c' : Cell} {a : WorkerAct} (ht : WorkerTurn c c' a) :
    c'.mailbox.replaced = c.mailbox.replaced := by
  rcases ht.mailbox with hsame | ⟨u, htake⟩
  · rw [hsame]
  · rw [← (Mailbox.take_eq_some_iff.mp htake).2]

lemma WorkerTurn.not_exited {c c' : Cell} {a : WorkerAct} (ht : WorkerTurn c c' a)
    (hret : ∀ r, a = .ret r → r = 0) : c'.phase ≠ .exited := by
  cases a with
  | wake =>
    obtain ⟨hphase, -, rfl⟩ := ht
    simp [hphase]
  | test =>
    obtain ⟨-, rfl⟩ := ht
    dsimp only
    split <;> simp
  | take =>
    obtain ⟨-, u, mailbox, -, rfl⟩ := ht
    simp
  | lock | wait =>
    obtain ⟨-, -, rfl⟩ := ht
    simp
  | relock =>
    obtain ⟨-, -, -, rfl⟩ := ht
    simp
  | unlock =>
    obtain ⟨u, -, -, rfl⟩ := ht
    simp
  | downcall =>
    obtain ⟨u, -, rfl⟩ := ht
    simp
  | ret r =>
    obtain ⟨u, sent, -, rfl⟩ := ht
    simp [hret r rfl]

section Invariant

variable {codes : VenusCodes} {buf : ℕ} {s : ClientSystem} {v : Venus}

/-- What the dispatcher is about to put into a mailbox is the upcall it has accepted last. -/
lemma inHand_posting {s : Venus} (h : VenusInv codes s) {p : PostPhase} {ptr : ℕ}
    {w : Fin workerNum} (hd : s.dispatcher = .posting p ptr w)
    (hp : p = .locking ∨ p = .storing) :
    s.inHand w = [(s.lastNumber, (Upcall.mk s.mem ptr).copy)] := by
  obtain ⟨hlast, -⟩ := h.hand p ptr w hd
  rw [Venus.inHand, hd, postingTo_posting, if_pos (by simpa using hp), hlast]
  rfl

/-- Steps of Venus that move no upcall. -/
lemma SystemInv.quiet (h : SystemInv codes s) (hv : VenusInv codes v)
    (hstop : v.stop = s.venus.stop) (hposted : v.posted = s.venus.posted)
    (hcells : ∀ w, (v.cells w).mailbox = (s.venus.cells w).mailbox ∧
      (v.cells w).phase = (s.venus.cells w).phase)
    (hhand : ∀ w, v.inHand w = s.venus.inHand w)
    (hahead : ∀ batch, s.venus.Ahead batch → v.Ahead batch) :
    SystemInv codes { s with venus := v } := by
  obtain ⟨batch, hbatch, hcalls, hload⟩ := h.calls
  refine ⟨hv, hstop ▸ h.stop_lt, fun w => ?_, fun w => ?_, hposted ▸ h.routed, h.window, h.live,
    batch, hahead batch hbatch, hcalls, fun w => ?_⟩
  · rw [(hcells w).1]
    exact h.kept w
  · rw [(hcells w).2]
    exact h.running w
  · rw [load_congr (s := s.venus) _ (hhand w)]
    · exact hload w
    · rw [Cell.pending, Cell.pending, Cell.unanswered, Cell.unanswered, (hcells w).1, (hcells w).2]

lemma SystemInv.spawn (h : SystemInv codes s) {handle base : ℕ}
    (hwindow : InWindow base (handle :: s.live)) :
    SystemInv codes { s with live := handle :: s.live } :=
  ⟨h.venus, h.stop_lt, h.kept, h.running, h.routed, ⟨base, hwindow⟩,
    fun t ht a ha => List.mem_cons_of_mem _ (h.live t ht a ha), h.calls⟩

lemma SystemInv.exit (h : SystemInv codes s) {handle : ℕ} (hfree : some handle ∉ s.waiting) :
    SystemInv codes { s with live := s.live.erase handle } := by
  obtain ⟨base, hnodup, hrange⟩ := h.window
  refine ⟨h.venus, h.stop_lt, h.kept, h.running, h.routed, ⟨base, ?_, ?_⟩, ?_, h.calls⟩
  · exact hnodup.sublist (List.erase_sublist.map _)
  · exact fun a ha => hrange a (List.mem_of_mem_erase ha)
  · intro t ht a ha
    have hne : a ≠ handle := by
      rintro rfl
      exact hfree (Option.mem_def.mp ha ▸ ht)
    exact (List.mem_erase_of_ne hne).mpr (h.live t ht a ha)

/-- A caller that does not wait has no upcall anywhere on its way, so its worker is free for the
next one. -/
lemma SystemInv.issue (h : SystemInv codes s) {f : Frame} (hcall : ClientCall codes f)
    (hfree : callerOf codes f.encode ∉ s.waiting)
    (hlive : ∀ handle ∈ callerOf codes f.encode, handle ∈ s.live) :
    SystemInv codes { s with
      waiting := callerOf codes f.encode :: s.waiting, queue := f :: s.queue } := by
  obtain ⟨base, hwindow⟩ := h.window
  obtain ⟨batch, hbatch, hcalls, hload⟩ := h.calls
  have hmiddle : (batch ++ f :: s.queue).Perm (f :: (batch ++ s.queue)) := List.perm_middle
  refine ⟨h.venus, h.stop_lt, h.kept, h.running, h.routed, h.window, ?_, batch, hbatch, ?_, ?_⟩
  · intro t ht
    rcases List.mem_cons.mp ht with rfl | ht
    · exact hlive
    · exact h.live t ht
  · intro g hg
    rcases List.mem_cons.mp (hmiddle.subset hg) with rfl | hg
    · exact hcall
    · exact hcalls g hg
  · intro w
    refine Outstanding.perm ?_ (load_perm hmiddle)
    rw [load_cons]
    by_cases hw : callerWorker (callerOf codes f.encode) = w
    · have hnil : load codes (batch ++ s.queue) s.venus w = [] := by
        refine List.eq_nil_iff_forall_not_mem.mpr (fun t ht => hfree ?_)
        have hwaits := (hload w).waits t ht
        have hsame := callerWorker_inj hwindow (h.live t hwaits) hlive
          (((hload w).routed t ht).trans hw.symm)
        exact hsame ▸ hwaits
      rw [if_pos hw, hnil]
      exact ⟨le_rfl, by simp, by simpa using hw⟩
    · rw [if_neg hw]
      exact (hload w).mono (fun t _ ht => List.mem_cons_of_mem _ ht)

lemma SystemInv.deliver (h : SystemInv codes s) {mem : Memory} {batch rest : List Frame}
    (hbuf : buf + bufSize < 2 ^ 32) (hperm : (batch ++ rest).Perm s.queue)
    (hread : mem.read buf (frameStream.encodeAll batch).length = frameStream.encodeAll batch)
    (ht : DispatcherTurn codes buf s.venus v (.ioctl mem (frameStream.encodeAll batch).length)) :
    SystemInv codes { s with venus := v, queue := rest } := by
  have hv := h.venus.dispatcher ht
  obtain ⟨hd, hfits, rfl⟩ := ht
  obtain ⟨old, hold, hcalls, hload⟩ := h.calls
  have hnil : old = [] := by
    unfold Venus.Ahead at hold
    rw [hd] at hold
    exact hold
  subst hnil
  refine ⟨hv, ?_, h.kept, h.running, h.routed, h.window, h.live, batch, ?_, ?_, fun w => ?_⟩
  · dsimp only
    omega
  · exact ⟨Nat.le_add_right _ _, by rw [Nat.add_sub_cancel_left]; exact hread⟩
  · exact fun f hf => hcalls f (hperm.subset hf)
  · rw [load_congr (s := s.venus) (batch ++ rest)]
    · exact (hload w).perm (load_perm hperm)
    · rw [inHand_of_postingTo_none rfl, inHand_of_postingTo_none (by rw [hd]; rfl)]
    · rfl

/-- At a whole upcall of a client the dispatcher passes its check, and routes the upcall to the
worker of the caller. -/
lemma turn_at_call {s v : Venus} {ptr : ℕ} {f : Frame} {batch : List Frame}
    (hcall : ClientCall codes f) (hd : s.dispatcher = .scanning ptr) (hstop : s.stop < 2 ^ 32)
    (hle : ptr ≤ s.stop)
    (hread : s.mem.read ptr (s.stop - ptr) = frameStream.encodeAll (f :: batch))
    (ht : DispatcherTurn codes buf s v .turn) :
    findWorker codes ⟨s.mem, ptr⟩ = some (callerWorker (callerOf codes f.encode)) ∧
      (Upcall.mk s.mem ptr).copy = f.encode ∧
      v = s.accept ⟨s.mem, ptr⟩ (.posting .locking ptr (callerWorker (callerOf codes f.encode))) ∧
      v.Ahead batch := by
  rw [StreamCode.encodeAll_cons, frameStream_encode] at hread
  obtain ⟨hlen, hsize, hnext⟩ := Upcall.next_of_read_frame hread (by omega)
  have htail := (Memory.read_of_append hread).2
  rw [Frame.length_encode] at htail
  have hfind := findWorker_of_call hcall hread
  have hcopy : (Upcall.mk s.mem ptr).copy = f.encode := by
    rw [Upcall.copy, hsize]
    exact (Upcall.of_read_frame hread).2.2
  have hpos := f.size_pos
  obtain ⟨ptr', hd', hcases⟩ := ht
  rw [hd] at hd'
  cases hd'
  rcases hcases with ⟨hge, -⟩ | ⟨-, hbad, -⟩ | ⟨-, -, ⟨hnone, -⟩ | ⟨w, hw, rfl⟩⟩
  · omega
  · omega
  · rw [hfind] at hnone
    cases hnone
  · rw [hfind] at hw
    cases hw
    refine ⟨hfind, hcopy, rfl, ?_, ?_⟩ <;> simp only [Venus.accept, hnext]
    · omega
    · rw [show s.stop - (ptr + f.size) = (frameStream.encodeAll batch).length by omega]
      exact htail

/-- The loop test and the check of the frame: the dispatcher is at the end of its batch, or at a
whole upcall of a client. -/
lemma SystemInv.turn (h : SystemInv codes s) (ht : DispatcherTurn codes buf s.venus v .turn) :
    SystemInv codes { s with venus := v } := by
  have hv := h.venus.dispatcher ht
  obtain ⟨ptr, hd, hcases⟩ := id ht
  obtain ⟨batch, hbatch, hcalls, hload⟩ := h.calls
  have haway : ∀ w, s.venus.dispatcher.postingTo w = none := fun w => by rw [hd]; rfl
  have hunread := hbatch
  unfold Venus.Ahead at hunread
  rw [hd] at hunread
  obtain ⟨hle, hread⟩ := hunread
  cases batch with
  | nil =>
    have hend : s.venus.stop - ptr = 0 := by
      have hlen := congrArg List.length hread
      simpa using hlen
    rcases hcases with ⟨-, rfl⟩ | ⟨hlt, -⟩ | ⟨hlt, -⟩
    · refine h.quiet hv rfl rfl (fun w => ⟨rfl, rfl⟩) (fun w => ?_) (fun batch hold => ?_)
      · rw [inHand_of_postingTo_none rfl, inHand_of_postingTo_none (haway w)]
      · unfold Venus.Ahead at hold ⊢
        rw [hd] at hold
        obtain ⟨-, hall⟩ := hold
        rw [hend, Memory.read_zero] at hall
        exact frameStream.eq_nil_of_encodeAll hall.symm
    · omega
    · omega
  | cons f batch =>
    obtain ⟨hfind, hcopy, rfl, hahead⟩ :=
      turn_at_call (hcalls f (List.mem_cons_self ..)) hd h.stop_lt hle hread ht
    refine ⟨hv, h.stop_lt, h.kept, h.running, ?_, h.window, h.live, batch, hahead, ?_, ?_⟩
    · intro p hp
      rcases List.mem_append.mp hp with hp | hp
      · exact h.routed p hp
      · rw [List.mem_singleton.mp hp]
        exact ⟨_, hfind⟩
    · exact fun g hg => hcalls g (List.mem_cons_of_mem _ hg)
    · intro w
      refine (hload w).perm ?_
      rw [List.cons_append, load_cons]
      have hhand := inHand_of_postingTo_none (haway w)
      by_cases hw : callerWorker (callerOf codes f.encode) = w
      · subst hw
        rw [if_pos rfl, load, load, hhand, inHand_posting hv rfl (.inl rfl)]
        simp only [Venus.accept, hcopy, List.nil_append, List.map_append, List.map_cons,
          List.singleton_append]
        exact List.perm_middle
      · rw [if_neg hw, load_congr (s := s.venus)]
        · exact List.Perm.refl _
        · rw [hhand, inHand_of_postingTo_none (postingTo_of_ne (Ne.symm hw))]
        · rfl

/-- At most one caller waits for a worker, so its mailbox is empty when `post_upcall` comes. -/
lemma SystemInv.slot_eq_none (h : SystemInv codes s) {p : PostPhase} {ptr : ℕ} {w : Fin workerNum}
    (hd : s.venus.dispatcher = .posting p ptr w) (hp : p = .locking ∨ p = .storing) :
    (s.venus.cells w).mailbox.slot = none := by
  obtain ⟨batch, -, -, hload⟩ := h.calls
  have hsingle := (hload w).single
  rw [load, inHand_posting h.venus hd hp] at hsingle
  cases hslot : (s.venus.cells w).mailbox.slot with
  | none => rfl
  | some x =>
    rw [Cell.pending, hslot] at hsingle
    simp only [List.length_append, List.length_map, List.length_cons, Option.toList_some] at hsingle
    omega

/-- A worker with an upcall in its mailbox has answered the one before. -/
lemma SystemInv.unanswered_eq_nil (h : SystemInv codes s) {w : Fin workerNum}
    (hslot : (s.venus.cells w).mailbox.slot ≠ none) : (s.venus.cells w).unanswered = [] := by
  obtain ⟨x, hx⟩ := Option.ne_none_iff_exists'.mp hslot
  obtain ⟨batch, -, -, hload⟩ := h.calls
  have hsingle := (hload w).single
  rw [load, Cell.pending, hx] at hsingle
  simp only [List.length_append, List.length_map, Option.toList_some, List.length_singleton]
    at hsingle
  exact List.length_eq_zero_iff.mp (by omega)

lemma SystemInv.store (h : SystemInv codes s) (ht : DispatcherTurn codes buf s.venus v .store) :
    SystemInv codes { s with venus := v } := by
  have hv := h.venus.dispatcher ht
  obtain ⟨ptr, w, hd, rfl⟩ := ht
  have hslot := h.slot_eq_none hd (.inr rfl)
  obtain ⟨batch, hbatch, hcalls, hload⟩ := h.calls
  refine ⟨hv, h.stop_lt, fun w' => ?_, fun w' => ?_, h.routed, h.window, h.live, batch, ?_, hcalls,
    fun w' => ?_⟩
  · by_cases hw : w' = w
    · subst hw
      simp [Mailbox.put, hslot, h.kept w']
    · rw [Venus.post_cells_of_ne _ _ _ hw]
      exact h.kept w'
  · by_cases hw : w' = w
    · subst hw
      simpa using h.running w'
    · rw [Venus.post_cells_of_ne _ _ _ hw]
      exact h.running w'
  · unfold Venus.Ahead at hbatch ⊢
    rw [hd] at hbatch
    exact hbatch
  · by_cases hw : w' = w
    · subst hw
      -- the upcall goes from the hands of the dispatcher into the mailbox
      have hhand := inHand_posting h.venus hd (.inr rfl)
      have hold := hload w'
      rw [load, hhand, Cell.pending, hslot] at hold
      simpa [load, Venus.inHand, Venus.post, Venus.setCell, postingTo_posting, Cell.pending,
        Cell.unanswered, Mailbox.put] using hold
    · rw [load_congr (s := s.venus)]
      · exact hload w'
      · rw [inHand_of_postingTo_none (postingTo_of_ne hw),
          inHand_of_postingTo_none (by rw [hd, postingTo_of_ne hw])]
      · rw [Venus.post_cells_of_ne _ _ _ hw]

/-- A step of `post_upcall` on the mutex or the condition variable. -/
lemma SystemInv.post_monitor (h : SystemInv codes s) {p : PostPhase} {ptr : ℕ} {w : Fin workerNum}
    (hd : s.venus.dispatcher = .posting p ptr w) {next : DispatcherPhase} {m : Monitor Party}
    (hv : VenusInv codes (s.venus.post next w { s.venus.cells w with monitor := m }))
    (hnext : next = .scanning (Upcall.mk s.venus.mem ptr).next ∧ p = .unlocking ∨
      ∃ p', next = .posting p' ptr w ∧
        (p' = .locking ∨ p' = .storing ↔ p = .locking ∨ p = .storing)) :
    SystemInv codes
      { s with venus := s.venus.post next w { s.venus.cells w with monitor := m } } := by
  refine h.quiet hv rfl rfl (fun w' => ?_) (fun w' => ?_) (fun batch hold => ?_)
  · by_cases hw : w' = w
    · subst hw
      simp
    · simp [Venus.post_cells_of_ne _ _ _ hw]
  · rcases hnext with ⟨rfl, rfl⟩ | ⟨p', rfl, hp⟩
    · rw [inHand_of_postingTo_none rfl]
      by_cases hw : w' = w
      · subst hw
        simp [Venus.inHand, hd, postingTo_posting]
      · rw [inHand_of_postingTo_none (by rw [hd, postingTo_of_ne hw])]
    · by_cases hw : w' = w
      · subst hw
        simp only [Venus.inHand, hd, Venus.post, Venus.setCell, postingTo_posting,
          Option.some.injEq, hp]
      · rw [inHand_of_postingTo_none (postingTo_of_ne hw),
          inHand_of_postingTo_none (by rw [hd, postingTo_of_ne hw])]
  · unfold Venus.Ahead at hold ⊢
    rw [hd] at hold
    rcases hnext with ⟨rfl, -⟩ | ⟨p', rfl, -⟩ <;> exact hold

lemma SystemInv.dispatcher (h : SystemInv codes s) {a : DispatcherAct}
    (ha : ∀ mem n, a ≠ .ioctl mem n) (ht : DispatcherTurn codes buf s.venus v a) :
    SystemInv codes { s with venus := v } := by
  have hv := h.venus.dispatcher ht
  cases a with
  | ioctl mem n => exact absurd rfl (ha mem n)
  | ioctlFails =>
    obtain ⟨hd, rfl⟩ := ht
    refine h.quiet hv rfl rfl (fun w => ⟨rfl, rfl⟩) (fun w => ?_) (fun batch hold => ?_)
    · rw [inHand_of_postingTo_none rfl, inHand_of_postingTo_none (by rw [hd]; rfl)]
    · unfold Venus.Ahead at hold ⊢
      rw [hd] at hold
      exact hold
  | turn => exact h.turn ht
  | lock =>
    obtain ⟨ptr, w, hd, -, rfl⟩ := ht
    exact h.post_monitor hd hv (.inr ⟨_, rfl, by simp⟩)
  | store => exact h.store ht
  | signal pick =>
    obtain ⟨ptr, w, hd, -, -, rfl⟩ := ht
    exact h.post_monitor hd hv (.inr ⟨_, rfl, by simp⟩)
  | unlock =>
    obtain ⟨ptr, w, hd, -, rfl⟩ := ht
    exact h.post_monitor hd hv (.inl ⟨rfl, rfl⟩)

/-- A downcall takes the only caller of its worker out of the load and out of the waiting ones. -/
lemma outstanding_downcall {s : Venus} {frames : List Frame} {waiting : List (Option ℕ)}
    (hload : ∀ w, Outstanding waiting w (load codes frames s w)) {w : Fin workerNum} {u : Work}
    (hphase : (s.cells w).phase = .handling u false) (w' : Fin workerNum) :
    Outstanding (waiting.erase (callerOf codes u.2)) w'
      (load codes frames (s.setCell w { s.cells w with phase := .handling u true }) w') := by
  have hold := load_downcall codes frames hphase
  by_cases hw : w' = w
  · subst hw
    have hsingle := (hload w').single
    rw [hold, List.length_append, List.length_singleton] at hsingle
    rw [List.length_eq_zero_iff.mp (Nat.le_zero.mp (Nat.le_of_succ_le_succ hsingle))]
    exact Outstanding.nil
  · have hcaller := (hload w).routed (callerOf codes u.2) (by rw [hold]; simp)
    rw [load_setCell _ (by rw [Venus.setCell_cells_of_ne _ _ hw])]
    refine (hload w').mono (fun t hmem hwaits => ?_)
    have hne : t ≠ callerOf codes u.2 := by
      rintro rfl
      exact hw (((hload w').routed _ hmem).symm.trans hcaller)
    exact (List.mem_erase_of_ne hne).mpr hwaits

/-- The actions of a worker other than the downcall change no load. -/
lemma SystemInv.worker (h : SystemInv codes s) {w : Fin workerNum} {c : Cell} {a : WorkerAct}
    {waiting : List (Option ℕ)} (ht : WorkerTurn (s.venus.cells w) c a)
    (hret : ∀ r, a = .ret r → r = 0 ∧ ∃ u, (s.venus.cells w).phase = .handling u true)
    (hdown : ∀ u, a = .downcall → (s.venus.cells w).phase = .handling u false →
      waiting = s.waiting.erase (callerOf codes u.2))
    (hsame : a ≠ .downcall → waiting = s.waiting) :
    SystemInv codes { s with venus := s.venus.setCell w c, waiting := waiting } := by
  have hv := h.venus.worker ht
  obtain ⟨batch, hbatch, hcalls, hload⟩ := h.calls
  have hsub : ∀ t ∈ waiting, t ∈ s.waiting := by
    intro t hmem
    by_cases ha : a = .downcall
    · subst ha
      obtain ⟨u, hphase, -⟩ := ht
      rw [hdown u rfl hphase] at hmem
      exact List.mem_of_mem_erase hmem
    · exact hsame ha ▸ hmem
  refine ⟨hv, h.stop_lt, fun w' => ?_, fun w' => ?_, h.routed, h.window,
    fun t hmem => h.live t (hsub t hmem), batch, hbatch, hcalls, fun w' => ?_⟩
  · by_cases hw : w' = w
    · subst hw
      rw [Venus.setCell_cells_self, ht.replaced]
      exact h.kept w'
    · rw [Venus.setCell_cells_of_ne _ _ hw]
      exact h.kept w'
  · by_cases hw : w' = w
    · subst hw
      rw [Venus.setCell_cells_self]
      exact ht.not_exited (fun r hr => (hret r hr).1)
    · rw [Venus.setCell_cells_of_ne _ _ hw]
      exact h.running w'
  · by_cases ha : a = .downcall
    · subst ha
      obtain ⟨u, hphase, rfl⟩ := ht
      dsimp only
      rw [hdown u rfl hphase]
      exact outstanding_downcall hload hphase w'
    · have hpending : ((s.venus.setCell w c).cells w').pending = (s.venus.cells w').pending := by
        by_cases hw : w' = w
        · subst hw
          rw [Venus.setCell_cells_self]
          exact ht.pending ha (fun r hr => (hret r hr).2)
        · rw [Venus.setCell_cells_of_ne _ _ hw]
      dsimp only
      rw [hsame ha, load_setCell _ hpending]
      exact hload w'

theorem systemInv_step (hbuf : buf + bufSize < 2 ^ 32) {s' : ClientSystem} {l : ClientAct}
    (h : SystemInv codes s) (hs : s.step codes buf l = some s') : SystemInv codes s' := by
  have ht := clientStep_turn hs
  cases l with
  | spawn handle base =>
    obtain ⟨hwindow, rfl⟩ := ht
    exact h.spawn hwindow
  | exit handle =>
    obtain ⟨hfree, rfl⟩ := ht
    exact h.exit hfree
  | issue f =>
    obtain ⟨hcall, hfree, hlive, rfl⟩ := ht
    exact h.issue hcall hfree hlive
  | deliver mem batch rest =>
    obtain ⟨hperm, hread, v, hv, rfl⟩ := ht
    exact h.deliver hbuf hperm hread hv
  | dispatcher a =>
    obtain ⟨ha, v, hv, rfl⟩ := ht
    exact h.dispatcher ha hv
  | worker w a =>
    obtain ⟨c, waiting, hc, hret, hdown, hsame, rfl⟩ := ht
    exact h.worker hc hret hdown hsame

theorem systemInv_reaches (hbuf : buf + bufSize < 2 ^ 32) {junk : Memory} {ls : List ClientAct}
    (h : (clientMachine codes buf junk).Reaches ls s) : SystemInv codes s := by
  refine (clientMachine codes buf junk).invariant ?_ (fun _ _ _ => systemInv_step hbuf) h
  refine ⟨venusInv_start codes buf junk, lt_of_le_of_lt (Nat.le_add_right _ _) hbuf, fun _ => rfl,
    ?_, fun _ hp => (by cases hp), ⟨0, by simp [InWindow, clientMachine]⟩,
    fun _ hmem => (by cases hmem), [], rfl, fun _ hf => (by cases hf), fun _ => Outstanding.nil⟩
  intro w
  simp [clientMachine, venusMachine, Cell.idle]

end Invariant

end ExpressOS
