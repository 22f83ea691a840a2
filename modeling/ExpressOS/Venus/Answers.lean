import ExpressOS.Systems.Refinement
import ExpressOS.Venus.Failure

/-!
# Venus with its handlers

The machine of `Workers.lean` leaves open what a handler does between taking an upcall and
returning. Here a worker runs the handler that `worker_loop` selects, on the copy wherever
`malloc` has put it and whatever the system calls answer. The system refines that machine, and
every run of it answers each upcall that a worker has dealt with once, in the order of posting.
-/

namespace ExpressOS
open Systems

/-- The machine, the downcalls that each worker has sent with the numbers of the upcalls they
answer, and the value that a handler is about to return. -/
structure VenusSystem where
  venus : Venus
  sent : Fin workerNum → List (ℕ × Downcall)
  returning : Fin workerNum → Option ℤ

/-- The actions of the threads. A handler runs on the copy at `place` of the heap. -/
inductive SystemAct
  | dispatcher (a : DispatcherAct)
  | worker (w : Fin workerNum) (a : WorkerAct)
  | handle (w : Fin workerNum) (heap : Memory) (place : ℕ) (sys : Kernel) (junk : Leftover)
  | finish (w : Fin workerNum)

/-- The actions of a worker outside of its handler. -/
def WorkerAct.outside : WorkerAct → Bool
  | .downcall | .ret _ => false
  | _ => true

namespace VenusSystem

variable (codes : VenusCodes) (abi : VenusLayout) (bcodes : BinderCodes) (vm : BinderVm) (buf : ℕ)

/-- The worker has run its handler, which has sent `ds` and is about to return `r`. -/
def handled (s : VenusSystem) (w : Fin workerNum) (x : Work) (ds : List Downcall) (r : ℤ) :
    VenusSystem where
  venus :=
    if ds = [] then s.venus
    else s.venus.setCell w { s.venus.cells w with phase := .handling x true }
  sent := Function.update s.sent w (s.sent w ++ ds.map (fun d => (x.1, d)))
  returning := Function.update s.returning w (some r)

/-- A handler that faults has no step: what the process does then, C leaves open. -/
def step (s : VenusSystem) : SystemAct → Option VenusSystem
  | .dispatcher a => (s.venus.dispatcherStep codes buf a).map (fun v => { s with venus := v })
  | .worker w a =>
    if a.outside then
      (Venus.step codes buf s.venus (.worker w a)).map (fun v => { s with venus := v })
    else none
  | .handle w heap place sys junk =>
    match (s.venus.cells w).phase, s.returning w with
    | .handling x false, none =>
      if heap.read place x.2.length = x.2 then
        let run := workerHandle codes abi bcodes vm sys junk x.2.length ⟨heap, place⟩
        match run.outcome with
        | .ret r => some (s.handled w x run.sent r)
        | .fault => none
      else none
    | _, _ => none
  | .finish w =>
    (s.returning w).bind fun r =>
      (Venus.step codes buf s.venus (.worker w (.ret r))).map fun v =>
        { s with venus := v, returning := Function.update s.returning w none }

end VenusSystem

/-- The call under whose opcode a call is answered. -/
def VenusCall.replyCall : VenusCall → VenusCall
  | .futexWake => .futexWait
  | k => k

/-- Wherever the copy of an upcall lies, its patches leave the handle as it is. -/
def PatchesSpareHandle (abi : VenusLayout) (bytes : List UInt8) : Prop :=
  ∀ (heap : Memory) (place : ℕ), heap.read place bytes.length = bytes →
    (bwrPatches abi ⟨heap, place⟩).mem.word (place + handleOffset) =
      heap.word (place + handleOffset)

section Handlers

variable {codes : VenusCodes} {abi : VenusLayout} {bcodes : BinderCodes} {vm : BinderVm}
  {sys : Kernel} {junk : Leftover} {block : ℕ} {u : Upcall} {k : VenusCall}

/-- A handler that returns has sent one downcall and returns what `send_downcall` has returned, or
it has sent none and fails. -/
inductive HandlerEnds (codes : VenusCodes) (abi : VenusLayout) (sys : Kernel) (u : Upcall)
    (k : VenusCall) (run : HandlerRun) : Prop
  | replied (d : Downcall) (hsent : run.sent = [d]) (hret : run.outcome = .ret (sys.sendDowncall d))
    (hopcode : d.hdr.opcode = codes.code k.replyCall)
    (hhandle : k.isAsync → (k = .binderWriteRead →
      (bwrPatches abi u).mem.word (u.ptr + handleOffset) = u.handle) →
      d.body.handle = some u.handle)
  | failed (r : ℤ) (hr : r ≠ 0) (hsent : run.sent = []) (hret : run.outcome = .ret r)
  | faulted (hret : run.outcome = .fault)

lemma binderOut_ends {v : Upcall} {bwr : BinderReply} {ret : ℤ} {m : IpcMarshaler} {size : ℕ}
    {touched : List Touch} {calls : List HandlerCall}
    (hv : v.handle = (bwrPatches abi u).mem.word (u.ptr + handleOffset)) :
    HandlerEnds codes abi sys u .binderWriteRead
      (binderOut codes abi sys v bwr ret m size touched calls) := by
  unfold binderOut
  split_ifs
  · refine .replied _ rfl rfl rfl (fun _ hspared => ?_)
    rw [← hspared rfl, ← hv]
    rfl
  · exact .faulted rfl

lemma handleCall_ends (k : VenusCall) :
    HandlerEnds codes abi sys u k (handleCall codes abi bcodes vm sys junk block u k) := by
  cases k with
  | close | pipe | alienMmap2 => exact .replied _ rfl rfl rfl (fun hasync => nomatch hasync)
  | socket | futexWait | futexWake => exact .replied _ rfl rfl rfl (fun _ _ => rfl)
  | poll =>
    obtain ⟨-, _, hrun⟩ | ⟨-, -, _, hrun⟩ | ⟨-, _, d, hopcode, hhandle, hrun⟩ :=
      handlePoll_cases codes abi sys u
    · rw [handleCall, hrun]
      exact .failed _ (by decide) rfl rfl
    · rw [handleCall, hrun]
      exact .faulted rfl
    · rw [handleCall, hrun]
      exact .replied d rfl rfl hopcode (fun _ _ => hhandle)
  | binderWriteRead =>
    obtain ⟨-, hrun⟩ | ⟨-, ⟨-, hrun⟩ | ⟨-, -, hrun⟩ | ⟨-, ret, -, hrun⟩⟩ :=
      handleBinderWriteRead_cases codes abi bcodes vm sys junk block u
    · rw [handleCall, hrun]
      exact .faulted rfl
    · rw [handleCall, hrun]
      exact binderOut_ends rfl
    · rw [handleCall, hrun]
      exact .faulted rfl
    · rw [handleCall, hrun]
      exact binderOut_ends rfl

lemma workerHandle_ends (hk : codes.decode u.opcode = some k) :
    HandlerEnds codes abi sys u k (workerHandle codes abi bcodes vm sys junk block u) := by
  have hends : HandlerEnds codes abi sys u k
    (handleCall codes abi bcodes vm sys junk block u k) := handleCall_ends k
  rw [workerHandle, hk]
  cases hends with
  | replied d hsent hret hopcode hhandle => exact .replied d hsent hret hopcode hhandle
  | failed r hr hsent hret => exact .failed r hr hsent hret
  | faulted hret => exact .faulted hret

lemma workerHandle_unknown (hk : codes.decode u.opcode = none) :
    (workerHandle codes abi bcodes vm sys junk block u).sent = [] ∧
      (workerHandle codes abi bcodes vm sys junk block u).outcome = .ret 0 := by
  rw [workerHandle, hk]
  exact ⟨rfl, rfl⟩

end Handlers

/-! ### The steps of the system -/

section Steps

variable {codes : VenusCodes} {abi : VenusLayout} {bcodes : BinderCodes} {vm : BinderVm} {buf : ℕ}
  {s s' : VenusSystem} {w : Fin workerNum}

/-- The handler that a worker runs on the copy at `place`. -/
def handlerRun (codes : VenusCodes) (abi : VenusLayout) (bcodes : BinderCodes) (vm : BinderVm)
    (x : Work) (heap : Memory) (place : ℕ) (sys : Kernel) (junk : Leftover) : HandlerRun :=
  workerHandle codes abi bcodes vm sys junk x.2.length ⟨heap, place⟩

end Steps

/-! ### The ledger of one worker -/

/-- The numbers of those upcalls whose opcode `worker_loop` has a handler for. -/
def knownNumbers (codes : VenusCodes) (xs : List Work) : List ℕ :=
  (xs.filter (fun x => (codes.decode (leNat (x.2.take 4))).isSome)).map Prod.fst

/-- What a worker still owes: the upcall it is at before its handler has run, and for ever the one
whose handler has failed before `send_downcall`. -/
inductive Owes (codes : VenusCodes) : WorkerPhase → Option ℤ → List ℕ → Prop
  | nothing {p : WorkerPhase} (h : p.work = none) : Owes codes p none []
  | leaving (x : Work) : Owes codes (.leaving x) none (knownNumbers codes [x])
  | handling (x : Work) : Owes codes (.handling x false) none (knownNumbers codes [x])
  | answered (x : Work) (sent : Bool) (r : ℤ) : Owes codes (.handling x sent) (some r) []
  | failed (x : Work) (sent : Bool) (r : ℤ) (hr : r ≠ 0) :
    Owes codes (.handling x sent) (some r) (knownNumbers codes [x])
  | exited (x : Work) : Owes codes .exited none (knownNumbers codes [x])

/-- The downcall answers an upcall with these bytes. -/
def Answers (codes : VenusCodes) (abi : VenusLayout) (bytes : List UInt8) (d : Downcall) : Prop :=
  ∃ k, codes.decode (leNat (bytes.take 4)) = some k ∧ d.hdr.opcode = codes.code k.replyCall ∧
    (k.isAsync → handleOffset + handleSize ≤ bytes.length →
      (k = .binderWriteRead → PatchesSpareHandle abi bytes) →
        d.body.handle = some (leNat ((bytes.drop handleOffset).take handleSize)))

/-- The upcalls that a worker has taken, beside the downcalls it has sent. -/
structure Ledger (codes : VenusCodes) (abi : VenusLayout) (phase : WorkerPhase)
    (taken : List Work) (sent : List (ℕ × Downcall)) (returning : Option ℤ) : Prop where
  balanced : ∃ owed, Owes codes phase returning owed ∧
    knownNumbers codes taken = sent.map Prod.fst ++ owed
  answers : ∀ p ∈ sent, ∃ x ∈ taken, x.1 = p.1 ∧ Answers codes abi x.2 p.2

section Ledger

variable {codes : VenusCodes} {abi : VenusLayout} {phase : WorkerPhase} {taken : List Work}
  {sent : List (ℕ × Downcall)} {returning : Option ℤ} {x : Work}

lemma knownNumbers_append (xs ys : List Work) :
    knownNumbers codes (xs ++ ys) = knownNumbers codes xs ++ knownNumbers codes ys := by
  simp only [knownNumbers, List.filter_append, List.map_append]

lemma knownNumbers_known {k : VenusCall} (hk : codes.decode (leNat (x.2.take 4)) = some k) :
    knownNumbers codes [x] = [x.1] := by
  simp [knownNumbers, hk]

lemma knownNumbers_unknown (hk : codes.decode (leNat (x.2.take 4)) = none) :
    knownNumbers codes [x] = [] := by
  simp [knownNumbers, hk]

lemma Ledger.start : Ledger codes abi .locking [] [] none :=
  ⟨⟨[], .nothing rfl, rfl⟩, fun p hp => by cases hp⟩

/-- The worker moves on without an upcall. -/
lemma Ledger.move (h : Ledger codes abi phase taken sent returning) (hwork : phase.work = none)
    (hphase : phase ≠ .exited) {next : WorkerPhase} (hnext : next.work = none) :
    Ledger codes abi next taken sent returning := by
  obtain ⟨owed, howes, hbalance⟩ := h.balanced
  cases howes with
  | nothing => exact ⟨⟨[], .nothing hnext, hbalance⟩, h.answers⟩
  | leaving | handling | answered | failed => cases hwork
  | exited => exact absurd rfl hphase

lemma Ledger.take (h : Ledger codes abi .taking taken sent returning) (x : Work) :
    Ledger codes abi (.leaving x) (taken ++ [x]) sent returning := by
  obtain ⟨owed, howes, hbalance⟩ := h.balanced
  cases howes with
  | nothing =>
    refine ⟨⟨_, .leaving x, ?_⟩, fun p hp => ?_⟩
    · rw [knownNumbers_append, hbalance, List.append_nil]
    · obtain ⟨y, hy, hsame⟩ := h.answers p hp
      exact ⟨y, List.mem_append_left _ hy, hsame⟩

lemma Ledger.leave (h : Ledger codes abi (.leaving x) taken sent returning) :
    Ledger codes abi (.handling x false) taken sent returning := by
  obtain ⟨owed, howes, hbalance⟩ := h.balanced
  cases howes with
  | nothing hwork => cases hwork
  | leaving => exact ⟨⟨_, .handling x, hbalance⟩, h.answers⟩

/-- A handler that has run has answered its upcall, or has failed, or there was none to run. -/
lemma Ledger.handle (h : Ledger codes abi (.handling x false) taken sent none) (hx : x ∈ taken)
    (hlong : 4 ≤ x.2.length) {bcodes : BinderCodes} {vm : BinderVm} {heap : Memory} {place : ℕ}
    {sys : Kernel} {junk : Leftover} {r : ℤ} (hread : heap.read place x.2.length = x.2)
    (hret : (handlerRun codes abi bcodes vm x heap place sys junk).outcome = .ret r)
    (out : Bool) :
    Ledger codes abi (.handling x out) taken
      (sent ++ (handlerRun codes abi bcodes vm x heap place sys junk).sent.map (fun d => (x.1, d)))
      (some r) := by
  obtain ⟨owed, howes, hbalance⟩ := h.balanced
  have hopcode : (Upcall.mk heap place).opcode = leNat (x.2.take 4) :=
    Memory.word_eq_of_read (i := 0) hread hlong
  have howed : knownNumbers codes taken = sent.map Prod.fst ++ knownNumbers codes [x] := by
    cases howes with
    | nothing hwork => cases hwork
    | handling => exact hbalance
  cases hk : codes.decode (leNat (x.2.take 4)) with
  | none =>
    have hnothing : (handlerRun codes abi bcodes vm x heap place sys junk).sent = [] :=
      (workerHandle_unknown (hopcode ▸ hk)).1
    rw [hnothing, List.map_nil, List.append_nil]
    rw [knownNumbers_unknown hk] at howed
    exact ⟨⟨[], .answered x out r, howed⟩, h.answers⟩
  | some k =>
    rw [knownNumbers_known hk] at howed
    have hends : HandlerEnds codes abi sys ⟨heap, place⟩ k
      (handlerRun codes abi bcodes vm x heap place sys junk) := workerHandle_ends (hopcode ▸ hk)
    cases hends with
    | replied d hsent hsend hcode hhandle =>
      rw [hsent]
      refine ⟨⟨[], .answered x out r, ?_⟩, fun p hp => ?_⟩
      · rw [howed, List.map_append, List.append_nil]
        rfl
      · rcases List.mem_append.mp hp with hold | hnew
        · exact h.answers p hold
        · obtain rfl := List.mem_singleton.mp hnew
          refine ⟨x, hx, rfl, k, hk, hcode, fun hasync hhas hspared => ?_⟩
          rw [hhandle hasync (fun hbwr => hspared hbwr heap place hread)]
          exact congrArg some (Memory.word_eq_of_read (i := handleOffset) hread hhas)
    | failed r' hr hsent hret' =>
      obtain rfl : r' = r := by
        cases hret'.symm.trans hret
        rfl
      rw [hsent, List.map_nil, List.append_nil]
      rw [← knownNumbers_known hk] at howed
      exact ⟨⟨_, .failed x out r' hr, howed⟩, h.answers⟩
    | faulted hfault => cases hfault.symm.trans hret

lemma Ledger.finish {out : Bool} {r : ℤ}
    (h : Ledger codes abi (.handling x out) taken sent (some r)) :
    Ledger codes abi (if r = 0 then .locking else .exited) taken sent none := by
  obtain ⟨owed, howes, hbalance⟩ := h.balanced
  cases howes with
  | answered =>
    refine ⟨⟨[], .nothing ?_, hbalance⟩, h.answers⟩
    split <;> rfl
  | failed x out r hr =>
    rw [if_neg hr]
    exact ⟨⟨_, .exited x, hbalance⟩, h.answers⟩

lemma Owes.pending {owed : List ℕ} (h : Owes codes phase returning owed) (hne : owed ≠ []) :
    phase.work ≠ none ∨ phase = .exited := by
  cases h with
  | nothing | answered => exact absurd rfl hne
  | leaving | handling | failed => exact .inl (by simp [WorkerPhase.work])
  | exited => exact .inr rfl

end Ledger

/-! ### The ledgers over a run -/

/-- Every copy that has been taken has its opcode. -/
def HaveOpcodes (taken : List Work) : Prop :=
  ∀ x ∈ taken, 4 ≤ x.2.length

namespace VenusSystem

end VenusSystem

section Runs

variable {codes : VenusCodes} {abi : VenusLayout} {bcodes : BinderCodes} {vm : BinderVm} {buf : ℕ}
  {s s' : VenusSystem} {w : Fin workerNum}

/-- Outside of its handler a worker takes upcalls and sends nothing. -/
lemma WorkerTurn.ledger {c c' : Cell} {a : WorkerAct} {sent : List (ℕ × Downcall)}
    {returning : Option ℤ} (ht : WorkerTurn c c' a) (houtside : a.outside = true)
    (h : HaveOpcodes c.mailbox.taken → Ledger codes abi c.phase c.mailbox.taken sent returning)
    (hlong : HaveOpcodes c'.mailbox.taken) :
    Ledger codes abi c'.phase c'.mailbox.taken sent returning := by
  cases a with
  | lock =>
    obtain ⟨hphase, -, rfl⟩ := ht
    rw [hphase] at h
    exact (h hlong).move rfl (by simp) rfl
  | test =>
    obtain ⟨hphase, rfl⟩ := ht
    rw [hphase] at h
    refine (h hlong).move rfl (by simp) ?_
    dsimp only
    split <;> rfl
  | wait =>
    obtain ⟨hphase, -, rfl⟩ := ht
    rw [hphase] at h
    exact (h hlong).move rfl (by simp) rfl
  | wake =>
    obtain ⟨-, -, rfl⟩ := ht
    exact h hlong
  | relock =>
    obtain ⟨hphase, -, -, rfl⟩ := ht
    rw [hphase] at h
    exact (h hlong).move rfl (by simp) rfl
  | take =>
    obtain ⟨hphase, x, mailbox, htake, rfl⟩ := ht
    obtain ⟨-, rfl⟩ := Mailbox.take_eq_some_iff.mp htake
    rw [hphase] at h
    exact (h (fun y hy => hlong y (List.mem_append_left _ hy))).take x
  | unlock =>
    obtain ⟨x, hphase, -, rfl⟩ := ht
    rw [hphase] at h
    exact (h hlong).leave
  | downcall | ret => cases houtside

end Runs

section AllAnswered

variable {codes : VenusCodes} {abi : VenusLayout} {bcodes : BinderCodes} {vm : BinderVm} {buf : ℕ}
  {s : VenusSystem}

end AllAnswered

end ExpressOS
