import ExpressOS.Venus.Replies
import ExpressOS.Venus.Workers

/-!
# Batches of whole upcalls

What the inner loop of `dispatcher_loop` does with a buffer that holds nothing but whole upcalls,
first as a loop on its own and then inside the machine, where the workers take their steps between
those of the loop.
-/

namespace ExpressOS
open Systems

section Loop

variable {mem : Memory} {ptr n : ℕ}

lemma map_framePositions {fs : List Frame} (hread : mem.read ptr n = frameStream.encodeAll fs)
    (hfits : ptr + n < 2 ^ 32) :
    (framePositions ptr fs).map
        (fun q => ((Upcall.mk mem q.1).opcode, (Upcall.mk mem q.1).copy)) =
      fs.map (fun f => (f.opcode, f.encode)) := by
  induction fs generalizing ptr n with
  | nil => rfl
  | cons f fs ih =>
    rw [StreamCode.encodeAll_cons, frameStream_encode] at hread
    obtain ⟨hopcode, -, hframe⟩ := Upcall.of_read_frame hread
    obtain ⟨hlen, hsize, -⟩ := Upcall.next_of_read_frame hread hfits
    have htail := (Memory.read_of_append hread).2
    rw [Frame.length_encode] at htail
    have hcopy : (Upcall.mk mem ptr).copy = f.encode := by
      rw [Upcall.copy, hsize]
      exact hframe
    rw [framePositions, List.map_cons, List.map_cons, ih htail (by omega), hopcode, hcopy]

lemma map_copy_framePositions {fs : List Frame}
    (hread : mem.read ptr n = frameStream.encodeAll fs) (hfits : ptr + n < 2 ^ 32) :
    (framePositions ptr fs).map (fun q => (Upcall.mk mem q.1).copy) = fs.map Frame.encode := by
  have hcopies := congrArg (List.map Prod.snd) (map_framePositions hread hfits)
  simpa [Function.comp_def] using hcopies

lemma dispatchLoop_of_ended {stop turns : ℕ}
    (hended : (dispatchLoop mem stop turns ptr).result ≠ none) (more : ℕ) :
    dispatchLoop mem stop (turns + more) ptr = dispatchLoop mem stop turns ptr := by
  induction turns generalizing ptr with
  | zero => exact absurd rfl hended
  | succ turns ih =>
    rw [show turns + 1 + more = turns + more + 1 by omega]
    rw [dispatchLoop] at hended ⊢
    rw [dispatchLoop]
    dsimp only at hended ⊢
    split_ifs at hended ⊢ with hlt hbad
    · rfl
    · rw [ih hended]
    · rfl

end Loop

/-- What is asked of the inner loop on a buffer that holds the frames `fs`. -/
structure BatchDelivered (codes : VenusCodes) (mem : Memory) (fs : List Frame)
    (run : DispatchRun) : Prop where
  ends : run.result = some .again
  posted : run.accepted.map (fun q => (Upcall.mk mem q.1).copy) = fs.map Frame.encode
  routed : ∀ q ∈ run.accepted, (findWorker codes ⟨mem, q.1⟩).isSome = true

lemma findWorker_isSome {codes : VenusCodes} {u : Upcall} (h : u.opcode < codes.callCount) :
    (findWorker codes u).isSome = true := by
  rw [findWorker, if_neg (not_le.mpr h)]
  split_ifs <;> rfl

lemma framingLoop_whole {mem : Memory} {buf consumed : ℕ} {fs : List Frame}
    (hfits : buf + bufSize < 2 ^ 32) (hconsumed : consumed ≤ bufSize)
    (hread : mem.read buf consumed = frameStream.encodeAll fs) {turns : ℕ}
    (hturns : fs.length < turns) :
    framingLoop mem buf consumed turns =
      DispatchRun.after ⟨[], [], some .again⟩ (framePositions buf fs) := by
  have hsum : buf + consumed < 2 ^ 32 := by omega
  have hread' : mem.read buf consumed = frameStream.encodeAll fs ++ [] := by
    rw [hread, List.append_nil]
  have hrun := dispatchLoop_frames hread' hsum (turns - fs.length)
  have hend : dispatchLoop mem (buf + consumed) (turns - fs.length) (buf + consumed) =
      ⟨[], [], some .again⟩ := by
    rw [show turns - fs.length = (turns - fs.length - 1) + 1 by omega, dispatchLoop,
      if_neg (lt_irrefl _)]
  rw [List.length_nil, Nat.sub_zero, hend, show fs.length + (turns - fs.length) = turns by omega]
    at hrun
  exact hrun

/-- A buffer of whole upcalls, however many and of whatever sizes: each of them goes to
`post_upcall` once, in order, the copy is the upcall and nothing else, and the loop ends without a
complaint. -/
theorem batch_delivered {codes : VenusCodes} {mem : Memory} {buf consumed : ℕ} {fs : List Frame}
    (hfits : buf + bufSize < 2 ^ 32) (hconsumed : consumed ≤ bufSize)
    (hread : mem.read buf consumed = frameStream.encodeAll fs)
    (hopcode : ∀ f ∈ fs, f.opcode < codes.callCount) {turns : ℕ} (hturns : fs.length < turns) :
    BatchDelivered codes mem fs (framingLoop mem buf consumed turns) := by
  have hsum : buf + consumed < 2 ^ 32 := by omega
  have hmap := map_framePositions hread hsum
  rw [framingLoop_whole hfits hconsumed hread hturns]
  refine ⟨rfl, ?_, fun q hq => ?_⟩
  · simpa [DispatchRun.after] using map_copy_framePositions hread hsum
  · have hq : q ∈ framePositions buf fs := by simpa [DispatchRun.after] using hq
    have hmem := List.mem_map_of_mem hq
      (f := fun q => ((Upcall.mk mem q.1).opcode, (Upcall.mk mem q.1).copy))
    rw [hmap] at hmem
    obtain ⟨f, hf, heq⟩ := List.mem_map.mp hmem
    apply findWorker_isSome
    rw [← (Prod.mk.inj heq).1]
    exact hopcode f hf

/-- Three upcalls: one without a payload, a `CLOSE`, and one whose payload looks like a header. -/
def sampleBatch : List Frame :=
  [⟨1, [], by decide, by decide⟩, ⟨0, [5, 0, 0, 0], by decide, by decide⟩,
    ⟨3, [0, 0, 0, 0, 4, 0, 0, 0], by decide, by decide⟩]

theorem sampleBatch_delivered :
    BatchDelivered sampleCodes (memoryOf (frameStream.encodeAll sampleBatch)) sampleBatch
      (framingLoop (memoryOf (frameStream.encodeAll sampleBatch)) 4096 36 4) :=
  batch_delivered (by decide) (by decide) (by decide +kernel) (by decide +kernel) (by decide)

/-- How an end of the loop shows in the machine. -/
def LoopEnd.phase : LoopEnd → DispatcherPhase
  | .again => .inIoctl
  | .ret _ => .returned

/-- Where the inner loop goes on from. -/
def DispatcherPhase.resume (d : DispatcherPhase) (mem : Memory) : Option ℕ :=
  match d with
  | .scanning ptr => some ptr
  | .posting _ ptr _ => some (Upcall.mk mem ptr).next
  | .inIoctl | .returned => none

def VenusAct.isIoctl : VenusAct → Prop
  | .dispatcher (.ioctl _ _) | .dispatcher .ioctlFails => True
  | _ => False

section Machine

variable {codes : VenusCodes} {buf : ℕ} {junk : Memory} {s s' : Venus} {ls : List VenusAct}

/-- A step within the inner loop changes nothing about the loop, or ends it, or accepts an
upcall. -/
lemma step_in_loop {l : VenusAct} {ptr : ℕ} (hs : s.step codes buf l = some s')
    (hl : ¬ l.isIoctl) (hptr : s.dispatcher.resume s.mem = some ptr) :
    s'.mem = s.mem ∧ s'.stop = s.stop ∧
      (s'.posted = s.posted ∧ s'.dispatcher.resume s.mem = some ptr ∨
        s'.posted = s.posted ∧ (∃ e, s'.dispatcher = e.phase ∧
          (dispatchLoop s.mem s.stop 1 ptr).result = some e ∧
          (dispatchLoop s.mem s.stop 1 ptr).accepted = []) ∨
        s'.posted = s.posted ++ [(s.posted.length, ⟨s.mem, ptr⟩)] ∧
          s'.dispatcher.resume s.mem = some (Upcall.mk s.mem ptr).next ∧
          ∀ turns, dispatchLoop s.mem s.stop (turns + 1) ptr =
            (dispatchLoop s.mem s.stop turns (Upcall.mk s.mem ptr).next).after
              [(ptr, (Upcall.mk s.mem ptr).next)]) := by
  cases l with
  | worker w a =>
    obtain ⟨c, -, rfl⟩ := Option.map_eq_some_iff.mp hs
    exact ⟨rfl, rfl, .inl ⟨rfl, hptr⟩⟩
  | dispatcher a =>
    have ht := dispatcherStep_turn hs
    cases a with
    | ioctl mem consumed => exact absurd trivial hl
    | ioctlFails => exact absurd trivial hl
    | turn =>
      obtain ⟨ptr', hd, hturn⟩ := ht
      rw [hd] at hptr
      cases hptr
      rcases hturn with ⟨hge, rfl⟩ | ⟨hlt, hbad, rfl⟩ | ⟨hlt, hgood, hturn⟩
      · refine ⟨rfl, rfl, .inr (.inl ⟨rfl, .again, rfl, ?_⟩)⟩
        simp [dispatchLoop, not_lt.mpr hge]
      · refine ⟨rfl, rfl, .inr (.inl ⟨rfl, .ret (-1), rfl, ?_⟩)⟩
        simp [dispatchLoop, hlt, hbad]
      · have hloop : ∀ turns, dispatchLoop s.mem s.stop (turns + 1) ptr =
            (dispatchLoop s.mem s.stop turns (Upcall.mk s.mem ptr).next).after
              [(ptr, (Upcall.mk s.mem ptr).next)] := by
          intro turns
          rw [dispatchLoop, if_pos hlt]
          dsimp only
          rw [if_neg (not_lt.mpr hgood)]
          rfl
        rcases hturn with ⟨-, rfl⟩ | ⟨w, -, rfl⟩ <;> exact ⟨rfl, rfl, .inr (.inr ⟨rfl, rfl, hloop⟩)⟩
    | lock | unlock =>
      obtain ⟨ptr', w, hd, -, rfl⟩ := ht
      rw [hd] at hptr
      exact ⟨rfl, rfl, .inl ⟨rfl, hptr⟩⟩
    | store =>
      obtain ⟨ptr', w, hd, rfl⟩ := ht
      rw [hd] at hptr
      exact ⟨rfl, rfl, .inl ⟨rfl, hptr⟩⟩
    | signal pick =>
      obtain ⟨ptr', w, hd, -, -, rfl⟩ := ht
      rw [hd] at hptr
      exact ⟨rfl, rfl, .inl ⟨rfl, hptr⟩⟩

lemma run_out_of_loop (hrun : (venusMachine codes buf junk).run s ls = some s')
    (hls : ∀ l ∈ ls, ¬ l.isIoctl) (hout : s.dispatcher.resume s.mem = none) :
    s'.dispatcher = s.dispatcher ∧ s'.posted = s.posted := by
  induction ls generalizing s with
  | nil =>
    cases hrun
    exact ⟨rfl, rfl⟩
  | cons l ls ih =>
    obtain ⟨t, ht, hrest⟩ := Option.bind_eq_some_iff.mp hrun
    have hsame : t.dispatcher = s.dispatcher ∧ t.mem = s.mem ∧ t.posted = s.posted := by
      cases l with
      | worker w a =>
        obtain ⟨c, -, rfl⟩ := Option.map_eq_some_iff.mp ht
        exact ⟨rfl, rfl, rfl⟩
      | dispatcher a =>
        have hturn := dispatcherStep_turn ht
        have hl := hls _ List.mem_cons_self
        cases a with
        | ioctl mem consumed => exact absurd trivial hl
        | ioctlFails => exact absurd trivial hl
        | turn =>
          obtain ⟨ptr, hd, -⟩ := hturn
          rw [hd] at hout
          cases hout
        | lock | store | signal pick | unlock =>
          obtain ⟨ptr, w, hd, -⟩ := hturn
          rw [hd] at hout
          cases hout
    obtain ⟨hd, hmem, hposted⟩ := hsame
    rw [← hd, ← hposted]
    exact ih hrest (fun l hl => hls l (List.mem_cons_of_mem _ hl)) (by rw [hd, hmem]; exact hout)

/-- The machine accepts what the loop accepts, whatever the workers do in between. -/
lemma run_in_loop (hrun : (venusMachine codes buf junk).run s ls = some s')
    (hls : ∀ l ∈ ls, ¬ l.isIoctl) {ptr : ℕ} (hptr : s.dispatcher.resume s.mem = some ptr)
    (hout : s'.dispatcher.resume s'.mem = none) :
    ∃ turns e, (dispatchLoop s.mem s.stop turns ptr).result = some e ∧ s'.dispatcher = e.phase ∧
      s'.posted.map Prod.snd = s.posted.map Prod.snd ++
        (dispatchLoop s.mem s.stop turns ptr).accepted.map (fun q => ⟨s.mem, q.1⟩) := by
  induction ls generalizing s ptr with
  | nil =>
    cases hrun
    rw [hptr] at hout
    cases hout
  | cons l ls ih =>
    obtain ⟨t, ht, hrest⟩ := Option.bind_eq_some_iff.mp hrun
    have hls' : ∀ l ∈ ls, ¬ l.isIoctl := fun l hl => hls l (List.mem_cons_of_mem _ hl)
    obtain ⟨hmem, hstop, ⟨hposted, hresume⟩ | ⟨hposted, e, he, hresult, hnone⟩ |
      ⟨hposted, hresume, hloop⟩⟩ := step_in_loop ht (hls l List.mem_cons_self) hptr
    · obtain ⟨turns, e, hrest⟩ := ih hrest hls' (by rw [hmem]; exact hresume)
      rw [hmem, hstop, hposted] at hrest
      exact ⟨turns, e, hrest⟩
    · have hleft : t.dispatcher.resume t.mem = none := by
        rw [he]
        cases e <;> rfl
      obtain ⟨hd, hkept⟩ := run_out_of_loop hrest hls' hleft
      refine ⟨1, e, hresult, hd.trans he, ?_⟩
      rw [hkept, hposted, hnone, List.map_nil, List.append_nil]
    · obtain ⟨turns, e, hresult, hd, hkept⟩ := ih hrest hls' (by rw [hmem]; exact hresume)
      rw [hmem, hstop] at hresult hkept
      refine ⟨turns + 1, e, ?_, hd, ?_⟩
      · rw [hloop]
        exact hresult
      · rw [hkept, hposted, hloop]
        simp [DispatchRun.after]

/-- In the machine: when the dispatcher is through with a buffer of whole upcalls, it has accepted
these after what it had accepted before, and is back at its `ioctl`. -/
theorem batch_posted {mem : Memory} {consumed : ℕ} {fs : List Frame} {t : Venus}
    (hfits : buf + bufSize < 2 ^ 32)
    (hread : mem.read buf consumed = frameStream.encodeAll fs)
    (hioctl : s.step codes buf (.dispatcher (.ioctl mem consumed)) = some t)
    (hrun : (venusMachine codes buf junk).run t ls = some s') (hls : ∀ l ∈ ls, ¬ l.isIoctl)
    (hout : s'.dispatcher.resume s'.mem = none) :
    s'.dispatcher = .inIoctl ∧ s'.posted.map (fun p => p.2.copy) =
      s.posted.map (fun p => p.2.copy) ++ fs.map Frame.encode := by
  obtain ⟨-, hconsumed, rfl⟩ := dispatcherStep_turn hioctl
  obtain ⟨turns, e, hresult, hd, hposted⟩ := run_in_loop hrun hls rfl hout
  dsimp only at hresult hposted
  have hended : (dispatchLoop mem (buf + consumed) turns buf).result ≠ none := by simp [hresult]
  have hall := framingLoop_whole hfits hconsumed hread
    (show fs.length < turns + (fs.length + 1) by omega)
  rw [framingLoop, dispatchLoop_of_ended hended (fs.length + 1)] at hall
  rw [hall] at hresult hposted
  obtain rfl : e = .again := (Option.some.inj hresult).symm
  refine ⟨hd, ?_⟩
  have hframes := map_copy_framePositions hread (by omega)
  have hcopies := congrArg (List.map Upcall.copy) hposted
  simpa [DispatchRun.after, Function.comp_def, hframes] using hcopies

end Machine

end ExpressOS
