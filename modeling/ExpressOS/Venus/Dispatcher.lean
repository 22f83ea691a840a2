import ExpressOS.Venus.Upcall

/-!
# The framing loop of the dispatcher

The inner loop of `dispatcher_loop` cuts the bytes of one `ioctl` into upcalls. It is a loop with
no bound of its own, so it is run for a number of turns; a run reports where headers were read and
which frames went to `post_upcall`.
-/

namespace ExpressOS
open Systems

/-- `BUF_SIZE` -/
def bufSize : ℕ := 16384

/-- How the loop ends: back to the `ioctl`, or a return from `dispatcher_loop`. -/
inductive LoopEnd
  | again
  | ret (r : ℤ)
  deriving DecidableEq, Repr

/-- Some turns of the loop. An accepted frame is given with the pointer behind it; `result` is
`none` while the loop still runs. -/
structure DispatchRun where
  headers : List ℕ
  accepted : List (ℕ × ℕ)
  result : Option LoopEnd
  deriving DecidableEq, Repr

/-- The pointer after the upcall, `ptr + s`, in 32 bits. -/
def Upcall.next (u : Upcall) : ℕ := (u.ptr + u.size) % 2 ^ 32

def dispatchLoop (mem : Memory) (stop : ℕ) : ℕ → ℕ → DispatchRun
  | 0, _ => ⟨[], [], none⟩
  | turns + 1, ptr =>
    if ptr < stop then
      let upcall : Upcall := ⟨mem, ptr⟩
      if upcall.next > stop then ⟨[ptr], [], some (.ret (-1))⟩
      else
        let run := dispatchLoop mem stop turns upcall.next
        ⟨ptr :: run.headers, (ptr, upcall.next) :: run.accepted, run.result⟩
    else ⟨[], [], some .again⟩

/-- Where frames lie that follow each other from `ptr`: the start and the end of each. -/
def framePositions : ℕ → List Frame → List (ℕ × ℕ)
  | _, [] => []
  | ptr, f :: fs => (ptr, ptr + f.size) :: framePositions (ptr + f.size) fs

/-- A run that goes on after some frames. -/
def DispatchRun.after (run : DispatchRun) (frames : List (ℕ × ℕ)) : DispatchRun :=
  ⟨frames.map Prod.fst ++ run.headers, frames ++ run.accepted, run.result⟩

section Loop

variable {mem : Memory} {ptr n : ℕ}

/-- A whole frame in memory: its size does not wrap, and neither does the pointer behind it. -/
lemma Upcall.next_of_read_frame {f : Frame} {rest : List UInt8}
    (hread : mem.read ptr n = f.encode ++ rest) (hstop : ptr + n < 2 ^ 32) :
    n = f.size + rest.length ∧ (Upcall.mk mem ptr).size = f.size ∧
      (Upcall.mk mem ptr).next = ptr + f.size := by
  obtain ⟨-, hpayload, -⟩ := Upcall.of_read_frame hread
  have hlen : n = f.size + rest.length := by
    have h := congrArg List.length hread
    simpa using h
  have hsize : (Upcall.mk mem ptr).size = f.size := by
    unfold Frame.size at hlen ⊢
    rw [Upcall.size_of_lt (by rw [hpayload]; omega), hpayload]
  refine ⟨hlen, hsize, ?_⟩
  rw [Upcall.next, hsize]
  exact Nat.mod_eq_of_lt (by dsimp only; omega)

/-- A whole frame is accepted, and the loop goes on right behind it. -/
lemma dispatchLoop_frame {f : Frame} {rest : List UInt8} (hread : mem.read ptr n = f.encode ++ rest)
    (hstop : ptr + n < 2 ^ 32) (turns : ℕ) :
    dispatchLoop mem (ptr + n) (turns + 1) ptr =
      (dispatchLoop mem (ptr + n) turns (ptr + f.size)).after [(ptr, ptr + f.size)] := by
  obtain ⟨hlen, -, hnext⟩ := Upcall.next_of_read_frame hread hstop
  have hpos := f.size_pos
  rw [dispatchLoop, if_pos (by omega)]
  simp only [hnext]
  rw [if_neg (by omega)]
  rfl

lemma dispatchLoop_frames {fs : List Frame} {rest : List UInt8}
    (hread : mem.read ptr n = frameStream.encodeAll fs ++ rest) (hstop : ptr + n < 2 ^ 32)
    (turns : ℕ) :
    dispatchLoop mem (ptr + n) (fs.length + turns) ptr =
      (dispatchLoop mem (ptr + n) turns (ptr + n - rest.length)).after (framePositions ptr fs) := by
  induction fs generalizing ptr n with
  | nil =>
    have hlen : n = rest.length := by
      have h := congrArg List.length hread
      simpa using h
    simp [hlen, DispatchRun.after, framePositions]
  | cons f fs ih =>
    rw [StreamCode.encodeAll_cons, frameStream_encode, List.append_assoc] at hread
    have hlen : n = f.size + (frameStream.encodeAll fs ++ rest).length := by
      have h := congrArg List.length hread
      rw [Memory.length_read, List.length_append, Frame.length_encode] at h
      exact h
    have htail := (Memory.read_of_append hread).2
    rw [Frame.length_encode] at htail
    have hend : ptr + f.size + (frameStream.encodeAll fs ++ rest).length = ptr + n := by omega
    have hrun := ih htail (by omega)
    rw [hend] at hrun
    have hturns : (f :: fs).length + turns = fs.length + turns + 1 := by
      simp only [List.length_cons]
      omega
    rw [hturns, dispatchLoop_frame hread hstop, hrun]
    rfl

lemma framePositions_inside {fs : List Frame} {rest : List UInt8}
    (hread : mem.read ptr n = frameStream.encodeAll fs ++ rest) {q : ℕ × ℕ}
    (hq : q ∈ framePositions ptr fs) :
    ptr ≤ q.1 ∧ q.2 = q.1 + (hdrSize + (Upcall.mk mem q.1).payloadSize) ∧ q.2 ≤ ptr + n := by
  induction fs generalizing ptr n with
  | nil => cases hq
  | cons f fs ih =>
    rw [StreamCode.encodeAll_cons, frameStream_encode, List.append_assoc] at hread
    obtain ⟨-, hpayload, -⟩ := Upcall.of_read_frame hread
    have htail := (Memory.read_of_append hread).2
    rw [Frame.length_encode] at htail
    have hlen : n = f.size + (frameStream.encodeAll fs ++ rest).length := by
      have h := congrArg List.length hread
      rw [Memory.length_read, List.length_append, Frame.length_encode] at h
      exact h
    rcases List.mem_cons.mp hq with rfl | hq
    · refine ⟨le_rfl, ?_, by dsimp only; omega⟩
      rw [hpayload, Frame.size]
    · obtain ⟨hge, hend, hle⟩ := ih htail hq
      exact ⟨by omega, hend, by omega⟩

lemma dispatchLoop_mono (mem : Memory) (stop turns more ptr : ℕ) :
    (dispatchLoop mem stop turns ptr).headers ⊆
        (dispatchLoop mem stop (turns + more) ptr).headers ∧
      (dispatchLoop mem stop turns ptr).accepted ⊆
        (dispatchLoop mem stop (turns + more) ptr).accepted := by
  induction turns generalizing ptr with
  | zero => exact ⟨List.nil_subset _, List.nil_subset _⟩
  | succ turns ih =>
    rw [show turns + 1 + more = turns + more + 1 by omega, dispatchLoop, dispatchLoop]
    dsimp only
    split_ifs with hlt hend
    · exact ⟨List.Subset.refl _, List.Subset.refl _⟩
    · obtain ⟨hheaders, haccepted⟩ := ih (Upcall.mk mem ptr).next
      exact ⟨List.cons_subset_cons _ hheaders, List.cons_subset_cons _ haccepted⟩
    · exact ⟨List.Subset.refl _, List.Subset.refl _⟩

end Loop

/-- The bytes behind the whole frames are nothing, or a header whose frame, counted over the
integers, ends below the top of the address space. -/
def TailBounded (buf : ℕ) (R : List UInt8) : Prop :=
  let tail := (frameStream.decodeAll R).2
  tail = [] ∨
    hdrSize ≤ tail.length ∧
      buf + (R.length - tail.length) + hdrSize + headPayloadSize tail < 2 ^ 32

instance (buf : ℕ) (R : List UInt8) : Decidable (TailBounded buf R) :=
  inferInstanceAs (Decidable (_ ∨ _))

/-- The loop on the bytes behind the whole frames. -/
def tailRun (ptr : ℕ) (tail : List UInt8) : DispatchRun :=
  if tail = [] then ⟨[], [], some .again⟩ else ⟨[ptr], [], some (.ret (-1))⟩

section Tail

variable (mem : Memory) (ptr : ℕ) {n : ℕ}

lemma payloadSize_eq_head (h : hdrSize ≤ n) :
    (Upcall.mk mem ptr).payloadSize = headPayloadSize (mem.read ptr n) := by
  unfold hdrSize at h
  exact Memory.word_eq_of_read rfl (by omega)

lemma dispatchLoop_tail (hnone : splitFrame (mem.read ptr n) = none)
    (hbound : n = 0 ∨
      hdrSize ≤ n ∧ ptr + hdrSize + headPayloadSize (mem.read ptr n) < 2 ^ 32) (turns : ℕ) :
    dispatchLoop mem (ptr + n) (turns + 1) ptr = tailRun ptr (mem.read ptr n) := by
  rw [dispatchLoop, tailRun]
  by_cases hn : n = 0
  · simp [hn]
  · have hne : mem.read ptr n ≠ [] := by
      intro hnil
      have hlen := congrArg List.length hnil
      simp at hlen
      exact hn hlen
    obtain ⟨hlong, hsmall⟩ := hbound.resolve_left hn
    have hpayload := payloadSize_eq_head mem ptr hlong
    have hshort : n < hdrSize + headPayloadSize (mem.read ptr n) := by
      have h := splitFrame_eq_none_iff.mp hnone
      rw [Memory.length_read] at h
      omega
    have hnext : (Upcall.mk mem ptr).next = ptr + (hdrSize + headPayloadSize (mem.read ptr n)) := by
      rw [Upcall.next, Upcall.size_of_lt (by rw [hpayload]; omega), hpayload]
      exact Nat.mod_eq_of_lt (by dsimp only; omega)
    rw [if_pos (by omega), if_neg hne]
    simp only [hnext]
    rw [if_pos (by omega)]

/-- Where a size or an end wraps, the check passes and the frame is accepted. -/
lemma dispatchLoop_wrapped (hlong : hdrSize ≤ n) (hstop : ptr + n < 2 ^ 32)
    (hwrap : 2 ^ 32 ≤ ptr + hdrSize + headPayloadSize (mem.read ptr n)) :
    (ptr, (Upcall.mk mem ptr).next) ∈ (dispatchLoop mem (ptr + n) 1 ptr).accepted := by
  have hpayload := payloadSize_eq_head mem ptr hlong
  have hlt := headPayloadSize_lt (mem.read ptr n)
  have hnext : (Upcall.mk mem ptr).next ≤ ptr + n := by
    unfold Upcall.next Upcall.size
    rw [hpayload]
    unfold hdrSize at *
    dsimp only
    omega
  have hpos : 0 < hdrSize := by decide
  rw [dispatchLoop, if_pos (by omega)]
  dsimp only
  rw [if_neg (by omega)]
  exact List.mem_cons_self

end Tail

section Framing

variable (mem : Memory) (buf consumed : ℕ)

/-- The inner loop of `dispatcher_loop` on the first `consumed` bytes of `buf`. -/
def framingLoop (turns : ℕ) : DispatchRun :=
  dispatchLoop mem (buf + consumed) turns buf

/-- The longest run of whole frames at the front of some bytes. -/
def LongestFrames (R : List UInt8) (fs : List Frame) : Prop :=
  (∃ tail, R = frameStream.encodeAll fs ++ tail) ∧
    ∀ fs' tail', R = frameStream.encodeAll fs' ++ tail' → fs' <+: fs

structure FramingSafe : Prop where
  terminates : ∃ turns, (framingLoop mem buf consumed turns).result ≠ none
  headers_inside : ∀ turns, ∀ p ∈ (framingLoop mem buf consumed turns).headers,
    buf ≤ p ∧ p + hdrSize ≤ buf + consumed
  accepted_fit : ∀ turns, ∀ q ∈ (framingLoop mem buf consumed turns).accepted,
    hdrSize + (Upcall.mk mem q.1).payloadSize ≤ buf + consumed - q.1
  accepted_advance : ∀ turns, ∀ q ∈ (framingLoop mem buf consumed turns).accepted,
    q.1 < q.2 ∧ q.2 ≤ buf + consumed
  rejects : (∀ fs, mem.read buf consumed ≠ frameStream.encodeAll fs) →
    ∃ turns fs, LongestFrames (mem.read buf consumed) fs ∧
      (framingLoop mem buf consumed turns).result = some (.ret (-1)) ∧
      (framingLoop mem buf consumed turns).accepted = framePositions buf fs

variable {mem buf consumed}

lemma longestFrames_decodeAll (R : List UInt8) :
    LongestFrames R (frameStream.decodeAll R).1 :=
  ⟨⟨(frameStream.decodeAll R).2, (frameStream.encodeAll_decodeAll R).symm⟩,
    fun _ _ h => frameStream.prefix_decodeAll h⟩

variable (mem) in
lemma framingLoop_tail (hfits : buf + consumed < 2 ^ 32) (turns : ℕ) :
    let R := mem.read buf consumed
    let ptr := buf + consumed - (frameStream.decodeAll R).2.length
    framingLoop mem buf consumed ((frameStream.decodeAll R).1.length + turns) =
        (dispatchLoop mem (buf + consumed) turns ptr).after
          (framePositions buf (frameStream.decodeAll R).1) ∧
      (frameStream.decodeAll R).2.length ≤ consumed ∧
      mem.read ptr (frameStream.decodeAll R).2.length = (frameStream.decodeAll R).2 := by
  dsimp only
  have hread := (frameStream.encodeAll_decodeAll (mem.read buf consumed)).symm
  have hlen : consumed = (frameStream.encodeAll (frameStream.decodeAll
      (mem.read buf consumed)).1).length + (frameStream.decodeAll
      (mem.read buf consumed)).2.length := by
    have h := congrArg List.length hread
    rwa [Memory.length_read, List.length_append] at h
  refine ⟨dispatchLoop_frames hread hfits turns, by omega, ?_⟩
  have htail := (Memory.read_of_append hread).2
  rwa [show buf + (frameStream.encodeAll (frameStream.decodeAll (mem.read buf consumed)).1).length =
    buf + consumed - (frameStream.decodeAll (mem.read buf consumed)).2.length by omega] at htail

/-- The whole of what the loop does when the tail is bounded. -/
lemma framingLoop_spec (hfits : buf + consumed < 2 ^ 32)
    (hbound : TailBounded buf (mem.read buf consumed)) (turns : ℕ) :
    let R := mem.read buf consumed
    framingLoop mem buf consumed ((frameStream.decodeAll R).1.length + (turns + 1)) =
      (tailRun (buf + consumed - (frameStream.decodeAll R).2.length)
        (frameStream.decodeAll R).2).after (framePositions buf (frameStream.decodeAll R).1) := by
  dsimp only
  obtain ⟨hrun, hle, htail⟩ := framingLoop_tail mem hfits (turns + 1)
  have hnone := frameStream.split_decodeAll (mem.read buf consumed)
  set tail := (frameStream.decodeAll (mem.read buf consumed)).2 with htaildef
  have hptr : buf + consumed - tail.length + tail.length = buf + consumed := by omega
  have hloop := dispatchLoop_tail mem (buf + consumed - tail.length)
    (n := tail.length) (by rw [htail]; exact hnone) (by
      rw [htail]
      rcases hbound with hnil | ⟨hlong, hsmall⟩
      · left
        rw [htaildef, hnil]
        rfl
      · rw [← htaildef] at hlong hsmall
        rw [Memory.length_read] at hsmall
        exact .inr ⟨hlong, by omega⟩) turns
  rw [hptr, htail] at hloop
  rw [hrun, hloop]

lemma framingSafe_of_tailBounded (hfits : buf + consumed < 2 ^ 32)
    (hbound : TailBounded buf (mem.read buf consumed)) : FramingSafe mem buf consumed := by
  have hspec := fun turns => framingLoop_spec hfits hbound turns
  unfold TailBounded at hbound
  dsimp only at hspec hbound
  have hread := (frameStream.encodeAll_decodeAll (mem.read buf consumed)).symm
  obtain ⟨-, hle, -⟩ := framingLoop_tail mem hfits 0
  set fs := (frameStream.decodeAll (mem.read buf consumed)).1
  set tail := (frameStream.decodeAll (mem.read buf consumed)).2
  -- what any number of turns reports is among what the complete run reports
  have hall : ∀ turns, (framingLoop mem buf consumed turns).headers ⊆
        (framePositions buf fs).map Prod.fst ++
          (tailRun (buf + consumed - tail.length) tail).headers ∧
      (framingLoop mem buf consumed turns).accepted ⊆ framePositions buf fs := by
    intro turns
    have hmono := dispatchLoop_mono mem (buf + consumed) turns (fs.length + 1) buf
    have hrun := hspec turns
    rw [show fs.length + (turns + 1) = turns + (fs.length + 1) by omega, framingLoop] at hrun
    rw [hrun] at hmono
    have hnone : (tailRun (buf + consumed - tail.length) tail).accepted = [] := by
      unfold tailRun
      split <;> rfl
    simpa only [framingLoop, DispatchRun.after, hnone, List.append_nil] using hmono
  refine ⟨⟨fs.length + (0 + 1), ?_⟩, ?_, ?_, ?_, ?_⟩
  · rw [hspec 0]
    unfold tailRun
    split <;> simp [DispatchRun.after]
  · intro turns p hp
    rcases List.mem_append.mp ((hall turns).1 hp) with hframe | hrest
    · obtain ⟨q, hq, rfl⟩ := List.mem_map.mp hframe
      obtain ⟨hge, hend, hle'⟩ := framePositions_inside hread hq
      exact ⟨hge, by omega⟩
    · unfold tailRun at hrest
      split at hrest
      · cases hrest
      · rename_i hne
        rw [List.mem_singleton.mp hrest]
        obtain ⟨hlong, -⟩ := hbound.resolve_left hne
        exact ⟨by omega, by omega⟩
  · intro turns q hq
    obtain ⟨-, hend, hle'⟩ := framePositions_inside hread ((hall turns).2 hq)
    omega
  · intro turns q hq
    obtain ⟨-, hend, hle'⟩ := framePositions_inside hread ((hall turns).2 hq)
    have hpos : 0 < hdrSize := by decide
    exact ⟨by omega, hle'⟩
  · intro hno
    have hne : tail ≠ [] := by
      intro hnil
      rw [hnil, List.append_nil] at hread
      exact hno fs hread
    refine ⟨fs.length + (0 + 1), fs, longestFrames_decodeAll _, ?_, ?_⟩
    · rw [hspec 0, tailRun, if_neg hne]
      rfl
    · rw [hspec 0, tailRun, if_neg hne]
      simp [DispatchRun.after]

/-- The framing loop is safe on exactly the buffers whose whole frames are followed by nothing, or
by a whole header whose frame ends below the top of the address space. -/
theorem framingSafe_iff (hfits : buf + bufSize < 2 ^ 32) (hconsumed : consumed ≤ bufSize) :
    FramingSafe mem buf consumed ↔ TailBounded buf (mem.read buf consumed) := by
  refine ⟨?_, framingSafe_of_tailBounded (by omega)⟩
  intro hsafe
  have hsum : buf + consumed < 2 ^ 32 := by omega
  obtain ⟨hrun, hle, htail⟩ := framingLoop_tail mem hsum 1
  unfold TailBounded
  set fs := (frameStream.decodeAll (mem.read buf consumed)).1
  set tail := (frameStream.decodeAll (mem.read buf consumed)).2
  by_cases hnil : tail = []
  · exact .inl hnil
  have hlen : 0 < tail.length := List.length_pos_of_ne_nil hnil
  have hptr : buf + consumed - tail.length + tail.length = buf + consumed := by omega
  -- the header behind the whole frames is read in any case
  have hheader : buf + consumed - tail.length ∈
      (framingLoop mem buf consumed (fs.length + 1)).headers := by
    rw [hrun]
    apply List.mem_append_right
    rw [dispatchLoop, if_pos (by omega)]
    dsimp only
    split <;> exact List.mem_cons_self
  obtain ⟨-, hinside⟩ := hsafe.headers_inside _ _ hheader
  have hlong : hdrSize ≤ tail.length := by omega
  refine .inr ⟨hlong, ?_⟩
  by_contra hwrap
  rw [Memory.length_read] at hwrap
  have hbad := dispatchLoop_wrapped mem (buf + consumed - tail.length) hlong
    (by omega) (by rw [htail]; omega)
  rw [hptr] at hbad
  have haccepted : (buf + consumed - tail.length,
      (Upcall.mk mem (buf + consumed - tail.length)).next) ∈
      (framingLoop mem buf consumed (fs.length + 1)).accepted := by
    rw [hrun]
    exact List.mem_append_right _ hbad
  have hfit := hsafe.accepted_fit _ _ haccepted
  have hnone : splitFrame tail = none := frameStream.split_decodeAll _
  have hshort := splitFrame_eq_none_iff.mp hnone
  rw [payloadSize_eq_head mem _ hlong, htail] at hfit
  omega

end Framing

/-- A zeroed memory with some bytes at the address 4096. -/
def memoryOf (bs : List UInt8) : Memory :=
  Memory.write (fun _ => 0) 4096 bs

/-- One upcall with a four-byte payload, and three bytes of the buffer that are not used. -/
theorem one_upcall_framed :
    FramingSafe (memoryOf [2, 0, 0, 0, 4, 0, 0, 0, 7, 0, 0, 0, 9, 9, 9]) 4096 12 :=
  (framingSafe_iff (by decide) (by decide)).mpr (by decide +kernel)

/-- With a `payload_size` of `0xfffffff8` the size of the frame is 0: it is accepted again and
again, and the loop stays where it is. -/
theorem wrapped_size_accepted :
    4096 + bufSize < 2 ^ 32 ∧ 8 ≤ bufSize ∧
      ¬ FramingSafe (memoryOf [2, 0, 0, 0, 0xf8, 0xff, 0xff, 0xff]) 4096 8 := by
  refine ⟨by decide, by decide, ?_⟩
  intro hsafe
  have hstuck := hsafe.accepted_advance 1 (4096, 4096) (by decide +kernel)
  exact absurd hstuck.1 (lt_irrefl _)

end ExpressOS
