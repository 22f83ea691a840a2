import ExpressOS.Venus.Replies

/-!
# Sizes and offsets in 32 bits

`handle_poll` multiplies `nfds` by the size of a `pollfd` and adds up the parts of the downcall,
and `handle_alien_mmap2` multiplies `pgoffset` by the size of a page, all in 32 bits. This file
says for which values the results are those over the integers.
-/

namespace ExpressOS
open Systems

variable (codes : VenusCodes) (abi : VenusLayout) (sys : Kernel) (u : Upcall)

structure PollSizes where
  pollfds : ℕ
  payload : ℕ
  downcall : ℕ

def pollSizes (nfds : ℕ) : PollSizes :=
  let fdsSize := nfds * pollfdSize % 2 ^ 32
  let payloadSize := (handleSize + fdsSize + abi.pollOutSize) % 2 ^ 32
  ⟨fdsSize, payloadSize, (hdrSize + payloadSize) % 2 ^ 32⟩

def pollFdsOffset : ℕ := hdrSize + handleSize + abi.pollOutSize

def pollCall : SysResult × List UInt8 :=
  sys.poll (u.mem.read (u.ptr + abi.pollFds) (pollSizes abi (u.field abi.pollNfds)).pollfds)
    (u.field abi.pollNfds) (u.field abi.pollTimeout)

def mmapOffset (pgoffset : ℕ) : ℕ := pgoffset * pageSize % 2 ^ 32

def mmapCall : ℕ × ℤ :=
  sys.mmap (u.field abi.mmapAddr) (u.field abi.mmapLength) (u.field abi.mmapProt)
    (u.field abi.mmapFlags) (u.field abi.mmapFd) (mmapOffset (u.field abi.mmapPgoffset))

/-- The `pollfd` entries that the upcall says it carries. -/
def pollEntries : List UInt8 :=
  u.mem.read (u.ptr + abi.pollFds) (u.field abi.pollNfds * pollfdSize)

/-- The calls of `handle_poll` for a block of `size` bytes and the entries `fds`, when `poll` has
returned `r`. -/
def pollCalls (size : ℕ) (fds : List UInt8) (r : SysResult) : List HandlerCall :=
  [.malloc size true, .memcpy (pollFdsOffset abi) fds,
    .poll (pollFdsOffset abi) (u.field abi.pollNfds) (u.field abi.pollTimeout) r]

/-- `handle_poll` has sent that its `poll` failed, or it has allocated exactly the header, the
handle, `struct expressos_venus_poll_out` and `nfds` entries, has copied all entries to their place
in that block, has passed this place to `poll`, and has sent a header that gives the exact size. -/
def PollExact (run : HandlerRun) : Prop :=
  let nfds := u.field abi.pollNfds
  ∃ d, run.sent = [d] ∧
    ((∃ place n timeout r, .poll place n timeout r ∈ run.calls ∧ r.ret < 0 ∧
        d.body.result = -r.errno) ∨
      (∃ r, run.calls = pollCalls abi u (pollFdsOffset abi + nfds * pollfdSize)
        (pollEntries abi u) r) ∧
        d.hdr.payloadSize = handleSize + abi.pollOutSize + nfds * pollfdSize)

/-- `handle_alien_mmap2` has called `mmap` once for the mapping that is asked for, and has sent that
it failed, or it was given the offset over the integers. -/
def MmapExact (run : HandlerRun) : Prop :=
  ∃ d offset r, run.sent = [d] ∧
    run.calls = [.mmap (u.field abi.mmapAddr) (u.field abi.mmapLength) (u.field abi.mmapProt)
      (u.field abi.mmapFlags) (u.field abi.mmapFd) offset r] ∧
    (r.1 = mapFailed ∧ d.body.result = -r.2 ∨ offset = u.field abi.mmapPgoffset * pageSize)

lemma handlePoll_eq :
    handlePoll codes abi sys u =
      let sizes := pollSizes abi (u.field abi.pollNfds)
      let touched := u.touchFields [abi.pollNfds] ++ [u.touch abi.pollFds sizes.pollfds]
      let fds := u.mem.read (u.ptr + abi.pollFds) sizes.pollfds
      if sys.malloc then
        if sizes.downcall < pollFdsOffset abi + sizes.pollfds then
          ⟨touched, [.malloc sizes.downcall sys.malloc, .memcpy (pollFdsOffset abi) fds], [],
            .fault⟩
        else
          .reply sys (touched ++ u.touchFields [abi.pollTimeout, handleOffset, abi.pollBuffer])
            [.malloc sizes.downcall sys.malloc, .memcpy (pollFdsOffset abi) fds,
              .poll (pollFdsOffset abi) (u.field abi.pollNfds) (u.field abi.pollTimeout)
                (pollCall abi sys u).1]
            ⟨initDowncallHdr (codes.code .poll) sizes.payload,
              .poll u.handle (u.field abi.pollBuffer) (pollCall abi sys u).1.value
                (pollCall abi sys u).2⟩
      else
        ⟨u.touchFields [abi.pollNfds], [.malloc sizes.downcall sys.malloc], [],
          .ret (-ENOMEM)⟩ := rfl

lemma handleAlienMmap2_eq :
    handleAlienMmap2 codes abi sys u =
      let r := mmapCall abi sys u
      .reply sys (u.touchFields [abi.mmapAddr, abi.mmapLength, abi.mmapProt, abi.mmapFlags,
          abi.mmapFd, abi.mmapPgoffset])
        [.mmap (u.field abi.mmapAddr) (u.field abi.mmapLength) (u.field abi.mmapProt)
          (u.field abi.mmapFlags) (u.field abi.mmapFd) (mmapOffset (u.field abi.mmapPgoffset)) r]
        ⟨initDowncallHdr (codes.code .alienMmap2) longSize,
          .ret (if r.1 = mapFailed then -r.2 else toSigned r.1)⟩ := rfl

section Exact

variable {codes abi sys u}

/-- The downcall is shorter than its contents exactly when the sum of the parts wraps. -/
lemma pollSizes_short_iff (nfds : ℕ) :
    (pollSizes abi nfds).downcall < pollFdsOffset abi + (pollSizes abi nfds).pollfds ↔
      2 ^ 32 ≤ pollFdsOffset abi + (pollSizes abi nfds).pollfds := by
  have hout := abi.pollOutSize_lt
  have hfds : nfds * pollfdSize % 2 ^ 32 < 2 ^ 32 := Nat.mod_lt _ (by norm_num)
  unfold pollSizes pollFdsOffset
  dsimp only
  generalize nfds * pollfdSize % 2 ^ 32 = fds at *
  unfold hdrSize handleSize
  omega

/-- Sizes that do not wrap are those over the integers exactly if the product does not wrap. -/
lemma pollSizes_exact_iff {nfds : ℕ}
    (hfits : pollFdsOffset abi + (pollSizes abi nfds).pollfds < 2 ^ 32) :
    ((pollSizes abi nfds).downcall = pollFdsOffset abi + nfds * pollfdSize ∧
        (pollSizes abi nfds).pollfds = nfds * pollfdSize ∧
        (pollSizes abi nfds).payload = handleSize + abi.pollOutSize + nfds * pollfdSize) ↔
      nfds * pollfdSize < 2 ^ 32 := by
  constructor
  · rintro ⟨-, hfds, -⟩
    rw [← hfds]
    exact Nat.mod_lt _ (by norm_num)
  · intro hlt
    have hfds : (pollSizes abi nfds).pollfds = nfds * pollfdSize := Nat.mod_eq_of_lt hlt
    rw [hfds] at hfits
    unfold pollFdsOffset hdrSize handleSize at hfits
    refine ⟨?_, hfds, ?_⟩
    · simp only [pollSizes, pollFdsOffset, hdrSize, handleSize, Nat.mod_eq_of_lt hlt]
      omega
    · simp only [pollSizes, handleSize, Nat.mod_eq_of_lt hlt]
      omega

lemma pollCalls_inj {size size' : ℕ} {fds fds' : List UInt8} {r r' : SysResult} :
    pollCalls abi u size fds r = pollCalls abi u size' fds' r' ↔
      size = size' ∧ fds = fds' ∧ r = r' := by
  simp [pollCalls]

/-- A `pollfd` array that is copied is the one of the upcall exactly if it has its length. -/
lemma pollEntries_eq_iff (n : ℕ) :
    u.mem.read (u.ptr + abi.pollFds) n = pollEntries abi u ↔
      n = u.field abi.pollNfds * pollfdSize := by
  constructor
  · intro h
    have hlength := congrArg List.length h
    rwa [pollEntries, Memory.length_read, Memory.length_read] at hlength
  · rintro rfl
    rfl

lemma handlePoll_exact_iff :
    PollExact abi u (handlePoll codes abi sys u) ↔
      PollReplies abi sys u ∧
        (u.field abi.pollNfds * pollfdSize < 2 ^ 32 ∨ (pollCall abi sys u).1.ret < 0) := by
  have hreplies : PollReplies abi sys u ↔ sys.malloc = true ∧
      pollFdsOffset abi + (pollSizes abi (u.field abi.pollNfds)).pollfds < 2 ^ 32 := Iff.rfl
  rw [hreplies, handlePoll_eq]
  dsimp only
  by_cases hblock : sys.malloc = true
  · rw [if_pos hblock, and_iff_right hblock]
    by_cases hshort : 2 ^ 32 ≤ pollFdsOffset abi + (pollSizes abi (u.field abi.pollNfds)).pollfds
    · rw [if_pos ((pollSizes_short_iff _).mpr hshort)]
      apply iff_of_false
      · rintro ⟨d, hd, -⟩
        cases hd
      · rintro ⟨hfits, -⟩
        omega
    · rw [if_neg (fun h => hshort ((pollSizes_short_iff _).mp h)), and_iff_right (not_le.mp hshort),
        ← pollSizes_exact_iff (not_le.mp hshort), hblock]
      constructor
      · rintro ⟨d, hd, ⟨place, n, timeout, r, hpoll, hfailed, -⟩ | ⟨⟨r, hcalls⟩, hheader⟩⟩
        · have hr : r = (pollCall abi sys u).1 := by
            simp only [HandlerRun.reply, List.mem_cons, reduceCtorEq, false_or,
              HandlerCall.poll.injEq, List.not_mem_nil, or_false] at hpoll
            exact hpoll.2.2.2
          exact .inr (hr ▸ hfailed)
        · obtain rfl := List.singleton_inj.mp hd
          obtain ⟨hsize, hentries, -⟩ := pollCalls_inj.mp hcalls
          exact .inl ⟨hsize, (pollEntries_eq_iff _).mp hentries, hheader⟩
      · rintro (⟨hsize, hlength, hheader⟩ | hfailed)
        · exact ⟨_, rfl, .inr ⟨⟨(pollCall abi sys u).1,
            pollCalls_inj.mpr ⟨hsize, (pollEntries_eq_iff _).mpr hlength, rfl⟩⟩, hheader⟩⟩
        · refine ⟨_, rfl, .inl ⟨pollFdsOffset abi, u.field abi.pollNfds, u.field abi.pollTimeout,
            (pollCall abi sys u).1, ?_, hfailed, if_pos hfailed⟩⟩
          exact List.mem_cons_of_mem _ (List.mem_cons_of_mem _ List.mem_cons_self)
  · rw [if_neg hblock]
    apply iff_of_false
    · rintro ⟨d, hd, -⟩
      cases hd
    · rintro ⟨⟨hyes, -⟩, -⟩
      exact hblock hyes

lemma handleAlienMmap2_exact_iff :
    MmapExact abi u (handleAlienMmap2 codes abi sys u) ↔
      u.field abi.mmapPgoffset < 2 ^ 20 ∨ (mmapCall abi sys u).1 = mapFailed := by
  have hoffset : mmapOffset (u.field abi.mmapPgoffset) = u.field abi.mmapPgoffset * pageSize ↔
      u.field abi.mmapPgoffset < 2 ^ 20 := by
    unfold mmapOffset pageSize
    omega
  rw [handleAlienMmap2_eq, ← hoffset]
  constructor
  · rintro ⟨d, offset, r, -, hcalls, hexact⟩
    have hcall := List.singleton_inj.mp hcalls
    simp only [HandlerCall.mmap.injEq, true_and] at hcall
    obtain ⟨rfl, rfl⟩ := hcall
    exact hexact.elim (fun hfailed => .inr hfailed.1) .inl
  · rintro (hexact | hfailed)
    · exact ⟨_, _, _, rfl, rfl, .inr hexact⟩
    · exact ⟨_, _, _, rfl, rfl, .inl ⟨hfailed, if_pos hfailed⟩⟩

end Exact

/-- For which counts and page offsets nothing is cut off: a `POLL` that is answered and whose
product does not wrap or whose `poll` fails, and a page offset below `2 ^ 20` or one that `mmap`
refuses. -/
theorem sizes_exact_iff :
    (PollExact abi u (handlePoll codes abi sys u) ↔
        PollReplies abi sys u ∧
          (u.field abi.pollNfds * pollfdSize < 2 ^ 32 ∨ (pollCall abi sys u).1.ret < 0)) ∧
      (MmapExact abi u (handleAlienMmap2 codes abi sys u) ↔
        u.field abi.mmapPgoffset < 2 ^ 20 ∨ (mmapCall abi sys u).1 = mapFailed) :=
  ⟨handlePoll_exact_iff, handleAlienMmap2_exact_iff⟩

/-- A `POLL` with `0x1fffffff` entries. -/
def pollUpcall : Upcall :=
  ⟨memoryOf [3, 0, 0, 0, 16, 0, 0, 0, 0, 0x20, 0, 0, 0xff, 0xff, 0xff, 0x1f, 0, 0, 0, 0,
    0, 0, 0, 0], 4096⟩

/-- An `ALIEN_MMAP2` of the page `0x100000`. -/
def mmapUpcall : Upcall :=
  ⟨memoryOf [5, 0, 0, 0, 24, 0, 0, 0, 0, 0, 0, 0, 0, 0x10, 0, 0, 1, 0, 0, 0, 1, 0, 0, 0, 3, 0, 0, 0,
    0, 0, 0x10, 0], 4096⟩

/-- The block for the `POLL` has 12 bytes, and the page is mapped at the offset 0. -/
theorem sizes_cut_off :
    ((handlePoll sampleCodes sampleLayout (quietKernel [] (by decide)) pollUpcall).calls.head? =
        some (.malloc 12 true) ∧
      ¬ PollExact sampleLayout pollUpcall
        (handlePoll sampleCodes sampleLayout (quietKernel [] (by decide)) pollUpcall)) ∧
    (handleAlienMmap2 sampleCodes sampleLayout (quietKernel [] (by decide)) mmapUpcall).calls =
        [.mmap 0 0x1000 1 1 3 0 (0, 0)] ∧
      ¬ MmapExact sampleLayout mmapUpcall
        (handleAlienMmap2 sampleCodes sampleLayout (quietKernel [] (by decide)) mmapUpcall) := by
  refine ⟨⟨by decide +kernel, ?_⟩, by decide +kernel, ?_⟩
  · rintro ⟨d, hd, -⟩
    have hsent : (handlePoll sampleCodes sampleLayout (quietKernel [] (by decide))
        pollUpcall).sent = [] := by decide +kernel
    rw [hsent] at hd
    cases hd
  · have hcalls : (handleAlienMmap2 sampleCodes sampleLayout (quietKernel [] (by decide))
        mmapUpcall).calls = [.mmap 0 0x1000 1 1 3 0 (0, 0)] := by decide +kernel
    rintro ⟨d, offset, r, -, hmmap, hexact⟩
    have hcall := List.singleton_inj.mp (hcalls.symm.trans hmmap)
    simp only [HandlerCall.mmap.injEq] at hcall
    obtain ⟨-, -, -, -, -, rfl, rfl⟩ := hcall
    obtain ⟨hfailed, -⟩ | hexact := hexact
    · exact absurd hfailed (by decide)
    · exact absurd hexact (by decide +kernel)

end ExpressOS
