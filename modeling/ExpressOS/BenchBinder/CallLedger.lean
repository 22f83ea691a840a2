import ExpressOS.BenchBinder.BinderLoop

/-!
# The buffers of a call

Every transaction and every reply in a read buffer comes with a buffer of the driver, which stays
taken until a `BC_FREE_BUFFER` names it. A caller frees what `binder_done` finds in its reply.
-/

namespace ExpressOS
open Systems

section Buffers

variable (codes : CodeTable ParseLabel)

/-- The value of `binder_parse` for a buffer. -/
def ReadBuffer.verdict (b : ReadBuffer) : ℤ := (b.verdicts codes).getLast?.getD 1

/-- The rounds that the `for` loop of `binder_call` reads. -/
def roundsRead : List (Option Round) → List Round
  | some round :: rounds =>
    round :: if round.buffer.verdict codes = 1 then roundsRead rounds else []
  | _ => []

/-- The rounds that a call reads; a message that has overflowed is not sent. -/
def callRounds (m : Memory) (msg : BinderIo) (target code : ℕ) (rounds : List (Option Round)) :
    List Round :=
  match binderRequest m msg target code with
  | none => []
  | some _ => roundsRead codes rounds

/-- The records of a label in some rounds. -/
def recordsIn (label : ParseLabel) (rounds : List Round) : List BinderTxn :=
  rounds.flatMap fun round => round.buffer.records codes label

/-- The buffers that come with some rounds. -/
def buffersGiven (rounds : List Round) : List ℕ :=
  (recordsIn codes .transaction rounds ++ recordsIn codes .reply rounds).map (·.data)

/-- The buffers that are freed when the caller is done. -/
def buffersFreed (res : CallResult) : List ℕ := (binderDone res.reply).1.toList

variable {codes} {b : ReadBuffer} {proc : Process}

lemma verdictAt_eq_zero_iff {ptr : ℕ} :
    verdictAt codes b ptr = some 0 ↔ IsRecord codes b .reply ptr := by
  unfold verdictAt IsRecord
  cases hlabel : codes.decode (b.word ptr) with
  | none => simp
  | some label => cases label <;> simp

lemma zero_mem_verdicts_iff : 0 ∈ b.verdicts codes ↔ b.records codes .reply ≠ [] := by
  rw [ReadBuffer.verdicts, List.mem_filterMap, ReadBuffer.records, recordsAt, ne_eq,
    List.map_eq_nil_iff, List.filter_eq_nil_iff]
  push Not
  simp only [verdictAt_eq_zero_iff, decide_eq_true_eq]

lemma eq_of_mem_verdicts {r : ℤ} (h : r ∈ b.verdicts codes) : r = 0 ∨ r = -1 := by
  obtain ⟨ptr, -, hr⟩ := List.mem_filterMap.mp h
  unfold verdictAt at hr
  cases hlabel : codes.decode (b.word ptr) with
  | none => simp_all
  | some label =>
    cases label <;> simp_all
    all_goals split_ifs at hr <;> simp_all

/-- A buffer with a reply passes a verdict, and only such a buffer ends a call well. -/
lemma verdict_cases (codes : CodeTable ParseLabel) (b : ReadBuffer) :
    b.verdict codes = 1 ∧ b.records codes .reply = [] ∨
      b.verdict codes = 0 ∧ b.records codes .reply ≠ [] ∨ b.verdict codes = -1 := by
  cases hlast : (b.verdicts codes).getLast? with
  | none =>
    have hnone : b.verdicts codes = [] := List.getLast?_eq_none_iff.mp hlast
    refine .inl ⟨by rw [ReadBuffer.verdict, hlast, Option.getD_none], ?_⟩
    by_contra hreply
    have hzero := zero_mem_verdicts_iff.mpr hreply
    rw [hnone] at hzero
    cases hzero
  | some r =>
    have hmem := List.mem_of_getLast? hlast
    have hverdict : b.verdict codes = r := by rw [ReadBuffer.verdict, hlast, Option.getD_some]
    obtain rfl | rfl := eq_of_mem_verdicts hmem
    · exact .inr (.inl ⟨hverdict, zero_mem_verdicts_iff.mp hmem⟩)
    · exact .inr (.inr hverdict)

/-- The caller keeps its reply structure through a command that is no reply. -/
lemma parseTurn_other {ptr : ℕ} {s s' : ParseState} {next : Option ℕ}
    (hno : ¬ IsRecord codes b .reply ptr)
    (h : parseTurn codes proc none b ptr s = some (s', next)) :
    s'.bio = s.bio ∧ s'.wanted = s.wanted := by
  unfold parseTurn at h
  dsimp only at h
  cases hlabel : codes.decode (b.word ptr) with
  | none =>
    rw [hlabel] at h
    cases h
    exact ⟨rfl, rfl⟩
  | some label =>
    rw [hlabel] at h
    cases label
    case noop | transactionComplete | increfs | acquire | release | decrefs | failedReply
      | deadReply | deadBinder =>
      cases h
      exact ⟨rfl, rfl⟩
    case transaction =>
      simp only [answerTransaction] at h
      split_ifs at h <;> cases h <;> exact ⟨rfl, rfl⟩
    case reply =>
      have hsmall : b.size / 4 - (ptr + 1) < txnWords :=
        not_le.mp fun hwhole => hno ⟨hlabel, hwhole⟩
      simp only [if_pos hsmall] at h
      cases h
      exact ⟨rfl, rfl⟩

lemma parseTurn_reply {ptr : ℕ} {s s' : ParseState} {next : Option ℕ}
    (hreply : IsRecord codes b .reply ptr)
    (h : parseTurn codes proc none b ptr s = some (s', next)) :
    s' = takeReply (b.txn (ptr + 1)) s := by
  unfold parseTurn at h
  dsimp only at h
  rw [hreply.1] at h
  simp only [if_neg (not_lt.mpr hreply.2)] at h
  cases h
  rfl

/-- A caller that waits for a reply takes the first one. -/
lemma parseLoop_reply {fuel ptr : ℕ} {s s' : ParseState}
    (h : parseLoop codes proc none b fuel ptr s = some s') :
    s'.bio = if s.wanted then
      ((recordsAt codes b .reply (commandPlaces codes b fuel ptr)).head?.map
        bioInitFromTxn).getD s.bio
      else s.bio := by
  induction fuel generalizing ptr s with
  | zero =>
    cases h
    simp [recordsAt, commandPlaces]
  | succ fuel ih =>
    by_cases hlt : ptr < b.size / 4
    · rw [parseLoop_succ_of_lt hlt] at h
      obtain ⟨⟨s₁, next⟩, hturn, hrest⟩ := Option.bind_eq_some_iff.mp h
      obtain ⟨t, -, heq⟩ := parseTurn_eq codes b proc none ptr s
      have hnext : nextCommand codes b ptr = next := by
        rw [hturn] at heq
        obtain ⟨s₂, -, hpair⟩ := Option.map_eq_some_iff.mp heq.symm
        exact congrArg Prod.snd hpair
      rw [commandPlaces_succ_of_lt hlt, hnext]
      by_cases hreply : IsRecord codes b .reply ptr
      · -- a later reply finds nobody waiting
        obtain rfl := parseTurn_reply hreply hturn
        have hlater : s'.bio = (takeReply (b.txn (ptr + 1)) s).bio := by
          cases next with
          | none =>
            cases hrest
            rfl
          | some next => exact (ih hrest).trans (if_neg (by simp [takeReply]))
        rw [hlater]
        simp [recordsAt, hreply, takeReply]
      · obtain ⟨hbio, hwanted⟩ := parseTurn_other hreply hturn
        have hskip : ∀ places, recordsAt codes b .reply (ptr :: places) =
            recordsAt codes b .reply places := fun places => by simp [recordsAt, hreply]
        rw [hskip, ← hbio, ← hwanted]
        cases next with
        | none =>
          cases hrest
          simp [recordsAt]
        | some next => exact ih hrest
    · cases (if_neg hlt).symm.trans h
      simp [recordsAt, commandPlaces, hlt]

lemma binderParse_caller {bio : BinderIo} {m : Memory} {s : ParseState}
    (h : binderParse codes proc none true bio m b = some s) :
    s.r = b.verdict codes ∧
      s.bio = ((b.records codes .reply).head?.map bioInitFromTxn).getD bio :=
  ⟨parseLoop_verdict h, (parseLoop_reply h).trans (if_pos rfl)⟩

lemma callLoop_ledger {m : Memory} {reply : BinderIo} {rounds : List (Option Round)}
    {res : CallResult} (h : callLoop codes proc m reply rounds = some res) :
    (res.res = 0 ∧ ∃ txn lost, recordsIn codes .reply (roundsRead codes rounds) = txn :: lost ∧
      res.reply = bioInitFromTxn txn) ∨ ∃ m', res = callFailed m' := by
  induction rounds generalizing m reply with
  | nil => cases h
  | cons round rounds ih =>
    cases round with
    | none =>
      cases h
      exact .inr ⟨m, rfl⟩
    | some round =>
      obtain ⟨s, hparse, h⟩ := Option.bind_eq_some_iff.mp h
      obtain ⟨hr, hbio⟩ := binderParse_caller hparse
      obtain ⟨hverdict, hnone⟩ | ⟨hverdict, hreply⟩ | hverdict :=
        verdict_cases codes round.buffer
      · rw [hverdict] at hr
        simp only [hr] at h
        have hread : recordsIn codes .reply (roundsRead codes (some round :: rounds)) =
            recordsIn codes .reply (roundsRead codes rounds) := by
          simp [roundsRead, hverdict, recordsIn, hnone]
        rw [hread]
        exact ih h
      · rw [hverdict] at hr
        simp only [hr] at h
        cases h
        obtain ⟨txn, lost, hrecords⟩ := List.exists_cons_of_ne_nil hreply
        refine .inl ⟨rfl, txn, lost, ?_, ?_⟩
        · simp [roundsRead, hverdict, recordsIn, hrecords]
        · rw [hbio, hrecords]
          rfl
      · rw [hverdict] at hr
        simp only [hr] at h
        cases h
        exact .inr ⟨s.memory, rfl⟩

lemma binderDone_txn (txn : BinderTxn) :
    binderDone (bioInitFromTxn txn) = (some txn.data, { bioInitFromTxn txn with flags := 0 }) :=
  if_pos (by decide : bioShared &&& bioShared ≠ 0)

lemma binderDone_of_clear {reply : BinderIo} (h : reply.flags &&& bioShared = 0) :
    binderDone reply = (none, reply) :=
  if_neg (not_not_intro h)

lemma callFailed_clear (m : Memory) : (callFailed m).reply.flags &&& bioShared = 0 :=
  (by decide : (0 ||| bioIoerror) &&& bioShared = 0)

/-- A caller frees a buffer at most once, and only one that it was given. It frees all of them
exactly when it was given no transaction, and no reply besides the one of a call that succeeds:
what else the rounds bring stays taken. -/
theorem callBuffers_freed_iff {m : Memory} {msg reply : BinderIo} {target code : ℕ}
    {rounds : List (Option Round)} {res : CallResult}
    (h : binderCall codes proc m msg reply target code rounds = some res) :
    let used := callRounds codes m msg target code rounds
    (∃ lost, (buffersGiven codes used).Perm (buffersFreed res ++ lost)) ∧
      (binderDone (binderDone res.reply).2).1 = none ∧
      ((buffersGiven codes used).Perm (buffersFreed res) ↔
        recordsIn codes .transaction used = [] ∧
          (recordsIn codes .reply used).length = if res.res = 0 then 1 else 0) := by
  intro used
  have hcall : (res.res = 0 ∧ ∃ txn lost, recordsIn codes .reply used = txn :: lost ∧
      res.reply = bioInitFromTxn txn) ∨ ∃ m', res = callFailed m' := by
    unfold binderCall at h
    unfold used callRounds
    cases hrequest : binderRequest m msg target code with
    | none =>
      rw [hrequest] at h
      cases h
      exact .inr ⟨m, rfl⟩
    | some transfer =>
      rw [hrequest] at h
      exact callLoop_ledger h
  obtain ⟨hres, txn, lost, hreplies, hreply⟩ | ⟨m', rfl⟩ := hcall
  · have hfreed : buffersFreed res = [txn.data] := by rw [buffersFreed, hreply, binderDone_txn]; rfl
    refine ⟨⟨(recordsIn codes .transaction used ++ lost).map (·.data), ?_⟩, ?_, ?_⟩
    · rw [hfreed, buffersGiven, hreplies]
      exact (List.perm_middle).map _
    · rw [hreply, binderDone_txn, binderDone_of_clear (Nat.zero_and _)]
    · rw [hfreed, buffersGiven, hreplies, if_pos hres]
      constructor
      · intro hperm
        have hlength := hperm.length_eq
        simp only [List.length_map, List.length_append, List.length_cons,
          List.length_nil] at hlength
        refine ⟨List.length_eq_zero_iff.mp (by omega), ?_⟩
        rw [List.length_cons]
        omega
      · rintro ⟨htransactions, hlength⟩
        obtain rfl : lost = [] := List.length_eq_zero_iff.mp (by simpa using hlength)
        rw [htransactions]
        exact .refl _
  · have hdone := binderDone_of_clear (callFailed_clear m')
    have hfailed : (callFailed m').res ≠ 0 := (by decide : (-1 : ℤ) ≠ 0)
    have hnothing : buffersFreed (callFailed m') = [] := by rw [buffersFreed, hdone]; rfl
    refine ⟨⟨_, by rw [hnothing]; exact .refl _⟩, by rw [hdone, hdone], ?_⟩
    rw [hnothing, if_neg hfailed, List.perm_nil, buffersGiven, List.map_eq_nil_iff,
      List.append_eq_nil_iff, List.length_eq_zero_iff]

end Buffers

/-- A round with a reply of four bytes at the address `64`. -/
def replyRound : Round := deliver parseCodes .reply 64 [1, 2, 3, 4] fun _ => 0

theorem callBuffers_freed_iff_reply :
    (buffersGiven parseCodes (callRounds parseCodes (fun _ => 0) default 0 0
      [some replyRound])).Perm [64] := by
  have hcall : binderCall parseCodes ⟨0, fun _ m => m⟩ (fun _ => 0) default default 0 0
      [some replyRound] =
        some ⟨0, bioInitFromTxn (replyRound.buffer.txn 1), replyRound.memory⟩ := by
    have hparse := binderParse_recordBuffer parseCodes 4 64 ⟨0, fun _ m => m⟩ default
      replyRound.memory
    have hrequest : binderRequest (fun _ => 0) default 0 0 =
        some (bioTransfer (fun _ => 0) default 0 0) := if_neg (by decide)
    have hbuffer : replyRound.buffer = recordBuffer parseCodes .reply 4 64 := rfl
    rw [binderCall, hrequest]
    dsimp only
    rw [callLoop, hbuffer, hparse]
    rfl
  exact (callBuffers_freed_iff hcall).2.2.mpr ⟨by decide, by decide⟩

end ExpressOS
