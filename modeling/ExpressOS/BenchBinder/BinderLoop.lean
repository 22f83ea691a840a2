import ExpressOS.BenchBinder.BinderCall
import ExpressOS.Systems.Machine

/-!
# The loop of a server

`binder_loop` of `bench-binder/binder.c` reads one buffer after the other and has every
transaction answered. It ends at the first `ioctl` that fails and at the first buffer that passes
a verdict: a reply, a failure, or a command that cannot be parsed.
-/

namespace ExpressOS
open Systems

/-- The messages with which the loop ends. -/
inductive BinderLoopEnd
  | ioctlFailed
  | unexpectedReply
  | ioError
  deriving DecidableEq, Repr

structure LoopState where
  memory : Memory
  sent : List SentReply
  ended : Option BinderLoopEnd

/-- What the loop makes of the value of `binder_parse`. -/
def loopEnd (r : ℤ) : Option BinderLoopEnd :=
  if r = 0 then some .unexpectedReply else if r < 0 then some .ioError else none

/-- One turn of the `for` loop; a round that is missing is an `ioctl` that fails. -/
def loopTurn (codes : CodeTable ParseLabel) (proc : Process) (func : BinderHandler)
    (s : LoopState) (round : Option Round) : Option LoopState :=
  if s.ended ≠ none then none
  else match round with
    | none => some { s with ended := some .ioctlFailed }
    | some round => do
      let p ← binderParse codes proc (some func) false default round.memory round.buffer
      return ⟨p.memory, s.sent ++ p.sent, loopEnd p.r⟩

/-- The loop as a machine whose labels are what the driver brings. -/
def binderLoop (codes : CodeTable ParseLabel) (proc : Process) (func : BinderHandler)
    (m : Memory) : Machine LoopState (Option Round) where
  start := ⟨m, [], none⟩
  step := loopTurn codes proc func

/-! ### What a buffer says of the loop -/

section Verdicts

variable (codes : CodeTable ParseLabel) (b : ReadBuffer)

/-- The value that the command at `ptr` gives to `r`, if it gives one. -/
def verdictAt (ptr : ℕ) : Option ℤ :=
  let whole := txnWords ≤ b.size / 4 - (ptr + 1)
  match codes.decode (b.word ptr) with
  | some .reply => some (if whole then 0 else -1)
  | some .transaction => if whole then none else some (-1)
  | some .failedReply | some .deadReply | none => some (-1)
  | _ => none

/-- The verdicts of a buffer. -/
def ReadBuffer.verdicts : List ℤ :=
  (commandPlaces codes b (b.size / 4) 0).filterMap (verdictAt codes b)

/-- What ends the loop after a label, if anything does. -/
def endOf : Option Round → Option BinderLoopEnd
  | none => some .ioctlFailed
  | some round => loopEnd ((round.buffer.verdicts codes).getLast?.getD 1)

/-- The buffers of the transactions that a label brings. -/
def transactionBuffers : Option Round → List ℕ
  | none => []
  | some round => (round.buffer.records codes .transaction).map (·.data)

variable {codes b} {proc : Process} {func : Option BinderHandler}

lemma answerTransaction_r {txn : BinderTxn} {s s' : ParseState}
    (h : answerTransaction proc func txn s = some s') : s'.r = s.r := by
  cases func with
  | none =>
    cases h
    rfl
  | some func =>
    obtain ⟨⟨res, reply, m⟩, -, hs⟩ := Option.bind_eq_some_iff.mp h
    cases hs
    rfl

lemma parseTurn_verdict {ptr : ℕ} {s s' : ParseState} {next : Option ℕ}
    (h : parseTurn codes proc func b ptr s = some (s', next)) :
    s'.r = (verdictAt codes b ptr).getD s.r := by
  unfold parseTurn at h
  unfold verdictAt
  dsimp only at h ⊢
  cases hlabel : codes.decode (b.word ptr) with
  | none =>
    rw [hlabel] at h
    cases h
    rfl
  | some label =>
    rw [hlabel] at h
    cases label
    case noop | transactionComplete | increfs | acquire | release | decrefs | failedReply
      | deadReply | deadBinder =>
      cases h
      rfl
    case transaction =>
      by_cases hsmall : b.size / 4 - (ptr + 1) < txnWords
      · simp only [if_pos hsmall] at h
        simp only [if_neg (not_le.mpr hsmall)]
        cases h
        rfl
      · simp only [if_neg hsmall] at h
        obtain ⟨s₁, hanswer, hs⟩ := Option.bind_eq_some_iff.mp h
        simp only [if_pos (not_lt.mp hsmall)]
        cases hs
        exact answerTransaction_r hanswer
    case reply =>
      by_cases hsmall : b.size / 4 - (ptr + 1) < txnWords
      · simp only [if_pos hsmall] at h
        simp only [if_neg (not_le.mpr hsmall)]
        cases h
        rfl
      · simp only [if_neg hsmall] at h
        simp only [if_pos (not_lt.mp hsmall)]
        cases h
        rfl

lemma getLast_filterMap_cons {α β : Type} (f : α → Option β) (a : α) (l : List α) (d : β) :
    ((a :: l).filterMap f).getLast?.getD d = (l.filterMap f).getLast?.getD ((f a).getD d) := by
  cases hfa : f a with
  | none => rw [List.filterMap_cons_none hfa, Option.getD_none]
  | some v =>
    rw [List.filterMap_cons_some hfa, List.getLast?_cons, Option.getD_some, Option.getD_some]

/-- The last verdict of the commands is the value of the loop. -/
lemma parseLoop_verdict {fuel ptr : ℕ} {s s' : ParseState}
    (h : parseLoop codes proc func b fuel ptr s = some s') :
    s'.r = (((commandPlaces codes b fuel ptr).filterMap (verdictAt codes b)).getLast?).getD
      s.r := by
  induction fuel generalizing ptr s with
  | zero =>
    cases h
    rfl
  | succ fuel ih =>
    by_cases hlt : ptr < b.size / 4
    · rw [parseLoop_succ_of_lt hlt] at h
      obtain ⟨⟨s₁, next⟩, hturn, hrest⟩ := Option.bind_eq_some_iff.mp h
      have hr := parseTurn_verdict hturn
      obtain ⟨t, -, heq⟩ := parseTurn_eq codes b proc func ptr s
      have hnext : nextCommand codes b ptr = next := by
        rw [hturn] at heq
        obtain ⟨s₂, -, hpair⟩ := Option.map_eq_some_iff.mp heq.symm
        exact congrArg Prod.snd hpair
      rw [commandPlaces_succ_of_lt hlt, hnext, getLast_filterMap_cons, ← hr]
      cases next with
      | none =>
        cases hrest
        rfl
      | some next => exact ih hrest
    · rw [commandPlaces, if_neg hlt]
      cases (if_neg hlt).symm.trans h
      rfl

end Verdicts

/-! ### Runs of the loop -/

section Runs

variable {codes : CodeTable ParseLabel} {proc : Process} {func : BinderHandler}
  {s s' : LoopState} {label : Option Round} {labels : List (Option Round)} {m : Memory}

/-- A turn answers the transactions of its buffer, and ends the loop as the buffer says. -/
lemma loopTurn_spec (h : loopTurn codes proc func s label = some s') :
    s.ended = none ∧ s'.ended = endOf codes label ∧
      s'.sent.map (·.freed) = s.sent.map (·.freed) ++ transactionBuffers codes label := by
  unfold loopTurn at h
  by_cases hended : s.ended = none
  · rw [if_neg (not_not_intro hended)] at h
    cases label with
    | none =>
      cases h
      exact ⟨hended, rfl, (List.append_nil _).symm⟩
    | some round =>
      obtain ⟨p, hparse, hs⟩ := Option.bind_eq_some_iff.mp h
      cases hs
      refine ⟨hended, congrArg loopEnd (parseLoop_verdict hparse), ?_⟩
      rw [List.map_append, parseLoop_freed hparse]
      rfl
  · rw [if_pos hended] at h
    cases h

/-- Where the handler always returns, every turn of a loop that has not ended can be taken. -/
lemma loopTurn_total (hfunc : ∀ txn msg reply m, (func txn msg reply m).isSome)
    (h : s.ended = none) (label : Option Round) :
    ∃ s', loopTurn codes proc func s label = some s' := by
  unfold loopTurn
  rw [if_neg (not_not_intro h)]
  cases label with
  | none => exact ⟨_, rfl⟩
  | some round =>
    have hturn : ∀ place ∈ commandPlaces codes round.buffer (round.buffer.size / 4) 0,
        ∀ s : ParseState, True → ∀ t, TurnEffect codes round.buffer proc (some func) place s t →
        ∃ s', t = some s' ∧ True := by
      intro place _ s _ t heffect
      cases heffect with
      | answer hrecord =>
        let txn := round.buffer.txn (place + 1)
        obtain ⟨r, hr⟩ := Option.isSome_iff_exists.mp (hfunc txn (bioInitFromTxn txn)
          (bioInit default proc.rdata rdataSize 4) s.memory)
        exact ⟨_, Option.bind_eq_some_iff.mpr ⟨r, hr, rfl⟩, trivial⟩
      | reply | skip | fail | died => exact ⟨_, rfl, trivial⟩
    obtain ⟨p, hparse, -⟩ := parseLoop_invariant hturn
      (s := ⟨round.memory, false, default, [], 1⟩) trivial
    exact ⟨_, Option.bind_eq_some_iff.mpr ⟨p, hparse, rfl⟩⟩

lemma reaches_concat_iff {label : Option Round} :
    (binderLoop codes proc func m).Reaches (labels ++ [label]) s' ↔
      ∃ s, (binderLoop codes proc func m).Reaches labels s ∧
        loopTurn codes proc func s label = some s' := by
  rw [Machine.Reaches, Machine.run_append, Option.bind_eq_some_iff]
  apply exists_congr
  intro s
  apply and_congr_right
  intro _
  change (loopTurn codes proc func s label).bind some = some s' ↔ _
  rw [Option.bind_fun_some]

/-- What a run of the loop has sent, and whether it has ended. -/
theorem binderLoop_run (h : (binderLoop codes proc func m).Reaches labels s) :
    s.sent.map (·.freed) = labels.flatMap (transactionBuffers codes) ∧
      s.ended = labels.getLast?.bind (endOf codes) := by
  induction labels using List.reverseRecOn generalizing s with
  | nil =>
    cases h
    exact ⟨rfl, rfl⟩
  | append_singleton labels label ih =>
    obtain ⟨t, hbefore, hturn⟩ := reaches_concat_iff.mp h
    obtain ⟨-, hended, hsent⟩ := loopTurn_spec hturn
    constructor
    · rw [hsent, (ih hbefore).1, List.flatMap_append, List.flatMap_singleton]
    · rw [hended, List.getLast?_concat]
      rfl

lemma forall_endOf_concat_iff :
    (∀ l ∈ labels, endOf codes l = none) ↔
      (∀ l ∈ labels.dropLast, endOf codes l = none) ∧
        labels.getLast?.bind (endOf codes) = none := by
  cases labels using List.reverseRecOn with
  | nil => simp
  | append_singleton labels label =>
    rw [List.dropLast_concat, List.getLast?_concat, List.forall_mem_append]
    apply and_congr_right
    intro _
    simp

/-- The runs of the loop are the sequences of rounds of which none but the last ends it. -/
lemma exists_reaches_iff (hfunc : ∀ txn msg reply m, (func txn msg reply m).isSome) :
    (∃ s, (binderLoop codes proc func m).Reaches labels s) ↔
      ∀ l ∈ labels.dropLast, endOf codes l = none := by
  induction labels using List.reverseRecOn with
  | nil => exact iff_of_true ⟨_, rfl⟩ nofun
  | append_singleton labels label ih =>
    rw [List.dropLast_concat, forall_endOf_concat_iff, ← ih]
    constructor
    · rintro ⟨s, hs⟩
      obtain ⟨t, hbefore, hturn⟩ := reaches_concat_iff.mp hs
      refine ⟨⟨t, hbefore⟩, ?_⟩
      rw [← (binderLoop_run hbefore).2]
      exact (loopTurn_spec hturn).1
    · rintro ⟨⟨t, hbefore⟩, hended⟩
      rw [← (binderLoop_run hbefore).2] at hended
      obtain ⟨s, hturn⟩ := loopTurn_total hfunc hended label
      exact ⟨s, reaches_concat_iff.mpr ⟨t, hbefore, hturn⟩⟩

/-- A server whose handler returns answers every transaction of every buffer it reads once and in
order, and frees its buffer; and it goes on exactly until an `ioctl` fails or the last verdict of
a buffer is a reply or a failure. -/
theorem binderLoop_serves (hfunc : ∀ txn msg reply m, (func txn msg reply m).isSome)
    (codes : CodeTable ParseLabel) (proc : Process) (m : Memory) (labels : List (Option Round)) :
    ((∃ s, (binderLoop codes proc func m).Reaches labels s) ↔
      ∀ l ∈ labels.dropLast, endOf codes l = none) ∧
    ∀ s, (binderLoop codes proc func m).Reaches labels s →
      s.sent.map (·.freed) = labels.flatMap (transactionBuffers codes) ∧
      s.ended = labels.getLast?.bind (endOf codes) :=
  ⟨exists_reaches_iff hfunc, fun _ => binderLoop_run⟩

/-- A handler that replies with nothing. -/
def emptyHandler : BinderHandler :=
  fun _ _ reply m => some (0, reply, m)

/-- One transaction, and an `ioctl` that fails. -/
theorem binderLoop_serves_one :
    ∃ s, (binderLoop parseCodes ⟨0, fun _ m => m⟩ emptyHandler (fun _ => 0)).Reaches
        [some (deliver parseCodes .transaction 20000 [5, 0, 0, 0] (fun _ => 0)), none] s ∧
      s.sent.map (·.freed) = [20000] ∧ s.ended = some .ioctlFailed := by
  have hfunc : ∀ txn msg reply m, (emptyHandler txn msg reply m).isSome := fun _ _ _ _ => rfl
  obtain ⟨hruns, hsent⟩ := binderLoop_serves hfunc parseCodes ⟨0, fun _ m => m⟩ (fun _ => 0)
    [some (deliver parseCodes .transaction 20000 [5, 0, 0, 0] (fun _ => 0)), none]
  obtain ⟨s, hs⟩ := hruns.mpr (by decide)
  exact ⟨s, hs, (hsent s hs).1.trans (by decide), (hsent s hs).2⟩

end Runs

end ExpressOS
