import ExpressOS.BenchBinder.BinderIo
import ExpressOS.Systems.CodeTable

/-!
# Calls and replies

`binder_parse`, `binder_send_reply` and `binder_call` of `bench-binder/binder.c`. The driver is
what fills a read buffer and takes the bytes of a transaction: each `ioctl` of a call gives a
`Round`, and what is handed to the driver is a `Transfer`.
-/

namespace ExpressOS
open Systems

/-- The labels of the switch of `binder_parse`. -/
inductive ParseLabel
  | noop
  | transactionComplete
  | increfs
  | acquire
  | release
  | decrefs
  | transaction
  | reply
  | deadBinder
  | failedReply
  | deadReply
  deriving DecidableEq, Repr

/-- The words of the 32-bit driver. -/
def parseCodes : CodeTable ParseLabel where
  all := [.noop, .transactionComplete, .increfs, .acquire, .release, .decrefs, .transaction,
    .reply, .deadBinder, .failedReply, .deadReply]
  mem_all := by intro k; cases k <;> simp
  code
    | .noop => 0x0000720c
    | .transactionComplete => 0x00007206
    | .increfs => 0x80087207
    | .acquire => 0x80087208
    | .release => 0x80087209
    | .decrefs => 0x8008720a
    | .transaction => 0x80287202
    | .reply => 0x80287203
    | .deadBinder => 0x8004720f
    | .failedReply => 0x00007211
    | .deadReply => 0x00007205
  code_injective := by intro j k h; cases j <;> cases k <;> simp_all

/-- `sizeof(struct binder_txn) / sizeof(uint32_t)` -/
def txnWords : ℕ := 10

def rdataSize : ℕ := 256

def tfStatusCode : ℕ := 0x08

/-- What a `BC_TRANSACTION` or `BC_REPLY` hands to the driver, which takes the bytes at once. -/
structure Transfer where
  target : ℕ
  code : ℕ
  flags : ℕ
  data : List UInt8
  offs : List UInt8

/-- The `BC_FREE_BUFFER` and the `BC_REPLY` that `binder_send_reply` writes. -/
structure SentReply where
  freed : ℕ
  txn : Transfer

/-- The bytes of a message that a transfer points to. -/
def bioTransfer (m : Memory) (bio : BinderIo) (target code : ℕ) : Transfer where
  target := target
  code := code
  flags := 0
  data := m.read bio.data0 (bio.data - bio.data0)
  offs := m.read bio.offs0 (bio.offs - bio.offs0)

def binderSendReply (m : Memory) (reply : BinderIo) (bufferToFree : ℕ) (status : ℤ) :
    SentReply where
  freed := bufferToFree
  txn :=
    if status ≠ 0 then
      { target := 0
        code := 0
        flags := tfStatusCode
        data := leBytes 4 (status % 2 ^ 32).toNat
        offs := [] }
    else bioTransfer m reply 0 0

/-- `binder_handler`: the status, the reply and the memory it leaves. The parser does not look at
the message again. -/
abbrev BinderHandler := BinderTxn → BinderIo → BinderIo → Memory → Option (ℤ × BinderIo × Memory)

/-- What `binder_parse` uses besides its arguments: the address of its array `rdata`, and the
functions that death notifications name. -/
structure Process where
  rdata : ℕ
  died : ℕ → Memory → Memory

/-- A read buffer of words, with the bytes the driver has filled. -/
structure ReadBuffer where
  word : ℕ → ℕ
  size : ℕ

/-- The record at `ptr`. -/
def ReadBuffer.txn (b : ReadBuffer) (ptr : ℕ) : BinderTxn where
  target := b.word ptr
  cookie := b.word (ptr + 1)
  code := b.word (ptr + 2)
  flags := b.word (ptr + 3)
  senderPid := b.word (ptr + 4)
  senderEuid := b.word (ptr + 5)
  dataSize := b.word (ptr + 6)
  offsSize := b.word (ptr + 7)
  data := b.word (ptr + 8)
  offs := b.word (ptr + 9)

/-- `wanted` is whether the pointer `bio` is still set. -/
structure ParseState where
  memory : Memory
  wanted : Bool
  bio : BinderIo
  sent : List SentReply
  r : ℤ

/-- The two structures are set before they are used, so that their first contents do not
matter. -/
def answerTransaction (proc : Process) (func : Option BinderHandler) (txn : BinderTxn)
    (s : ParseState) : Option ParseState :=
  match func with
  | none => some s
  | some func => do
    let reply := bioInit default proc.rdata rdataSize 4
    let msg := bioInitFromTxn txn
    let (res, reply, m) ← func txn msg reply s.memory
    return { s with memory := m, sent := s.sent ++ [binderSendReply m reply txn.data res] }

def takeReply (txn : BinderTxn) (s : ParseState) : ParseState :=
  { s with
    bio := if s.wanted then bioInitFromTxn txn else s.bio
    wanted := false
    r := 0 }

/-- One turn of the `while` loop: the state, and where the next command is unless the function
returns. -/
def parseTurn (codes : CodeTable ParseLabel) (proc : Process) (func : Option BinderHandler)
    (b : ReadBuffer) (ptr : ℕ) (s : ParseState) : Option (ParseState × Option ℕ) :=
  let args := ptr + 1
  match codes.decode (b.word ptr) with
  | some .noop | some .transactionComplete => some (s, some args)
  | some .increfs | some .acquire | some .release | some .decrefs => some (s, some (args + 2))
  | some .transaction =>
    if b.size / 4 - args < txnWords then some ({ s with r := -1 }, none)
    else do
      let s ← answerTransaction proc func (b.txn args) s
      return (s, some (args + txnWords))
  | some .reply =>
    if b.size / 4 - args < txnWords then some ({ s with r := -1 }, none)
    else some (takeReply (b.txn args) s, some (args + txnWords))
  | some .deadBinder =>
    some ({ s with memory := proc.died (b.word args) s.memory }, some (args + 1))
  | some .failedReply | some .deadReply => some ({ s with r := -1 }, some args)
  | none => some ({ s with r := -1 }, none)

/-- The loop from `ptr` on. Each turn moves `ptr`, so the words of the buffer are turns enough. -/
def parseLoop (codes : CodeTable ParseLabel) (proc : Process) (func : Option BinderHandler)
    (b : ReadBuffer) : ℕ → ℕ → ParseState → Option ParseState
  | 0, _, s => some s
  | fuel + 1, ptr, s =>
    if ptr < b.size / 4 then do
      let (s, next) ← parseTurn codes proc func b ptr s
      match next with
      | some ptr => parseLoop codes proc func b fuel ptr s
      | none => some s
    else some s

def binderParse (codes : CodeTable ParseLabel) (proc : Process) (func : Option BinderHandler)
    (wanted : Bool) (bio : BinderIo) (m : Memory) (b : ReadBuffer) : Option ParseState :=
  parseLoop codes proc func b (b.size / 4) 0 ⟨m, wanted, bio, [], 1⟩

/-- What one `ioctl` of the process leaves: its memory and its read buffer. -/
structure Round where
  memory : Memory
  buffer : ReadBuffer

structure CallResult where
  res : ℤ
  reply : BinderIo
  memory : Memory

def callFailed (m : Memory) : CallResult where
  res := -1
  reply := ⟨0, 0, 0, 0, 0, 0, 0 ||| bioIoerror⟩
  memory := m

/-- The transfer of `binder_call`, unless the message has overflowed. -/
def binderRequest (m : Memory) (msg : BinderIo) (target code : ℕ) : Option Transfer :=
  if msg.flags &&& bioOverflow ≠ 0 then none else some (bioTransfer m msg target code)

/-- The `for` loop. A round that is missing is an `ioctl` that fails; without rounds the call is
still waiting, which is `none`. -/
def callLoop (codes : CodeTable ParseLabel) (proc : Process) :
    Memory → BinderIo → List (Option Round) → Option CallResult
  | _, _, [] => none
  | m, _, none :: _ => some (callFailed m)
  | _, reply, some round :: rounds => do
    let s ← binderParse codes proc none true reply round.memory round.buffer
    if s.r = 0 then return ⟨0, s.bio, s.memory⟩
    else if s.r < 0 then return callFailed s.memory
    else callLoop codes proc s.memory s.bio rounds

def binderCall (codes : CodeTable ParseLabel) (proc : Process) (m : Memory)
    (msg reply : BinderIo) (target code : ℕ) (rounds : List (Option Round)) : Option CallResult :=
  match binderRequest m msg target code with
  | none => some (callFailed m)
  | some _ => callLoop codes proc m reply rounds

/-- The buffer that `binder_done` frees, and the reply it leaves. -/
def binderDone (reply : BinderIo) : Option ℕ × BinderIo :=
  if reply.flags &&& bioShared ≠ 0 then (some reply.data0, { reply with flags := 0 })
  else (none, reply)

/-! ### The commands of a read buffer -/

section Commands

variable (codes : CodeTable ParseLabel) (b : ReadBuffer)

/-- Where the command behind the one at `ptr` is, unless the parser returns at this one. -/
def nextCommand (ptr : ℕ) : Option ℕ :=
  let args := ptr + 1
  match codes.decode (b.word ptr) with
  | some .noop | some .transactionComplete | some .failedReply | some .deadReply => some args
  | some .increfs | some .acquire | some .release | some .decrefs => some (args + 2)
  | some .transaction | some .reply =>
    if b.size / 4 - args < txnWords then none else some (args + txnWords)
  | some .deadBinder => some (args + 1)
  | none => none

/-- The places of the commands that the loop comes to from `ptr` on. -/
def commandPlaces : ℕ → ℕ → List ℕ
  | 0, _ => []
  | fuel + 1, ptr =>
    if ptr < b.size / 4 then
      ptr :: (match nextCommand codes b ptr with
        | some ptr => commandPlaces fuel ptr
        | none => [])
    else []

/-- A command of the label with its whole record. -/
def IsRecord (label : ParseLabel) (ptr : ℕ) : Prop :=
  codes.decode (b.word ptr) = some label ∧ txnWords ≤ b.size / 4 - (ptr + 1)

instance (label : ParseLabel) (ptr : ℕ) : Decidable (IsRecord codes b label ptr) :=
  inferInstanceAs (Decidable (_ ∧ _))

/-- The records of a label among the commands at some places. -/
def recordsAt (label : ParseLabel) (places : List ℕ) : List BinderTxn :=
  (places.filter (fun ptr => IsRecord codes b label ptr)).map (fun ptr => b.txn (ptr + 1))

/-- The records of a label in the buffer. -/
def ReadBuffer.records (label : ParseLabel) : List BinderTxn :=
  recordsAt codes b label (commandPlaces codes b (b.size / 4) 0)

/-- There is no death notification in the buffer. -/
def ReadBuffer.Undying : Prop :=
  ∀ ptr ∈ commandPlaces codes b (b.size / 4) 0, codes.decode (b.word ptr) ≠ some .deadBinder

variable {codes b}

lemma mem_recordsAt {label : ParseLabel} {places : List ℕ} {ptr : ℕ} (hptr : ptr ∈ places)
    (hrecord : IsRecord codes b label ptr) :
    b.txn (ptr + 1) ∈ recordsAt codes b label places :=
  List.mem_map_of_mem (List.mem_filter.mpr ⟨hptr, by simpa using hrecord⟩)

lemma IsRecord.label_eq {j k : ParseLabel} {ptr : ℕ} (hj : IsRecord codes b j ptr)
    (hk : IsRecord codes b k ptr) : j = k :=
  Option.some.inj (hj.1.symm.trans hk.1)

variable (codes b) in
/-- What one turn does to the state. -/
inductive TurnEffect (proc : Process) (func : Option BinderHandler) (ptr : ℕ) (s : ParseState) :
    Option ParseState → Prop
  | answer (h : IsRecord codes b .transaction ptr) :
    TurnEffect proc func ptr s (answerTransaction proc func (b.txn (ptr + 1)) s)
  | reply (h : IsRecord codes b .reply ptr) :
    TurnEffect proc func ptr s (some (takeReply (b.txn (ptr + 1)) s))
  | skip (h : ¬ IsRecord codes b .transaction ptr) : TurnEffect proc func ptr s (some s)
  | fail (h : ¬ IsRecord codes b .transaction ptr) :
    TurnEffect proc func ptr s (some { s with r := -1 })
  | died (h : codes.decode (b.word ptr) = some .deadBinder) :
    TurnEffect proc func ptr s
      (some { s with memory := proc.died (b.word (ptr + 1)) s.memory })

variable (codes b) in
/-- A turn has one of the effects, and where the loop goes does not depend on the state. -/
theorem parseTurn_eq (proc : Process) (func : Option BinderHandler) (ptr : ℕ) (s : ParseState) :
    ∃ t, TurnEffect codes b proc func ptr s t ∧
      parseTurn codes proc func b ptr s = t.map (·, nextCommand codes b ptr) := by
  have hnot : ∀ {label}, codes.decode (b.word ptr) = label → label ≠ some .transaction →
      ¬ IsRecord codes b .transaction ptr := fun h hne hrecord => hne (h.symm.trans hrecord.1)
  unfold parseTurn nextCommand
  cases hlabel : codes.decode (b.word ptr) with
  | none => exact ⟨_, .fail (hnot hlabel nofun), rfl⟩
  | some label =>
    cases label
    case noop | transactionComplete | increfs | acquire | release | decrefs =>
      exact ⟨_, .skip (hnot hlabel nofun), rfl⟩
    case failedReply | deadReply => exact ⟨_, .fail (hnot hlabel nofun), rfl⟩
    case deadBinder => exact ⟨_, .died hlabel, rfl⟩
    case transaction =>
      by_cases hsmall : b.size / 4 - (ptr + 1) < txnWords
      · exact ⟨_, .fail (fun h => absurd h.2 (not_le.mpr hsmall)), by simp [hsmall]⟩
      · refine ⟨_, .answer ⟨hlabel, not_lt.mp hsmall⟩, ?_⟩
        simp only [if_neg hsmall, Option.map_eq_bind]
        rfl
    case reply =>
      by_cases hsmall : b.size / 4 - (ptr + 1) < txnWords
      · exact ⟨_, .fail (hnot hlabel nofun), by simp [hsmall]⟩
      · exact ⟨_, .reply ⟨hlabel, not_lt.mp hsmall⟩, by simp [hsmall]⟩

variable {proc : Process} {func : Option BinderHandler}

lemma commandPlaces_succ_of_lt {fuel ptr : ℕ} (h : ptr < b.size / 4) :
    commandPlaces codes b (fuel + 1) ptr =
      ptr :: (match nextCommand codes b ptr with
        | some ptr => commandPlaces codes b fuel ptr
        | none => []) :=
  if_pos h

lemma parseLoop_succ_of_lt {fuel ptr : ℕ} (h : ptr < b.size / 4) (s : ParseState) :
    parseLoop codes proc func b (fuel + 1) ptr s =
      (parseTurn codes proc func b ptr s).bind fun (s, next) =>
        match next with
        | some ptr => parseLoop codes proc func b fuel ptr s
        | none => some s :=
  if_pos h

/-- What every command of the buffer keeps, the loop keeps; and it comes to its end. -/
theorem parseLoop_invariant {P : ParseState → Prop} {fuel ptr : ℕ} {s : ParseState}
    (hturn : ∀ place ∈ commandPlaces codes b fuel ptr, ∀ s, P s →
      ∀ t, TurnEffect codes b proc func place s t → ∃ s', t = some s' ∧ P s')
    (hs : P s) : ∃ s', parseLoop codes proc func b fuel ptr s = some s' ∧ P s' := by
  induction fuel generalizing ptr s with
  | zero => exact ⟨s, rfl, hs⟩
  | succ fuel ih =>
    by_cases hlt : ptr < b.size / 4
    · rw [commandPlaces_succ_of_lt hlt] at hturn
      obtain ⟨t, heffect, heq⟩ := parseTurn_eq codes b proc func ptr s
      obtain ⟨s₁, rfl, hs₁⟩ := hturn ptr List.mem_cons_self s hs t heffect
      rw [parseLoop_succ_of_lt hlt, heq]
      cases hnext : nextCommand codes b ptr with
      | none => exact ⟨s₁, rfl, hs₁⟩
      | some next =>
        rw [hnext] at hturn
        exact ih (fun place hplace => hturn place (List.mem_cons_of_mem _ hplace)) hs₁
    · exact ⟨s, if_neg hlt, hs⟩

lemma TurnEffect.freed {func : BinderHandler} {ptr : ℕ} {s s' : ParseState}
    {t : Option ParseState} (h : TurnEffect codes b proc (some func) ptr s t)
    (ht : t = some s') :
    s'.sent.map (·.freed) =
      s.sent.map (·.freed) ++ (recordsAt codes b .transaction [ptr]).map (·.data) := by
  have hnone : ¬ IsRecord codes b .transaction ptr →
      recordsAt codes b .transaction [ptr] = [] := fun hnot => by simp [recordsAt, hnot]
  cases h with
  | answer hrecord =>
    obtain ⟨⟨res, reply, m⟩, -, hs⟩ := Option.bind_eq_some_iff.mp ht
    obtain rfl := Option.some.inj hs
    simp [recordsAt, hrecord, binderSendReply]
  | reply hrecord =>
    obtain rfl := Option.some.inj ht
    rw [hnone (fun h => nomatch h.label_eq hrecord), List.map_nil, List.append_nil, takeReply]
  | skip hnot =>
    obtain rfl := Option.some.inj ht
    rw [hnone hnot, List.map_nil, List.append_nil]
  | fail hnot =>
    obtain rfl := Option.some.inj ht
    rw [hnone hnot, List.map_nil, List.append_nil]
  | died hdead =>
    obtain rfl := Option.some.inj ht
    rw [hnone (fun h => nomatch h.1.symm.trans hdead), List.map_nil, List.append_nil]

/-- A handler's process replies once to each transaction, and frees its buffer. -/
theorem parseLoop_freed {func : BinderHandler} {fuel ptr : ℕ} {s s' : ParseState}
    (h : parseLoop codes proc (some func) b fuel ptr s = some s') :
    s'.sent.map (·.freed) = s.sent.map (·.freed) ++
      (recordsAt codes b .transaction (commandPlaces codes b fuel ptr)).map (·.data) := by
  induction fuel generalizing ptr s with
  | zero =>
    obtain rfl := Option.some.inj h
    simp [recordsAt, commandPlaces]
  | succ fuel ih =>
    by_cases hlt : ptr < b.size / 4
    · obtain ⟨t, heffect, heq⟩ := parseTurn_eq codes b proc (some func) ptr s
      rw [parseLoop_succ_of_lt hlt, heq] at h
      rw [commandPlaces_succ_of_lt hlt]
      cases t with
      | none => cases h
      | some s₁ =>
        have hfirst := heffect.freed rfl
        rw [← List.singleton_append, recordsAt, List.filter_append, List.map_append,
          List.map_append, ← List.append_assoc, ← recordsAt, ← recordsAt, ← hfirst]
        cases hnext : nextCommand codes b ptr with
        | none =>
          rw [hnext] at h
          obtain rfl := Option.some.inj h
          simp [recordsAt]
        | some next =>
          rw [hnext] at h
          exact ih h
    · obtain rfl := Option.some.inj ((if_neg hlt).symm.trans h)
      simp [recordsAt, commandPlaces, hlt]

variable (proc) in
/-- The caller's parse: with no death notification it leaves memory alone, and it gives `0` only
with a reply of the buffer in `bio`. -/
theorem binderParse_client (hundying : b.Undying codes) (bio : BinderIo) (m : Memory) :
    ∃ s, binderParse codes proc none true bio m b = some s ∧ s.memory = m ∧
      (s.r = 0 → ∃ txn ∈ b.records codes .reply, s.bio = bioInitFromTxn txn) := by
  let P : ParseState → Prop := fun s => s.memory = m ∧
    (s.wanted = true ∧ s.r ≠ 0 ∨ ∃ txn ∈ b.records codes .reply, s.bio = bioInitFromTxn txn)
  have hstart : P ⟨m, true, bio, [], 1⟩ := ⟨rfl, .inl ⟨rfl, one_ne_zero⟩⟩
  have hturn : ∀ ptr ∈ commandPlaces codes b (b.size / 4) 0, ∀ s, P s →
      ∀ t, TurnEffect codes b proc none ptr s t → ∃ s', t = some s' ∧ P s' := by
    intro ptr hptr s hs t heffect
    cases heffect with
    | answer => exact ⟨s, rfl, hs⟩
    | reply hrecord =>
      refine ⟨_, rfl, hs.1, .inr ?_⟩
      by_cases hwanted : s.wanted = true
      · exact ⟨_, mem_recordsAt hptr hrecord, if_pos hwanted⟩
      · obtain ⟨txn, htxn, hbio⟩ := hs.2.resolve_left (fun hwaiting => hwanted hwaiting.1)
        exact ⟨txn, htxn, (if_neg hwanted).trans hbio⟩
    | skip => exact ⟨s, rfl, hs⟩
    | fail => exact ⟨_, rfl, hs.1, hs.2.imp_left (fun hwaiting => ⟨hwaiting.1, by simp⟩)⟩
    | died hdead => exact absurd hdead (hundying ptr hptr)
  obtain ⟨s, hparse, hmemory, hreply⟩ := parseLoop_invariant hturn hstart
  exact ⟨s, hparse, hmemory,
    fun hr => hreply.resolve_left (fun hwaiting => hwaiting.2 hr)⟩

end Commands

/-! ### Rounds that deliver bytes by one command -/

/-- The read buffer of one command with its record. -/
def recordBuffer (codes : CodeTable ParseLabel) (label : ParseLabel) (dataSize data : ℕ) :
    ReadBuffer where
  word i :=
    if i = 0 then codes.code label else if i = 7 then dataSize else if i = 9 then data else 0
  size := 4 * (1 + txnWords)

/-- The driver stores the bytes at `data`, and says so by the command. -/
def deliver (codes : CodeTable ParseLabel) (label : ParseLabel) (data : ℕ) (bytes : List UInt8)
    (m : Memory) : Round where
  memory := m.write data bytes
  buffer := recordBuffer codes label bytes.length data

section Deliveries

variable (codes : CodeTable ParseLabel) (label : ParseLabel) (dataSize data : ℕ)

lemma recordBuffer_words :
    (recordBuffer codes label dataSize data).size / 4 = 1 + txnWords :=
  Nat.mul_div_cancel_left _ (by decide)

lemma isRecord_recordBuffer : IsRecord codes (recordBuffer codes label dataSize data) label 0 := by
  refine ⟨codes.decode_code label, ?_⟩
  rw [recordBuffer_words]
  omega

variable {label} (hlabel : label = .transaction ∨ label = .reply)

include hlabel

lemma nextCommand_recordBuffer :
    nextCommand codes (recordBuffer codes label dataSize data) 0 = some (1 + txnWords) := by
  have hrecord := isRecord_recordBuffer codes label dataSize data
  have hwhole := not_lt.mpr hrecord.2
  unfold nextCommand
  rw [hrecord.1]
  obtain rfl | rfl := hlabel
  · exact if_neg hwhole
  · exact if_neg hwhole

lemma commandPlaces_recordBuffer :
    commandPlaces codes (recordBuffer codes label dataSize data)
      ((recordBuffer codes label dataSize data).size / 4) 0 = [0] := by
  have hlt : 0 < (recordBuffer codes label dataSize data).size / 4 := by
    rw [recordBuffer_words]
    omega
  rw [recordBuffer_words, Nat.add_comm 1, commandPlaces_succ_of_lt hlt,
    nextCommand_recordBuffer codes dataSize data hlabel]
  dsimp only
  rw [txnWords, commandPlaces, if_neg (by rw [recordBuffer_words, txnWords]; omega)]

lemma records_recordBuffer :
    (recordBuffer codes label dataSize data).records codes label =
      [(recordBuffer codes label dataSize data).txn 1] := by
  have hrecord := isRecord_recordBuffer codes label dataSize data
  rw [ReadBuffer.records, commandPlaces_recordBuffer codes dataSize data hlabel]
  simp [recordsAt, hrecord]

lemma eq_of_mem_deliver {bytes : List UInt8} {m : Memory} {txn : BinderTxn}
    (h : txn ∈ (deliver codes label data bytes m).buffer.records codes label) :
    txn = (recordBuffer codes label bytes.length data).txn 1 := by
  rw [deliver, records_recordBuffer codes bytes.length data hlabel] at h
  exact List.mem_singleton.mp h

lemma undying_recordBuffer : (recordBuffer codes label dataSize data).Undying codes := by
  intro ptr hptr
  rw [commandPlaces_recordBuffer codes dataSize data hlabel] at hptr
  rw [List.mem_singleton.mp hptr, (isRecord_recordBuffer codes label dataSize data).1]
  obtain rfl | rfl := hlabel
  · nofun
  · nofun

omit hlabel

/-- The caller takes such a reply. -/
lemma binderParse_recordBuffer (proc : Process) (bio : BinderIo) (m : Memory) :
    binderParse codes proc none true bio m (recordBuffer codes .reply dataSize data) =
      some ⟨m, false, bioInitFromTxn ((recordBuffer codes .reply dataSize data).txn 1), [], 0⟩ := by
  have hrecord := isRecord_recordBuffer codes .reply dataSize data
  have hlt : 0 < (recordBuffer codes .reply dataSize data).size / 4 := by
    rw [recordBuffer_words]
    omega
  have hturn (s : ParseState) :
      parseTurn codes proc none (recordBuffer codes .reply dataSize data) 0 s =
        some (takeReply ((recordBuffer codes .reply dataSize data).txn 1) s,
          some (1 + txnWords)) := by
    unfold parseTurn
    rw [hrecord.1]
    exact if_neg (not_lt.mpr hrecord.2)
  rw [binderParse, recordBuffer_words, Nat.add_comm 1, parseLoop_succ_of_lt hlt, hturn]
  change parseLoop _ _ _ _ txnWords (1 + txnWords) _ = _
  rw [txnWords, parseLoop, if_neg (by rw [recordBuffer_words, txnWords]; omega)]
  rfl

end Deliveries

section Calls

variable {codes : CodeTable ParseLabel} {proc : Process} {m : Memory} {msg reply : BinderIo}
  {target code : ℕ} {rounds : List (Option Round)} {res : CallResult}

lemma callLoop_reply (hundying : ∀ round, some round ∈ rounds → round.buffer.Undying codes)
    (h : callLoop codes proc m reply rounds = some res) (hres : res.res = 0) :
    ∃ round, some round ∈ rounds ∧ res.memory = round.memory ∧
      ∃ txn ∈ round.buffer.records codes .reply, res.reply = bioInitFromTxn txn := by
  induction rounds generalizing m reply with
  | nil => cases h
  | cons round rounds ih =>
    cases round with
    | none =>
      obtain rfl := Option.some.inj h
      cases hres
    | some round =>
      obtain ⟨s, hparse, hmemory, hreply⟩ := binderParse_client proc
        (hundying round List.mem_cons_self) reply round.memory
      simp only [callLoop, hparse, Option.bind_eq_bind, Option.bind_some] at h
      by_cases hzero : s.r = 0
      · rw [if_pos hzero] at h
        obtain rfl := Option.some.inj h
        exact ⟨round, List.mem_cons_self, hmemory, hreply hzero⟩
      · rw [if_neg hzero] at h
        by_cases hnegative : s.r < 0
        · rw [if_pos hnegative] at h
          obtain rfl := Option.some.inj h
          cases hres
        · rw [if_neg hnegative] at h
          obtain ⟨round', hmem, hrest⟩ :=
            ih (fun round' hmem => hundying round' (List.mem_cons_of_mem _ hmem)) h
          exact ⟨round', List.mem_cons_of_mem _ hmem, hrest⟩

/-- A call that succeeds has the reply that one of its rounds has brought. -/
theorem binderCall_reply
    (hundying : ∀ round, some round ∈ rounds → round.buffer.Undying codes)
    (h : binderCall codes proc m msg reply target code rounds = some res) (hres : res.res = 0) :
    ∃ round, some round ∈ rounds ∧ res.memory = round.memory ∧
      ∃ txn ∈ round.buffer.records codes .reply, res.reply = bioInitFromTxn txn := by
  unfold binderCall at h
  split at h
  · obtain rfl := Option.some.inj h
    cases hres
  · exact callLoop_reply hundying h hres

end Calls

end ExpressOS
