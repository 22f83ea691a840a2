import ExpressOS.BenchBinder.Messages

/-!
# Calls to the service manager

`svcmgr_publish` and `svcmgr_lookup` of `bench-binder/bench-binder.c` and `bench-binder/bctest.c`.
Both have 512 bytes for a message that names the service, and what they hand to the driver after
the call is the reference they keep and the buffer of the reply.
-/

namespace ExpressOS
open Systems

def svcMgrGetService : ℕ := 1
def svcMgrCheckService : ℕ := 2
def svcMgrAddService : ℕ := 3

/-- The bytes of `SVC_MGR_NAME`. -/
def svcMgrName : List ℕ :=
  "android.os.IServiceManager".toList.map Char.toNat

/-- `sizeof(iodata)` -/
def svcmgrIodataSize : ℕ := 512

/-- What the process hands to the driver besides transactions. -/
inductive DriverWrite
  | acquire (ptr : ℕ)
  | freeBuffer (ptr : ℕ)
  deriving DecidableEq, Repr

/-- The array on the stack, and the places of `SVC_MGR_NAME` and of the name that is passed. -/
structure SvcmgrPlaces where
  iodata : ℕ
  service : ℕ
  name : ℕ

/-- The strict mode header, the two names, and what is put behind them. -/
def svcmgrMessage (a : SvcmgrPlaces) (more : List Put) (m : Memory) :
    Option (Memory × BinderIo) :=
  putAll m (bioInit default a.iodata svcmgrIodataSize 4)
    ([.uint32 0, .string16X a.service, .string16X a.name] ++ more)

/-- What a function returns, and what it has handed to the driver after its call. -/
structure SvcmgrResult (α : Type) where
  value : α
  writes : List DriverWrite
  deriving DecidableEq, Repr

/-- The `unsigned` status as the `int` that is returned. -/
def toInt (n : ℕ) : ℤ :=
  if n < 2 ^ 31 then n else (n : ℤ) - 2 ^ 32

def binderDoneWrites (reply : BinderIo) : List DriverWrite :=
  ((binderDone reply).1.map DriverWrite.freeBuffer).toList

def svcmgrPublish (codes : CodeTable ParseLabel) (proc : Process) (a : SvcmgrPlaces)
    (target ptr : ℕ) (m : Memory) (rounds : List (Option Round)) :
    Option (SvcmgrResult ℤ) := do
  let (m, msg) ← svcmgrMessage a [.obj ptr] m
  let call ← binderCall codes proc m msg default target svcMgrAddService rounds
  if call.res ≠ 0 then return ⟨-1, []⟩
  let (status, reply) := bioGetUint32 call.memory call.reply
  return ⟨toInt status, binderDoneWrites reply⟩

/-- The code is `SVC_MGR_GET_SERVICE` in the one file and `SVC_MGR_CHECK_SERVICE` in the other. -/
def svcmgrLookup (codes : CodeTable ParseLabel) (proc : Process) (a : SvcmgrPlaces)
    (target code : ℕ) (m : Memory) (rounds : List (Option Round)) :
    Option (SvcmgrResult ℕ) := do
  let (m, msg) ← svcmgrMessage a [] m
  let call ← binderCall codes proc m msg default target code rounds
  if call.res ≠ 0 then return ⟨0, []⟩
  let (ptr, reply) := bioGetRef call.memory call.reply
  return ⟨ptr, (if ptr ≠ 0 then [.acquire ptr] else []) ++ binderDoneWrites reply⟩

/-- The two names are strings outside of the array. -/
structure SvcmgrPlaces.Hold (a : SvcmgrPlaces) (m : Memory) (name : List ℕ) : Prop where
  buffer : IsBuffer a.iodata svcmgrIodataSize 4
  service_ne : a.service ≠ 0
  service : Source (Memory.bytes m a.service) 1 a.service a.iodata (a.iodata + svcmgrIodataSize)
    svcMgrName
  name_ne : a.name ≠ 0
  name : Source (Memory.bytes m a.name) 1 a.name a.iodata (a.iodata + svcmgrIodataSize) name

section Requests

variable {a : SvcmgrPlaces} {m : Memory} {name : List ℕ}

/-- The items of a request. -/
def svcmgrItems (name : List ℕ) (more : List Item) : List Item :=
  [.word 0, .text svcMgrName, textItem name] ++ more

lemma SvcmgrPlaces.Hold.puts (h : a.Hold m name) {more : List Put} {items : List Item}
    (hmore : List.Forall₂ (PutsItem m a.iodata (a.iodata + svcmgrIodataSize)) more items) :
    List.Forall₂ (PutsItem m a.iodata (a.iodata + svcmgrIodataSize))
      ([.uint32 0, .string16X a.service, .string16X a.name] ++ more) (svcmgrItems name items) := by
  have hservice : PutsItem m a.iodata (a.iodata + svcmgrIodataSize) (.string16X a.service)
      (.text svcMgrName) := by
    have hshort : svcMgrName.length < maxBioSize / 2 := by decide
    rw [← textItem_of_short hshort]
    exact .string16X h.service_ne h.service
  exact .cons (.uint32 (by decide)) (.cons hservice (.cons (.string16X h.name_ne h.name) hmore))

/-- A memory with the two names, the one that is passed being `a`. -/
def namesMemory : Memory :=
  Memory.write (Memory.write (fun _ => 0) 8192 (svcMgrName.map UInt8.ofNat)) 9000 [97]

def namesPlaces : SvcmgrPlaces :=
  ⟨4096, 8192, 9000⟩

end Requests

/-! ### What is left with the process -/

section Results

variable {codes : CodeTable ParseLabel} {proc : Process} {a : SvcmgrPlaces} {m : Memory}
  {target code ptr : ℕ} {rounds : List (Option Round)}

/-- The buffer of a reply is freed once, after whatever has been got from it. -/
lemma binderDoneWrites_get {m : Memory} (txn : BinderTxn) (get : Get) :
    binderDoneWrites (get.run m (bioInitFromTxn txn)).2 = [.freeBuffer txn.data] := by
  have hshared : (get.run m (bioInitFromTxn txn)).2.flags &&& bioShared ≠ 0 := by
    rw [shared_get]
    exact (show bioShared &&& bioShared ≠ 0 by decide)
  have hdata := ((reading_bioInitFromTxn txn).get (m := m) get).data0
  rw [binderDoneWrites, binderDone, if_pos hshared, hdata]
  rfl

/-- A reply that one of the rounds has brought. -/
def Replied (codes : CodeTable ParseLabel) (rounds : List (Option Round)) (round : Round)
    (txn : BinderTxn) : Prop :=
  some round ∈ rounds ∧ txn ∈ round.buffer.records codes .reply

/-- What a call gives the functions to read: nothing after a failure, else one reply. -/
lemma binderCall_replied {msg reply : BinderIo} {call : CallResult}
    (hundying : ∀ round, some round ∈ rounds → round.buffer.Undying codes)
    (h : binderCall codes proc m msg reply target code rounds = some call) (hres : call.res = 0) :
    ∃ round txn, Replied codes rounds round txn ∧ call.memory = round.memory ∧
      call.reply = bioInitFromTxn txn := by
  obtain ⟨round, hround, hmemory, txn, htxn, hreply⟩ := binderCall_reply hundying h hres
  exact ⟨round, txn, ⟨hround, htxn⟩, hmemory, hreply⟩

/-- Whatever the driver brings, `svcmgr_publish` gives up with `-1` and keeps nothing, or it
returns the status of a reply and frees the buffer of that reply once. -/
theorem svcmgrPublish_result {r : SvcmgrResult ℤ}
    (hundying : ∀ round, some round ∈ rounds → round.buffer.Undying codes)
    (h : svcmgrPublish codes proc a target ptr m rounds = some r) :
    r = ⟨-1, []⟩ ∨ ∃ round txn, Replied codes rounds round txn ∧
      r = ⟨toInt (bioGetUint32 round.memory (bioInitFromTxn txn)).1, [.freeBuffer txn.data]⟩ := by
  obtain ⟨⟨m', msg⟩, hmessage, h⟩ := Option.bind_eq_some_iff.mp h
  obtain ⟨call, hcall, h⟩ := Option.bind_eq_some_iff.mp h
  by_cases hres : call.res ≠ 0
  · rw [if_pos hres] at h
    exact .inl (Option.some.inj h).symm
  · rw [if_neg hres] at h
    obtain ⟨round, txn, hreplied, hmemory, hreply⟩ :=
      binderCall_replied hundying hcall (not_not.mp hres)
    refine .inr ⟨round, txn, hreplied, ?_⟩
    rw [hmemory, hreply] at h
    rw [← Option.some.inj h]
    exact congrArg _ (binderDoneWrites_get (m := round.memory) txn .uint32)

/-- A round that brings the status `5` at `20000`. -/
def statusRound : Round :=
  deliver parseCodes .reply 20000 [5, 0, 0, 0] (fun _ => 0)

lemma undying_statusRound : ∀ round, some round ∈ [some statusRound] →
    round.buffer.Undying parseCodes := by
  intro round hround
  obtain rfl := Option.some.inj (List.mem_singleton.mp hround)
  exact undying_recordBuffer parseCodes 4 20000 (.inr rfl)

theorem svcmgrPublish_result_status :
    (⟨5, [.freeBuffer 20000]⟩ : SvcmgrResult ℤ) = ⟨-1, []⟩ ∨
      ∃ round txn, Replied parseCodes [some statusRound] round txn ∧
        (⟨5, [.freeBuffer 20000]⟩ : SvcmgrResult ℤ) =
          ⟨toInt (bioGetUint32 round.memory (bioInitFromTxn txn)).1, [.freeBuffer txn.data]⟩ :=
  svcmgrPublish_result undying_statusRound
    (show svcmgrPublish parseCodes ⟨0, fun _ m => m⟩ namesPlaces 0 7 namesMemory
      [some statusRound] = _ from rfl)

/-- Whatever the driver brings, `svcmgr_lookup` gives up with a null pointer and keeps nothing, or
it returns the reference of a reply, which it has acquired before it frees the buffer of that
reply once. -/
theorem svcmgrLookup_result {r : SvcmgrResult ℕ}
    (hundying : ∀ round, some round ∈ rounds → round.buffer.Undying codes)
    (h : svcmgrLookup codes proc a target code m rounds = some r) :
    r = ⟨0, []⟩ ∨ ∃ round txn, Replied codes rounds round txn ∧
      let ref := (bioGetRef round.memory (bioInitFromTxn txn)).1
      r = ⟨ref, (if ref ≠ 0 then [.acquire ref] else []) ++ [.freeBuffer txn.data]⟩ := by
  obtain ⟨⟨m', msg⟩, hmessage, h⟩ := Option.bind_eq_some_iff.mp h
  obtain ⟨call, hcall, h⟩ := Option.bind_eq_some_iff.mp h
  by_cases hres : call.res ≠ 0
  · rw [if_pos hres] at h
    exact .inl (Option.some.inj h).symm
  · rw [if_neg hres] at h
    obtain ⟨round, txn, hreplied, hmemory, hreply⟩ :=
      binderCall_replied hundying hcall (not_not.mp hres)
    refine .inr ⟨round, txn, hreplied, ?_⟩
    rw [hmemory, hreply] at h
    rw [← Option.some.inj h]
    have hdone := binderDoneWrites_get (m := round.memory) txn .ref
    exact congrArg (fun writes => SvcmgrResult.mk _ (_ ++ writes)) hdone

/-- A round that brings one object, the handle `9`, at `20000`. -/
def referenceRound : Round where
  memory := Memory.setWord (Memory.storeObject (fun _ => 0) 20000 binderTypeHandle 9) 20100 0
  buffer :=
    { recordBuffer parseCodes .reply 16 20000 with
      word := fun i =>
        if i = 8 then 4 else if i = 10 then 20100 else
          (recordBuffer parseCodes .reply 16 20000).word i }

/-- The reference that the manager has sent is acquired, and then the reply is freed. -/
theorem svcmgrLookup_result_reference :
    svcmgrLookup parseCodes ⟨0, fun _ m => m⟩ namesPlaces 0 svcMgrGetService namesMemory
        [some referenceRound] = some ⟨9, [.acquire 9, .freeBuffer 20000]⟩ ∧
      ∃ round txn, Replied parseCodes [some referenceRound] round txn ∧
        (bioGetRef round.memory (bioInitFromTxn txn)).1 = 9 := by
  have hrun : svcmgrLookup parseCodes ⟨0, fun _ m => m⟩ namesPlaces 0 svcMgrGetService namesMemory
      [some referenceRound] = some ⟨9, [.acquire 9, .freeBuffer 20000]⟩ := by decide +kernel
  have hundying : ∀ round, some round ∈ [some referenceRound] →
      round.buffer.Undying parseCodes := by
    intro round hround
    obtain rfl := Option.some.inj (List.mem_singleton.mp hround)
    unfold ReadBuffer.Undying
    decide +kernel
  obtain hnull | ⟨round, txn, hreplied, hresult⟩ := svcmgrLookup_result hundying hrun
  · cases hnull
  · exact ⟨hrun, round, txn, hreplied, (congrArg SvcmgrResult.value hresult).symm⟩

end Results

end ExpressOS
