import ExpressOS.Venus.Wire

/-!
# Registering the helper

`get_workspace` and `init_glue` of `init.c`. The downcall is a local variable of `init_glue`, and
`get_workspace` is given pointers to two of its fields, which it fills in as far as the
environment variable goes.
-/

namespace ExpressOS
open Systems

/-- `isspace` and `isdigit` -/
def isSpace (b : UInt8) : Bool := b = 0x20 ∨ 0x09 ≤ b ∧ b ≤ 0x0d
def isDigit (b : UInt8) : Bool := 0x30 ≤ b ∧ b ≤ 0x39

/-- The number that the digits at the front of a string spell. -/
def digitsValue (s : List UInt8) : ℤ :=
  (s.takeWhile isDigit).foldl (fun n b => 10 * n + (b.toNat - 0x30)) 0

/-- The value of `atoi`, which stays within `int`. -/
def atoi (s : List UInt8) : ℤ :=
  let value :=
    match s.dropWhile isSpace with
    | 0x2d :: digits => -digitsValue digits
    | 0x2b :: digits => digitsValue digits
    | digits => digitsValue digits
  max (-2 ^ 31) (min value (2 ^ 31 - 1))

def strchr (s : List UInt8) (c : UInt8) : Option (List UInt8) :=
  match s.dropWhile (fun b => b ≠ c) with
  | [] => none
  | found => some found

def signedWord (r : ℤ) : ℕ := (r % 2 ^ 32).toNat

def comma : UInt8 := 0x2c

/-- `fd` and `size` are the addresses of the two results. -/
def getWorkspace (env : Option (List UInt8)) (mem : Memory) (fd size : ℕ) : ℤ × Memory :=
  match env with
  | none => (-1, mem)
  | some env =>
    let mem := mem.setWord fd (signedWord (atoi env))
    match strchr env comma with
    | none => (-1, mem)
    | some env => (0, mem.setWord size (signedWord (atoi (env.drop 1))))

/-- The fields of `struct expressos_venus_register_helper_out` in the downcall, and its size. -/
def binderVmStartOffset : ℕ := 8
def workspaceFdOffset : ℕ := 12
def workspaceSizeOffset : ℕ := 16
def registerHelperOutSize : ℕ := 12

/-- What `init_glue` passes to `send_downcall`: the device is opened as `glueFd`, and the stack
holds `raw`. -/
def initGlue (registerHelper vmStart : ℕ) (glueFd : ℤ) (env : Option (List UInt8)) (raw : Memory) :
    List (List UInt8) :=
  if glueFd < 0 then []
  else
    let ret := (raw.setWord 0 registerHelper).setWord 4 registerHelperOutSize
    let ret := ret.setWord binderVmStartOffset vmStart
    -- the return value is not looked at
    let ret := (getWorkspace env ret workspaceFdOffset workspaceSizeOffset).2
    [ret.read 0 (hdrSize + registerHelperOutSize)]

section Glue

variable {registerHelper vmStart : ℕ} {glueFd : ℤ} {env : Option (List UInt8)}

lemma strchr_eq_none_iff {s : List UInt8} {c : UInt8} : strchr s c = none ↔ c ∉ s := by
  have hdrop : s.dropWhile (fun b => b ≠ c) = [] ↔ c ∉ s := by
    rw [List.dropWhile_eq_nil_iff]
    constructor
    · intro h hc
      simpa using h c hc
    · intro h b hb
      simp only [ne_eq, decide_not, Bool.not_eq_true', decide_eq_false_iff_not]
      rintro rfl
      exact h hb
  rw [← hdrop, strchr]
  split <;> simp_all

lemma getWorkspace_of_no_comma (h : ∀ e, env = some e → comma ∉ e) {mem : Memory}
    {fd size x : ℕ} (hx : x < fd ∨ fd + 4 ≤ x) : (getWorkspace env mem fd size).2 x = mem x := by
  cases env with
  | none => rfl
  | some e =>
    rw [getWorkspace, strchr_eq_none_iff.mpr (h e rfl)]
    exact Memory.setWord_of_disjoint hx

lemma getWorkspace_of_comma {e : List UInt8} (h : comma ∈ e) :
    ∃ fdValue sizeValue, ∀ mem fd size,
      (getWorkspace (some e) mem fd size).2 = (mem.setWord fd fdValue).setWord size sizeValue := by
  cases hfound : strchr e comma with
  | none => exact absurd h (strchr_eq_none_iff.mp hfound)
  | some rest =>
    refine ⟨signedWord (atoi e), signedWord (atoi (rest.drop 1)), fun mem fd size => ?_⟩
    rw [getWorkspace, hfound]

/-- What the stack held before shows in the registration unless the device cannot be opened or the
environment variable has a comma. -/
theorem initGlue_leakFree_iff (registerHelper vmStart : ℕ) (glueFd : ℤ)
    (env : Option (List UInt8)) :
    (∀ raw raw', initGlue registerHelper vmStart glueFd env raw =
        initGlue registerHelper vmStart glueFd env raw') ↔
      glueFd < 0 ∨ ∃ e, env = some e ∧ comma ∈ e := by
  by_cases hopen : glueFd < 0
  · exact iff_of_true (fun raw raw' => by rw [initGlue, if_pos hopen, initGlue, if_pos hopen])
      (.inl hopen)
  · rw [or_iff_right hopen]
    constructor
    · intro hsame
      by_contra hno
      have hcomma : ∀ e, env = some e → comma ∉ e := fun e he hc => hno ⟨e, he, hc⟩
      have hkept : ∀ raw : Memory, ((raw.setWord 0 registerHelper).setWord 4
          registerHelperOutSize).setWord binderVmStartOffset vmStart (0 + workspaceSizeOffset) =
            raw (0 + workspaceSizeOffset) := by
        intro raw
        rw [Memory.setWord_of_disjoint (by decide), Memory.setWord_of_disjoint (by decide),
          Memory.setWord_of_disjoint (by decide)]
      have hread := hsame (fun _ => 0) (fun _ => 1)
      rw [initGlue, if_neg hopen, initGlue, if_neg hopen, List.singleton_inj] at hread
      have hbyte := congrArg (fun bs => bs[workspaceSizeOffset]?) hread
      rw [Memory.getElem?_read _ _ _ _ (by decide), Memory.getElem?_read _ _ _ _ (by decide),
        getWorkspace_of_no_comma hcomma (by decide), getWorkspace_of_no_comma hcomma (by decide),
        hkept, hkept] at hbyte
      exact absurd hbyte (by decide)
    · rintro ⟨e, rfl, hcomma⟩ raw raw'
      obtain ⟨fdValue, sizeValue, hassign⟩ := getWorkspace_of_comma hcomma
      rw [initGlue, if_neg hopen, initGlue, if_neg hopen, List.singleton_inj, hassign, hassign]
      apply Memory.read_congr
      intro x _ hx
      -- the five words cover the bytes that are sent
      refine Memory.setWord_congr fun hsize => Memory.setWord_congr fun hfd =>
        Memory.setWord_congr fun hstart => Memory.setWord_congr fun hpayload =>
        Memory.setWord_congr fun hopcode => ?_
      unfold workspaceSizeOffset at hsize
      unfold workspaceFdOffset at hfd
      unfold binderVmStartOffset at hstart
      unfold hdrSize registerHelperOutSize at hx
      omega

end Glue

end ExpressOS
