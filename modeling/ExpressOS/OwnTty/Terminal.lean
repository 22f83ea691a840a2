import ExpressOS.Systems.Descriptors

/-!
# A program with a terminal of its own

`own-tty.c`: the terminal is opened as the three standard streams, a child takes it as its
controlling terminal and becomes the program, and the process that was started waits for the child
and passes its status on.
-/

namespace ExpressOS
open Systems

/-- What the calls answer. -/
structure TtyCalls (F : Type) where
  limit : ℕ
  opens : String → Option F
  dups : ℕ → Bool
  forks : Bool
  /-- The status word, if `wait` stores one. -/
  waits : Option ℕ
  setsid : Bool
  /-- `TIOCSCTTY` on an open file, for a process that leads a session or does not. -/
  takesTerminal : Bool → F → Bool
  execs : String → Bool

/-- How a process of the run ends, as far as `own-tty` is concerned. -/
inductive TtyEnding (F : Type)
  | exits (code : ℕ)
  | becomes (pathname : String) (args : List String) (fds : Descriptors F)

structure TtyRun (F : Type) where
  /-- The process that was started. -/
  caller : TtyEnding F
  child : Option (TtyEnding F)

section Program

variable {F : Type} (calls : TtyCalls F)

/-- `exit`, of which the low byte is seen. -/
def ttyExit (rv : ℕ) : TtyEnding F := .exits (rv % 256)

def dup2Wrap (src : ℕ) (fds : Descriptors F) (dst : ℕ) : Option (Descriptors F) :=
  if calls.dups dst then fds.dup2 calls.limit src dst else none

/-- From the `setsid`, whose failure is only reported, to the end of `main`. -/
def becomeProgram (pathname : String) (args : List String) (fds : Descriptors F) : TtyEnding F :=
  match fds 0 with
  | none => ttyExit 1
  | some f =>
    if calls.takesTerminal calls.setsid f then
      if calls.execs pathname then .becomes pathname args fds else ttyExit 0
    else ttyExit 1

/-- The table with the terminal as the standard streams. -/
def standardStreams (tty : String) (fds : Descriptors F) : Option (Descriptors F) := do
  let f ← calls.opens tty
  let (fd, fds) ← fds.openFile calls.limit f
  let fds ← dup2Wrap calls fd fds 0
  let fds ← dup2Wrap calls fd fds 1
  let fds ← dup2Wrap calls fd fds 2
  return fds.close fd

/-- `main`; `junk` is what is in `rv` before the `wait`. -/
def ownTty (junk : ℕ) (argv : List String) (fds : Descriptors F) : TtyRun F :=
  match argv with
  | _ :: tty :: pathname :: argv0 :: args =>
    match standardStreams calls tty fds with
    | none => ⟨ttyExit 1, none⟩
    | some fds =>
      let rest := becomeProgram calls pathname (argv0 :: args) fds
      -- after a `fork` that fails, the process goes on by itself
      if calls.forks then ⟨ttyExit (calls.waits.getD junk), some rest⟩ else ⟨rest, none⟩
  | _ => ⟨ttyExit 2, none⟩

end Program

/-- How a child ended, as `wait` reports it. -/
inductive WaitEvent
  | exited (code : ℕ)
  | killed (signal : ℕ) (core : Bool)
  deriving DecidableEq, Repr

def WaitEvent.status : WaitEvent → ℕ
  | .exited code => code % 256 * 256
  | .killed signal core => signal % 128 + if core then 128 else 0

section Streams

variable {F : Type} {calls : TtyCalls F} {fds fds' : Descriptors F}

lemma dup2Wrap_eq_some {src dst : ℕ} {f : F} (hsrc : fds src = some f)
    (h : dup2Wrap calls src fds dst = some fds') :
    fds' = Function.update fds dst (some f) ∧ fds' src = some f := by
  rw [dup2Wrap] at h
  split_ifs at h
  obtain ⟨htable, hkept, -⟩ := Descriptors.dup2_eq_some hsrc h
  exact ⟨htable, hkept⟩

/-- The descriptor that the `open` takes is free again at the end, also where it is one of the
standard streams. -/
lemma standardStreams_eq_some {tty : String} (h : standardStreams calls tty fds = some fds') :
    ∃ f n, calls.opens tty = some f ∧ fds.lowest calls.limit = some n ∧
      fds' n = none ∧ ∀ k ≠ n, fds' k = if k < 3 then some f else fds k := by
  obtain ⟨f, hopens, h⟩ := Option.bind_eq_some_iff.mp h
  obtain ⟨⟨n, d⟩, hopened, h⟩ := Option.bind_eq_some_iff.mp h
  obtain ⟨d₀, hd₀, h⟩ := Option.bind_eq_some_iff.mp h
  obtain ⟨d₁, hd₁, h⟩ := Option.bind_eq_some_iff.mp h
  obtain ⟨d₂, hd₂, h⟩ := Option.bind_eq_some_iff.mp h
  cases h
  obtain ⟨n, hn, heq⟩ := Option.map_eq_some_iff.mp hopened
  cases heq
  obtain ⟨rfl, hf₀⟩ := dup2Wrap_eq_some (Function.update_self ..) hd₀
  obtain ⟨rfl, hf₁⟩ := dup2Wrap_eq_some hf₀ hd₁
  obtain ⟨rfl, -⟩ := dup2Wrap_eq_some hf₁ hd₂
  refine ⟨f, n, hopens, hn, Function.update_self .., fun k hk => ?_⟩
  rw [Descriptors.close, Function.update_of_ne hk]
  simp only [Function.update_apply, if_neg hk]
  split_ifs <;> first | rfl | omega

lemma becomeProgram_eq_becomes {pathname pathname' : String} {args args' : List String}
    (h : becomeProgram calls pathname args fds = .becomes pathname' args' fds') :
    pathname' = pathname ∧ args' = args ∧ fds' = fds ∧ fds 0 ≠ none := by
  unfold becomeProgram at h
  cases hzero : fds 0 with
  | none => simp [hzero, ttyExit] at h
  | some f =>
    simp only [hzero] at h
    split_ifs at h
    · cases h
      exact ⟨rfl, rfl, rfl, by simp⟩
    · cases h
    · cases h

lemma lowest_cases {limit n : ℕ} (h : fds.lowest limit = some n) :
    (n = 0 ↔ fds 0 = none) ∧ (n = 1 ↔ fds 0 ≠ none ∧ fds 1 = none) ∧
      (n = 2 ↔ fds 0 ≠ none ∧ fds 1 ≠ none ∧ fds 2 = none) := by
  obtain ⟨-, hfree, htaken⟩ := Descriptors.lowest_spec h
  match n, hfree, htaken with
  | 0, hfree, _ => simp [hfree]
  | 1, hfree, htaken => simp [hfree, htaken 0]
  | 2, hfree, htaken => simp [hfree, htaken 0, htaken 1]
  | n + 3, _, htaken => simp [htaken 0, htaken 1, htaken 2]

/-- A process that becomes the program has been through the calls before the `fork`. -/
lemma ownTty_becomes {junk : ℕ} {argv : List String} {pathname : String} {args : List String}
    (h : (ownTty calls junk argv fds).caller = .becomes pathname args fds' ∨
      (ownTty calls junk argv fds).child = some (.becomes pathname args fds')) :
    argv[2]? = some pathname ∧ args = argv.drop 3 ∧ args ≠ [] ∧ fds' 0 ≠ none ∧
      ∃ tty, argv[1]? = some tty ∧ standardStreams calls tty fds = some fds' := by
  match argv with
  | [] | [_] | [_, _] | [_, _, _] => simp [ownTty, ttyExit] at h
  | argv' :: tty :: path :: argv0 :: rest =>
    cases hstreams : standardStreams calls tty fds with
    | none => simp [ownTty, hstreams, ttyExit] at h
    | some fds₁ =>
      have hprogram : becomeProgram calls path (argv0 :: rest) fds₁ =
          .becomes pathname args fds' := by
        cases hforks : calls.forks <;> simpa [ownTty, hstreams, hforks, ttyExit] using h
      obtain ⟨rfl, rfl, rfl, hzero⟩ := becomeProgram_eq_becomes hprogram
      exact ⟨rfl, rfl, by simp, hzero, tty, rfl, hstreams⟩

lemma ownTty_waits {junk : ℕ} {argv : List String} (h : (ownTty calls junk argv fds).child ≠ none) :
    (ownTty calls junk argv fds).caller = ttyExit (calls.waits.getD junk) := by
  match argv with
  | [] | [_] | [_, _] | [_, _, _] => exact absurd rfl h
  | argv' :: tty :: path :: argv0 :: rest =>
    cases hstreams : standardStreams calls tty fds with
    | none => simp [ownTty, hstreams] at h
    | some fds₁ =>
      cases hforks : calls.forks with
      | false => simp [ownTty, hstreams, hforks] at h
      | true => simp [ownTty, hstreams, hforks]

end Streams

/-- What a program is started with: all three streams are the terminal, except for one that was
closed at the start, with the lower ones open. The process that was started exits with `0` for
every code of the child. -/
theorem ownTty_runs {F : Type} (calls : TtyCalls F) (junk : ℕ) (argv : List String)
    (fds : Descriptors F) :
    (∀ pathname args fds',
      ((ownTty calls junk argv fds).caller = .becomes pathname args fds' ∨
        (ownTty calls junk argv fds).child = some (.becomes pathname args fds')) →
      argv[2]? = some pathname ∧ args = argv.drop 3 ∧ args ≠ [] ∧
      ∃ tty f, argv[1]? = some tty ∧ calls.opens tty = some f ∧ fds 0 ≠ none ∧
        fds' 0 = some f ∧ (fds' 1 = if fds 1 = none then none else some f) ∧
        (fds' 2 = if fds 1 ≠ none ∧ fds 2 = none then none else some f) ∧
        ∀ k ≥ 3, fds' k = fds k) ∧
    ∀ e, (ownTty calls junk argv fds).child ≠ none → calls.waits = some (WaitEvent.status e) →
      (ownTty calls junk argv fds).caller = .exits (match e with
        | .exited _ => 0
        | .killed signal core => signal % 128 + if core then 128 else 0) := by
  constructor
  · intro pathname args fds' h
    obtain ⟨hpath, hargs, hne, hzero, tty, htty, hstreams⟩ := ownTty_becomes h
    obtain ⟨f, n, hopens, hn, hfree, htable⟩ := standardStreams_eq_some hstreams
    obtain ⟨hcase₀, hcase₁, hcase₂⟩ := lowest_cases hn
    have hn₀ : n ≠ 0 := by
      rintro rfl
      exact hzero hfree
    have hfds₀ : fds 0 ≠ none := mt hcase₀.mpr hn₀
    refine ⟨hpath, hargs, hne, tty, f, htty, hopens, hfds₀, ?_, ?_, ?_, fun k hk => ?_⟩
    · exact (htable 0 hn₀.symm).trans (if_pos (by decide))
    · by_cases hone : fds 1 = none
      · obtain rfl : n = 1 := hcase₁.mpr ⟨hfds₀, hone⟩
        rw [if_pos hone, hfree]
      · rw [if_neg hone, htable 1 fun h => hone (hcase₁.mp h.symm).2, if_pos (by decide)]
    · by_cases htwo : fds 1 ≠ none ∧ fds 2 = none
      · obtain rfl : n = 2 := hcase₂.mpr ⟨hfds₀, htwo⟩
        rw [if_pos htwo, hfree]
      · rw [if_neg htwo, htable 2 fun h => htwo (hcase₂.mp h.symm).2, if_pos (by decide)]
    · obtain rfl | hkn := eq_or_ne k n
      · rw [hfree, (Descriptors.lowest_spec hn).2.1]
      · rw [htable k hkn, if_neg (by omega)]
  · intro e hchild hwaits
    rw [ownTty_waits hchild, hwaits, Option.getD_some, ttyExit]
    congr 1
    cases e with
    | exited code => exact Nat.mul_mod_left _ _
    | killed signal core =>
      have hsignal : signal % 128 < 128 := Nat.mod_lt _ (by decide)
      refine Nat.mod_eq_of_lt ?_
      cases core <;> simp only [WaitEvent.status] <;> split_ifs <;> omega

/-- Every call succeeds, the `fork` where `forks` says so, and the child exits with 7. -/
def sampleTty (forks : Bool) : TtyCalls String where
  limit := 16
  opens := some
  dups _ := true
  forks := forks
  waits := some (WaitEvent.status (.exited 7))
  setsid := true
  takesTerminal _ _ := true
  execs _ := true

/-- The three streams of a console. -/
def consoleStreams : Descriptors String := fun k => if k < 3 then some "console" else none

def shellArgs : List String := ["own-tty", "/dev/tty8", "/bin/sh", "sh", "-i"]

/-- The shell gets the terminal, in a child whose code the caller hides, and in the caller itself
when there is no child. -/
theorem ownTty_runs_shell :
    ((ownTty (sampleTty true) 0 shellArgs consoleStreams).caller = .exits 0 ∧
      ∃ fds, (ownTty (sampleTty true) 0 shellArgs consoleStreams).child =
          some (.becomes "/bin/sh" ["sh", "-i"] fds) ∧
        fds 0 = some "/dev/tty8" ∧ fds 1 = some "/dev/tty8" ∧ fds 2 = some "/dev/tty8") ∧
    ∃ fds, (ownTty (sampleTty false) 0 shellArgs consoleStreams).caller =
        .becomes "/bin/sh" ["sh", "-i"] fds ∧
      fds 0 = some "/dev/tty8" ∧ fds 1 = some "/dev/tty8" ∧ fds 2 = some "/dev/tty8" := by
  have hterminal : ∀ forks pathname args fds,
      (ownTty (sampleTty forks) 0 shellArgs consoleStreams).caller = .becomes pathname args fds ∨
        (ownTty (sampleTty forks) 0 shellArgs consoleStreams).child =
          some (.becomes pathname args fds) →
      fds 0 = some "/dev/tty8" ∧ fds 1 = some "/dev/tty8" ∧ fds 2 = some "/dev/tty8" := by
    intro forks pathname args fds h
    obtain ⟨-, -, -, tty, f, htty, hopens, -, hzero, hone, htwo, -⟩ :=
      (ownTty_runs (sampleTty forks) 0 shellArgs consoleStreams).1 pathname args fds h
    cases htty
    cases hopens
    exact ⟨hzero, hone, htwo⟩
  refine ⟨⟨(ownTty_runs (sampleTty true) 0 shellArgs consoleStreams).2 (.exited 7) (by nofun) rfl,
    ?_⟩, ?_⟩
  · exact ⟨_, rfl, hterminal true _ _ _ (.inr rfl)⟩
  · exact ⟨_, rfl, hterminal false _ _ _ (.inl rfl)⟩

end ExpressOS
