import Mathlib

/-!
# The commands of `bctest`

The loop of `main` in `bctest.c` takes its arguments from the left, a command at a time, and makes
the call of each command before it looks at the next one. What `svcmgr_lookup` and `svcmgr_publish`
return is a parameter.
-/

namespace ExpressOS

inductive SvcCommand
  | alt
  | lookup (name : String)
  | publish (name : String)
  deriving DecidableEq, Repr

/-- The arguments that a command is written with. -/
def SvcCommand.words : SvcCommand → List String
  | .alt => ["alt"]
  | .lookup name => ["lookup", name]
  | .publish name => ["publish", name]

/-- A call for a command: the manager it went to, and the pointer or status that came back. -/
structure SvcCall where
  command : SvcCommand
  manager : ℕ
  answer : ℕ
  deriving DecidableEq, Repr

/-- `BINDER_SERVICE_MANAGER` -/
def binderServiceManager : ℕ := 0

section Program

variable (service : List SvcCall → SvcCommand → ℕ → ℕ)

def svcCall (h : List SvcCall) (c : SvcCommand) (svcmgr : ℕ) : SvcCall :=
  ⟨c, svcmgr, service h c svcmgr⟩

/-- The loop of `main`, with the calls made before it. -/
def bctestLoop : List SvcCall → ℕ → List String → List SvcCall × ℤ
  | h, _, [] => (h, 0)
  | h, svcmgr, arg :: args =>
    if arg = "alt" then
      -- a lookup of `"alt_svc_mgr"`
      let call := svcCall service h .alt svcmgr
      if call.answer = 0 then (h ++ [call], -1) else bctestLoop (h ++ [call]) call.answer args
    else if arg = "lookup" then
      match args with
      | [] => (h, -1)
      | name :: args => bctestLoop (h ++ [svcCall service h (.lookup name) svcmgr]) svcmgr args
    else if arg = "publish" then
      match args with
      | [] => (h, -1)
      | name :: args => bctestLoop (h ++ [svcCall service h (.publish name) svcmgr]) svcmgr args
    else (h, -1)

def bctest (argv : List String) : List SvcCall × ℤ :=
  bctestLoop service [] binderServiceManager argv.tail

end Program

/-- The manager that the next call goes to: the one the last `alt` has found. -/
def managerAfter (h : List SvcCall) : ℕ :=
  h.foldl (fun m c => if c.command = .alt then c.answer else m) binderServiceManager

/-- Every `alt` has found a manager. -/
def AltsFound (h : List SvcCall) : Prop := ∀ c ∈ h, c.command = .alt → c.answer ≠ 0

/-- How a run over the arguments ends, after the calls `h` for the commands at their front: all of
them are commands, or the last call found no manager, or what is left is no command. -/
inductive BctestEnd (h : List SvcCall) (rest : List String) : ℤ → Prop
  | finished (hrest : rest = []) (hfound : AltsFound h) : BctestEnd h rest 0
  | notFound (before : List SvcCall) (c : SvcCall) (hh : h = before ++ [c])
      (hfound : AltsFound before) (halt : c.command = .alt) (hanswer : c.answer = 0) :
      BctestEnd h rest (-1)
  | noCommand (hne : rest ≠ []) (hrest : ∀ (c : SvcCommand) more, rest ≠ c.words ++ more)
      (hfound : AltsFound h) : BctestEnd h rest (-1)

section Runs

variable {service : List SvcCall → SvcCommand → ℕ → ℕ} {h : List SvcCall}

lemma managerAfter_append (c : SvcCall) :
    managerAfter (h ++ [c]) = if c.command = .alt then c.answer else managerAfter h := by
  simp [managerAfter]

lemma AltsFound.append {c : SvcCall} (hh : AltsFound h) (hc : c.command = .alt → c.answer ≠ 0) :
    AltsFound (h ++ [c]) := by
  intro c' hc'
  obtain hc' | hc' := List.mem_append.mp hc'
  · exact hh c' hc'
  · rw [List.mem_singleton.mp hc']
    exact hc

/-- Calls for `cs`, each to the manager of its time, are added to the calls before. -/
structure SvcRun (service : List SvcCall → SvcCommand → ℕ → ℕ) (h h' : List SvcCall)
    (cs : List SvcCommand) : Prop where
  commands : h'.map SvcCall.command = h.map SvcCall.command ++ cs
  calls : ∀ before c after, h' = before ++ c :: after → h.length ≤ before.length →
    c = svcCall service before c.command (managerAfter before)

lemma SvcRun.refl : SvcRun service h h [] where
  commands := by simp
  calls before c after hsplit hlength := by
    have hlt := congrArg List.length hsplit
    simp only [List.length_append, List.length_cons] at hlt
    omega

lemma SvcRun.cons {c : SvcCommand} {cs : List SvcCommand} {h' : List SvcCall}
    (hrun : SvcRun service (h ++ [svcCall service h c (managerAfter h)]) h' cs)
    (hinit : h ++ [svcCall service h c (managerAfter h)] <+: h') :
    SvcRun service h h' (c :: cs) where
  commands := by
    rw [hrun.commands, List.map_append, List.append_assoc]
    rfl
  calls before d after hsplit hlength := by
    obtain heq | hlt := hlength.eq_or_lt
    · obtain ⟨more, rfl⟩ := hinit
      rw [List.append_assoc] at hsplit
      obtain ⟨rfl, htail⟩ := List.append_inj hsplit heq
      rw [← (List.cons.inj htail).1]
      rfl
    · refine hrun.calls before d after hsplit ?_
      rw [List.length_append, List.length_singleton]
      omega

/-- What a run over `args` does after the calls `h`. -/
def SvcOutcome (service : List SvcCall → SvcCommand → ℕ → ℕ) (h : List SvcCall)
    (args : List String) (out : List SvcCall × ℤ) : Prop :=
  ∃ cs rest, args = cs.flatMap SvcCommand.words ++ rest ∧ h <+: out.1 ∧
    SvcRun service h out.1 cs ∧ BctestEnd out.1 rest out.2

lemma SvcOutcome.cons {c : SvcCommand} {args : List String} {out : List SvcCall × ℤ}
    (hout : SvcOutcome service (h ++ [svcCall service h c (managerAfter h)]) args out) :
    SvcOutcome service h (c.words ++ args) out := by
  obtain ⟨cs, rest, rfl, hinit, hrun, hend⟩ := hout
  refine ⟨c :: cs, rest, ?_, (List.prefix_append _ _).trans hinit, hrun.cons hinit, hend⟩
  rw [List.flatMap_cons, List.append_assoc]

lemma SvcOutcome.noCommand {args : List String} (hfound : AltsFound h) (hne : args ≠ [])
    (hargs : ∀ (c : SvcCommand) more, args ≠ c.words ++ more) :
    SvcOutcome service h args (h, -1) :=
  ⟨[], args, rfl, List.prefix_rfl, .refl, .noCommand hne hargs hfound⟩

variable (service) in
lemma bctestLoop_spec (args : List String) (hfound : AltsFound h) :
    SvcOutcome service h args (bctestLoop service h (managerAfter h) args) := by
  induction hn : args.length using Nat.strong_induction_on generalizing h args with
  | _ n ih =>
    subst hn
    have hother : ∀ {c : SvcCommand} (args' : List String), args'.length < args.length →
        c ≠ .alt → SvcOutcome service h (c.words ++ args')
          (bctestLoop service (h ++ [svcCall service h c (managerAfter h)]) (managerAfter h)
            args') := by
      intro c args' hlength hc
      have hnext := ih _ hlength (h := h ++ [svcCall service h c (managerAfter h)]) args'
        (hfound.append fun halt => absurd halt hc) rfl
      have hcommand : (svcCall service h c (managerAfter h)).command ≠ .alt := hc
      rw [managerAfter_append, if_neg hcommand] at hnext
      exact hnext.cons
    match args with
    | [] => exact ⟨[], [], rfl, List.prefix_rfl, .refl, .finished rfl hfound⟩
    | arg :: args =>
      unfold bctestLoop
      dsimp only
      split_ifs with halt hnone hlookup hpublish
      · refine ⟨[.alt], args, by rw [halt]; rfl, List.prefix_append _ _, ?_,
          .notFound h _ rfl hfound rfl hnone⟩
        exact SvcRun.refl.cons List.prefix_rfl
      · rw [halt]
        have hnext := ih _ (Nat.lt_succ_self args.length)
          (h := h ++ [svcCall service h .alt (managerAfter h)]) args
          (hfound.append fun _ => hnone) rfl
        have hcommand : (svcCall service h .alt (managerAfter h)).command = .alt := rfl
        rw [managerAfter_append, if_pos hcommand] at hnext
        exact hnext.cons
      · rw [hlookup]
        match args with
        | [] =>
          refine .noCommand hfound (by simp) fun c more h => ?_
          cases c <;> simp [SvcCommand.words] at h
        | name :: args =>
          exact hother (c := .lookup name) args (by simp) (by simp)
      · rw [hpublish]
        match args with
        | [] =>
          refine .noCommand hfound (by simp) fun c more h => ?_
          cases c <;> simp [SvcCommand.words] at h
        | name :: args =>
          exact hother (c := .publish name) args (by simp) (by simp)
      · refine .noCommand hfound (by simp) fun c more h => ?_
        cases c <;> simp_all [SvcCommand.words]

end Runs

/-- The arguments are taken as commands as far as they go. Each call goes to the manager that the
last `alt` before it has found, and the run fails at the first `alt` that finds none or at the
first argument that begins no command. -/
theorem bctest_runs (service : List SvcCall → SvcCommand → ℕ → ℕ) (argv : List String) :
    ∃ cs rest, argv.tail = cs.flatMap SvcCommand.words ++ rest ∧
      (bctest service argv).1.map SvcCall.command = cs ∧
      (∀ before c after, (bctest service argv).1 = before ++ c :: after →
        c.manager = managerAfter before ∧ c.answer = service before c.command c.manager) ∧
      BctestEnd (bctest service argv).1 rest (bctest service argv).2 := by
  have hnone : AltsFound [] := fun c hc => absurd hc List.not_mem_nil
  obtain ⟨cs, rest, hargs, -, hrun, hend⟩ :=
    bctestLoop_spec service argv.tail hnone
  refine ⟨cs, rest, hargs, hrun.commands, fun before c after hsplit => ?_, hend⟩
  have hcall := hrun.calls before c after hsplit (Nat.zero_le _)
  have hmanager : c.manager = managerAfter before := congrArg SvcCall.manager hcall
  refine ⟨hmanager, ?_⟩
  rw [hmanager]
  exact congrArg SvcCall.answer hcall

end ExpressOS
