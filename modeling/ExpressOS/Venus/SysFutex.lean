import ExpressOS.Systems.Assembly

/-!
# The system call of the futex handlers

`sys_futex.S`: the function that `futex.c` calls, an instruction at a time. It hands its six
arguments to the kernel and gives the answer back as it is.
-/

namespace ExpressOS
open Systems

/-- `sys_futex` of `sys_futex.S`, for the number that `asm/unistd.h` has for the call. -/
def sysFutex (nrFutex : BitVec 32) : List (Instr Empty) :=
  [.push .ebx, .push .ecx, .push .edx, .push .esi, .push .edi, .push .ebp,
    .load 28 .ebx, .load 32 .ecx, .load 36 .edx, .load 40 .esi, .load 44 .edi, .load 48 .ebp,
    .movImm nrFutex .eax, .int80,
    .pop .ebp, .pop .edi, .pop .esi, .pop .edx, .pop .ecx, .pop .ebx, .ret]

section

variable (nrFutex : BitVec 32) (out : Outside Empty)

lemma sysFutex_eq : sysFutex nrFutex = enter nrFutex sysCallRegs ++ (pops sysCallRegs ++ [.ret]) :=
  rfl

lemma sysCallAt_futex (s : Cpu) :
    sysCallAt nrFutex sysCallRegs s = ⟨nrFutex, (List.range 6).map s.argument⟩ := rfl

/-- The six arguments reach the kernel in their order, its answer comes back unchanged, and every
register but `eax` is as before. -/
theorem sysFutex_returns {s : Cpu} (hroom : 24 ≤ s.sp) (hframe : s.sp + 28 ≤ 2 ^ 32)
    (hkernel : ∀ call m x, s.sp - 24 ≤ x → x < s.sp + 4 → (out.kernel call m).2 x = m x)
    (fuel : ℕ) :
    ∃ mem t, (∀ x, x + 24 < s.sp ∨ s.sp ≤ x → mem x = s.mem x) ∧
      exec out (sysFutex nrFutex) (21 + fuel) 0 s = some (s.stack 0, t) ∧
      (t.regs .eax, t.mem) = out.kernel ⟨nrFutex, (List.range 6).map s.argument⟩ mem ∧
      t.regs .esp = s.regs .esp + 4 ∧ ∀ r ∈ sysCallRegs, t.regs r = s.regs r := by
  have hesp : Reg.esp ∉ sysCallRegs := by decide
  have heax : Reg.eax ∉ sysCallRegs := by decide
  have hroom' : 4 * sysCallRegs.length ≤ s.sp := hroom
  have hpushed := pushes_spec out hroom'
  have hbelow : (runBlock out s (pushes sysCallRegs)).sp + 24 = s.sp := hpushed.sp
  obtain ⟨hanswer, hmem, hsp, -⟩ :=
    enter_spec out nrFutex hesp (by decide) hroom hframe
  rw [sysCallAt_futex] at hanswer hmem
  generalize hu : runBlock out s (enter nrFutex sysCallRegs) = u at hanswer hmem hsp
  obtain ⟨t, hrun, hback, hregs, hothers, hkept⟩ := leave_spec out (v := u) hesp hroom
    (by omega) hsp (fun x hx hx' => by rw [hmem, hkernel _ _ x (by omega) hx'])
    (rfl : (sysFutex nrFutex).drop 14 = pops sysCallRegs ++ [.ret]) fuel
  refine ⟨(runBlock out s (pushes sysCallRegs)).mem, t, fun x hx => hpushed.mem x (by omega), ?_,
    ?_, hback, hregs⟩
  · have henter := exec_enter out (s := s) (sysFutex_eq nrFutex) (6 + (fuel + 1))
    rw [hu] at henter
    rw [show 21 + fuel = 14 + (6 + (fuel + 1)) by omega]
    exact henter.trans hrun
  · rw [hothers .eax heax (by decide), hkept, hanswer, hmem]

end

/-- In the middle of a computation, about to wake the threads that wait at `0x2000`: the return
address and the six arguments are on the stack. -/
def busyCpu : Cpu where
  regs
    | .eax => 10
    | .ebx => 11
    | .ecx => 12
    | .edx => 13
    | .esi => 14
    | .edi => 15
    | .ebp => 16
    | .esp => 1000
  carry := true
  mem := Memory.write (fun _ => 0) 1000
    ([0x8048000, 0x2000, 10, 3, 0, 0, 0xffffffff].flatMap (leBytes 4))

/-- The kernel wakes as many threads as the third argument allows, and the registers are as they
were. -/
theorem sysFutex_returns_woken :
    ∃ t, exec ⟨fun call mem => (call.args.getD 2 0, mem), nofun⟩ (sysFutex 240) 21 0 busyCpu =
        some (0x8048000, t) ∧
      t.regs .eax = 3 ∧ t.regs .esp = 1004 ∧
      sysCallRegs.map t.regs = [11, 12, 13, 14, 15, 16] := by
  obtain ⟨mem, t, -, hrun, hanswer, hesp, hregs⟩ := sysFutex_returns 240
    ⟨fun call mem => (call.args.getD 2 0, mem), nofun⟩ (s := busyCpu) (by decide) (by decide)
    (fun _ _ _ _ _ => rfl) 0
  have hreturn : busyCpu.stack 0 = 0x8048000 := by decide +kernel
  have hval : busyCpu.argument 2 = 3 := by decide +kernel
  refine ⟨t, hreturn ▸ hrun, (congrArg Prod.fst hanswer).trans hval, hesp, ?_⟩
  rw [List.map_congr_left hregs]
  rfl

end ExpressOS
