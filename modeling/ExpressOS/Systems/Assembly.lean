import ExpressOS.Systems.Memory

/-!
# A fragment of the i386 instruction set

A program is a list of instructions over registers and a byte memory, and a run of it ends at a
`ret`. The lemmas are about straight blocks, registers that are kept on the stack around a block,
and arguments that are loaded from the frame of the caller.
-/

namespace Systems

inductive Reg
  | eax | ebx | ecx | edx | esi | edi | ebp | esp
  deriving DecidableEq, Repr

structure Cpu where
  regs : Reg → BitVec 32
  carry : Bool
  mem : Memory

namespace Cpu

/-- The address in the stack pointer. -/
def sp (s : Cpu) : ℕ := (s.regs .esp).toNat

def set (s : Cpu) (r : Reg) (v : BitVec 32) : Cpu :=
  { s with regs := Function.update s.regs r v }

/-- The word `disp` bytes above the stack pointer. -/
def stack (s : Cpu) (disp : ℕ) : BitVec 32 :=
  BitVec.ofNat 32 (s.mem.word (s.regs .esp + BitVec.ofNat 32 disp).toNat)

/-- The argument `i` of a function, at its entry; the word below the arguments is the address the
function returns to. -/
def argument (s : Cpu) (i : ℕ) : BitVec 32 := s.stack (4 + 4 * i)

@[simp] lemma set_regs_self (s : Cpu) (r : Reg) (v : BitVec 32) : (s.set r v).regs r = v :=
  Function.update_self ..

lemma set_regs_of_ne (s : Cpu) {r r' : Reg} (h : r' ≠ r) (v : BitVec 32) :
    (s.set r v).regs r' = s.regs r' :=
  Function.update_of_ne h ..

@[simp] lemma set_mem (s : Cpu) (r : Reg) (v : BitVec 32) : (s.set r v).mem = s.mem := rfl

@[simp] lemma set_carry (s : Cpu) (r : Reg) (v : BitVec 32) : (s.set r v).carry = s.carry := rfl

lemma stack_eq {s : Cpu} {disp : ℕ} (h : s.sp + disp < 2 ^ 32) :
    s.stack disp = BitVec.ofNat 32 (s.mem.word (s.sp + disp)) := by
  rw [stack, BitVec.toNat_add, BitVec.toNat_ofNat, Nat.mod_eq_of_lt (by omega : disp < 2 ^ 32)]
  rw [← sp, Nat.mod_eq_of_lt h]

/-- Words of two stacks agree where the bytes do. -/
lemma stack_congr {s t : Cpu} {d e : ℕ} (haddr : s.sp + d = t.sp + e) (h : s.sp + d + 4 ≤ 2 ^ 32)
    (hmem : ∀ x, s.sp + d ≤ x → x < s.sp + d + 4 → s.mem x = t.mem x) : s.stack d = t.stack e := by
  rw [stack_eq (by omega), stack_eq (by omega), ← haddr, Memory.word, Memory.word,
    Memory.read_congr hmem]

end Cpu

/-- A jump names the instruction it goes to; `F` are the functions that are called. -/
inductive Instr (F : Type)
  | push (r : Reg)
  | pop (r : Reg)
  | load (disp : ℕ) (r : Reg)
  | movImm (v : BitVec 32) (r : Reg)
  | int80
  | cmpImm (v : BitVec 32) (r : Reg)
  | neg (r : Reg)
  | addImm (v : BitVec 32) (r : Reg)
  | orImm (v : BitVec 32) (r : Reg)
  | call (f : F)
  | jb (target : ℕ)
  | ret
  deriving DecidableEq, Repr

structure SysCall where
  number : BitVec 32
  args : List (BitVec 32)
  deriving DecidableEq, Repr

/-- What runs outside a program: the answer of the kernel to a call with the memory it leaves, and
what a function makes of the state from before the call of it until after its return. -/
structure Outside (F : Type) where
  kernel : SysCall → Memory → BitVec 32 × Memory
  functions : F → Cpu → Cpu

/-- The registers with the arguments of a system call. -/
def sysCallRegs : List Reg := [.ebx, .ecx, .edx, .esi, .edi, .ebp]

section Semantics

variable {F : Type} (out : Outside F)

/-- Of the flags only the carry is there, which is the one that a `jb` reads. -/
def Instr.apply (s : Cpu) : Instr F → Cpu
  | .push r =>
    let top := s.regs .esp - 4
    { s.set .esp top with mem := s.mem.setWord top.toNat (s.regs r).toNat }
  | .pop r => (s.set .esp (s.regs .esp + 4)).set r (s.stack 0)
  | .load disp r => s.set r (s.stack disp)
  | .movImm v r => s.set r v
  | .int80 =>
    let answer := out.kernel ⟨s.regs .eax, sysCallRegs.map s.regs⟩ s.mem
    { s.set .eax answer.1 with mem := answer.2 }
  | .cmpImm v r => { s with carry := (s.regs r).ult v }
  | .neg r => { s.set r (-s.regs r) with carry := s.regs r ≠ 0 }
  | .addImm v r => { s.set r (s.regs r + v) with carry := (s.regs r + v).ult v }
  | .orImm v r => { s.set r (s.regs r ||| v) with carry := false }
  | .call f => out.functions f s
  | .jb _ | .ret => s

/-- The instructions after which the next one follows. -/
def Instr.straight : Instr F → Bool
  | .jb _ | .ret => false
  | _ => true

def runBlock (s : Cpu) (block : List (Instr F)) : Cpu := block.foldl (Instr.apply out) s

/-- A run from the instruction `pc` on until a `ret`: the address it returns to, and the state
there. -/
def exec (code : List (Instr F)) : ℕ → ℕ → Cpu → Option (BitVec 32 × Cpu)
  | 0, _, _ => none
  | fuel + 1, pc, s =>
    match code[pc]? with
    | none => none
    | some .ret => some (s.stack 0, s.set .esp (s.regs .esp + 4))
    | some (.jb target) => exec code fuel (if s.carry then target else pc + 1) s
    | some i => exec code fuel (pc + 1) (i.apply out s)

variable {out} {code : List (Instr F)} {pc : ℕ}

@[simp] lemma runBlock_nil (s : Cpu) : runBlock out s [] = s := rfl

@[simp] lemma runBlock_cons (s : Cpu) (i : Instr F) (block : List (Instr F)) :
    runBlock out s (i :: block) = runBlock out (i.apply out s) block := rfl

lemma runBlock_append (s : Cpu) (block block' : List (Instr F)) :
    runBlock out s (block ++ block') = runBlock out (runBlock out s block) block' :=
  List.foldl_append

lemma exec_straight {i : Instr F} (hi : code[pc]? = some i) (hstraight : i.straight = true)
    (fuel : ℕ) (s : Cpu) :
    exec out code (fuel + 1) pc s = exec out code fuel (pc + 1) (i.apply out s) := by
  rw [exec, hi]
  cases i <;> first | rfl | cases hstraight

lemma exec_ret (h : code[pc]? = some .ret) (fuel : ℕ) (s : Cpu) :
    exec out code (fuel + 1) pc s = some (s.stack 0, s.set .esp (s.regs .esp + 4)) := by
  rw [exec, h]

variable (out) in
lemma exec_block {block rest : List (Instr F)} (hcode : code.drop pc = block ++ rest)
    (hstraight : ∀ i ∈ block, i.straight = true) (fuel : ℕ) (s : Cpu) :
    exec out code (block.length + fuel) pc s =
      exec out code fuel (pc + block.length) (runBlock out s block) := by
  induction block generalizing pc s with
  | nil => simp
  | cons i block ih =>
    have hi : code[pc]? = some i := by
      rw [← List.head?_drop, hcode]
      rfl
    have htail : code.drop (pc + 1) = block ++ rest := by
      rw [← List.drop_drop, hcode]
      rfl
    rw [List.length_cons, Nat.add_right_comm, exec_straight hi (hstraight i List.mem_cons_self),
      ih htail fun j hj => hstraight j (List.mem_cons_of_mem _ hj), runBlock_cons]
    congr 1
    omega

end Semantics

/-! ### Registers that are kept on the stack -/

section Stack

variable {F : Type} (out : Outside F) {s t u : Cpu} {rs : List Reg}

def pushes (rs : List Reg) : List (Instr F) := rs.map .push

def pops (rs : List Reg) : List (Instr F) := rs.reverse.map .pop

/-- `t` has `n` more bytes on the stack than `s`. -/
structure Cpu.Pushed (n : ℕ) (s t : Cpu) : Prop where
  sp : t.sp + n = s.sp
  regs : ∀ r, r ≠ .esp → t.regs r = s.regs r
  mem : ∀ x, x < t.sp ∨ s.sp ≤ x → t.mem x = s.mem x

lemma Cpu.Pushed.trans {n k : ℕ} (h : s.Pushed n t) (h' : t.Pushed k u) : s.Pushed (n + k) u where
  sp := by
    have hfirst := h.sp
    have hsecond := h'.sp
    omega
  regs r hr := (h'.regs r hr).trans (h.regs r hr)
  mem x hx := by
    have hfirst := h.sp
    have hsecond := h'.sp
    rw [h'.mem x (by omega), h.mem x (by omega)]

lemma sp_push (r : Reg) (h : 4 ≤ s.sp) : ((Instr.push (F := F) r).apply out s).sp + 4 = s.sp := by
  have htop : ((Instr.push (F := F) r).apply out s).sp = (s.regs .esp - 4).toNat := by
    simp [Instr.apply, Cpu.sp, Cpu.set]
  have hsub : (s.regs .esp - 4).toNat = s.sp - 4 := BitVec.toNat_sub_of_le h
  omega

lemma push_spec (r : Reg) (h : 4 ≤ s.sp) : s.Pushed 4 ((Instr.push (F := F) r).apply out s) where
  sp := sp_push out r h
  regs r' hr' := Cpu.set_regs_of_ne s hr' _
  mem x hx := by
    have hsp := sp_push out r h
    have hsub : (s.regs .esp - 4).toNat = s.sp - 4 := BitVec.toNat_sub_of_le h
    refine Memory.setWord_of_disjoint ?_
    omega

lemma stack_push (r : Reg) : ((Instr.push (F := F) r).apply out s).stack 0 = s.regs r := by
  have hesp : ((Instr.push (F := F) r).apply out s).regs .esp = s.regs .esp - 4 :=
    Cpu.set_regs_self s .esp _
  have hword : ((Instr.push (F := F) r).apply out s).mem.word (s.regs .esp - 4).toNat =
      (s.regs r).toNat := by
    rw [Instr.apply, Memory.word, Memory.read_setWord_self]
    exact leNat_leBytes_word (s.regs r).isLt
  rw [Cpu.stack, hesp, BitVec.add_zero, hword, BitVec.ofNat_toNat, BitVec.setWidth_eq]

lemma pushes_spec (h : 4 * rs.length ≤ s.sp) :
    s.Pushed (4 * rs.length) (runBlock out s (pushes rs)) := by
  induction rs generalizing s with
  | nil => exact ⟨rfl, fun _ _ => rfl, fun _ _ => rfl⟩
  | cons r rs ih =>
    rw [List.length_cons] at h ⊢
    have hfirst := push_spec out r (by omega : 4 ≤ s.sp)
    have hsp := hfirst.sp
    have hrest := ih (by omega : 4 * rs.length ≤ ((Instr.push r).apply out s).sp)
    rw [show 4 * (rs.length + 1) = 4 + 4 * rs.length by omega]
    exact hfirst.trans hrest

/-- A pop from where a register was pushed undoes the push. -/
lemma pop_pushed (r : Reg) {v : Cpu}
    (hesp : v.regs .esp = ((Instr.push r).apply out s).regs .esp) (htop : v.stack 0 = s.regs r) :
    (Instr.pop r).apply out v = (v.set .esp (s.regs .esp)).set r (s.regs r) := by
  have hback : v.regs .esp + 4 = s.regs .esp := by
    rw [hesp, show ((Instr.push r).apply out s).regs .esp = s.regs .esp - 4 from
      Cpu.set_regs_self s .esp _, BitVec.sub_add_cancel]
  rw [← hback, ← htop]
  rfl

/-- Registers that are pushed come back, whatever was done in between, as long as the stack above
is left alone. -/
lemma pops_spec (hesp : .esp ∉ rs) (h : 4 * rs.length ≤ s.sp)
    (hsp : u.sp = (runBlock out s (pushes rs)).sp)
    (hmem : ∀ x, u.sp ≤ x → x < s.sp → u.mem x = (runBlock out s (pushes rs)).mem x) :
    let v := runBlock out u (pops rs)
    v.regs .esp = s.regs .esp ∧ (∀ r ∈ rs, v.regs r = s.regs r) ∧
      (∀ r ∉ rs, r ≠ .esp → v.regs r = u.regs r) ∧ v.mem = u.mem := by
  induction rs generalizing s with
  | nil => exact ⟨BitVec.eq_of_toNat_eq hsp, by simp, fun _ _ _ => rfl, rfl⟩
  | cons r rs ih =>
    rw [List.mem_cons, not_or] at hesp
    obtain ⟨hr, hesp⟩ := hesp
    rw [List.length_cons] at h
    have hfirst := push_spec out r (by omega : 4 ≤ s.sp)
    have hsp₁ := hfirst.sp
    have hroom : 4 * rs.length ≤ ((Instr.push r).apply out s).sp := by omega
    have hpushed := pushes_spec out hroom
    have hsp₂ := hpushed.sp
    rw [pushes, List.map_cons, runBlock_cons, ← pushes] at hsp hmem
    obtain ⟨hsp', hregs', hkept', hmem'⟩ :=
      ih hesp hroom hsp fun x hx hx' => hmem x hx (by omega)
    generalize hv : runBlock out u (pops rs) = v at hsp' hregs' hkept' hmem'
    have hpops : runBlock out u (pops (r :: rs)) = (Instr.pop r).apply out v := by
      rw [pops, List.reverse_cons, List.map_append, runBlock_append, ← pops, hv]
      rfl
    have hvsp : v.sp = ((Instr.push r).apply out s).sp := congrArg BitVec.toNat hsp'
    -- the word on top is the one that was pushed first
    have htop : v.stack 0 = s.regs r := by
      have hlt : s.sp < 2 ^ 32 := (s.regs .esp).isLt
      rw [← stack_push out r]
      refine Cpu.stack_congr (congrArg (· + 0) hvsp) (by omega) fun x hx hx' => ?_
      rw [hmem', hmem x (by omega) (by omega), hpushed.mem x (by omega)]
    intro w
    have hw : w = (v.set .esp (s.regs .esp)).set r (s.regs r) :=
      hpops.trans (pop_pushed out r hsp' htop)
    rw [hw]
    refine ⟨?_, ?_, ?_, hmem'⟩
    · rw [Cpu.set_regs_of_ne _ hr, Cpu.set_regs_self]
    · intro r' hr'
      by_cases heq : r' = r
      · rw [heq, Cpu.set_regs_self]
      · have hmem : r' ∈ rs := (List.mem_cons.mp hr').resolve_left heq
        have hne : r' ≠ .esp := fun he => hesp (he ▸ hmem)
        rw [Cpu.set_regs_of_ne _ heq, Cpu.set_regs_of_ne _ hne, hregs' r' hmem,
          hfirst.regs r' hne]
    · intro r' hr' hne
      rw [List.mem_cons, not_or] at hr'
      rw [Cpu.set_regs_of_ne _ hr'.1, Cpu.set_regs_of_ne _ hne, hkept' r' hr'.2 hne]

end Stack

/-! ### The way into the kernel -/

section Enter

variable {F : Type} (out : Outside F) {s : Cpu} {rs : List Reg}

/-- Registers are loaded with successive words of the stack. -/
def loads : ℕ → List Reg → List (Instr F)
  | _, [] => []
  | disp, r :: rs => .load disp r :: loads (disp + 4) rs

/-- A function keeps `rs` on the stack, loads its arguments into them and makes a system call. -/
def enter (number : BitVec 32) (rs : List Reg) : List (Instr F) :=
  pushes rs ++ loads (4 * rs.length + 4) rs ++ [.movImm number .eax, .int80]

lemma straight_loads {disp : ℕ} {i : Instr F} (hi : i ∈ loads disp rs) : i.straight = true := by
  induction rs generalizing disp with
  | nil => cases hi
  | cons r rs ih =>
    obtain rfl | hlater := List.mem_cons.mp hi
    · rfl
    · exact ih hlater

lemma exec_enter {number : BitVec 32} {code rest : List (Instr F)}
    (hcode : code = enter number rs ++ rest) (fuel : ℕ) :
    exec out code ((enter (F := F) number rs).length + fuel) 0 s =
      exec out code fuel (enter (F := F) number rs).length (runBlock out s (enter number rs)) := by
  have hstraight : ∀ i ∈ enter (F := F) number rs, i.straight = true := by
    intro i hi
    obtain hi | hi := List.mem_append.mp hi
    · obtain hpush | hload := List.mem_append.mp hi
      · obtain ⟨r, -, rfl⟩ := List.mem_map.mp hpush
        rfl
      · exact straight_loads hload
    · obtain rfl | hi := List.mem_cons.mp hi
      · rfl
      · rw [List.mem_singleton.mp hi]
        rfl
  have hdrop : code.drop 0 = enter number rs ++ rest := hcode
  have hrun := exec_block out hdrop hstraight fuel s
  rwa [Nat.zero_add] at hrun

/-- The call that a function makes with its arguments in `rs`. -/
def sysCallAt (number : BitVec 32) (rs : List Reg) (s : Cpu) : SysCall :=
  ⟨number, sysCallRegs.map fun r => if r ∈ rs then s.argument (rs.idxOf r) else s.regs r⟩

lemma stack_set {r : Reg} (hr : .esp ≠ r) (v : BitVec 32) (disp : ℕ) :
    (s.set r v).stack disp = s.stack disp := by
  rw [Cpu.stack, Cpu.stack, Cpu.set_regs_of_ne s hr, Cpu.set_mem]

lemma loads_spec (disp : ℕ) (hesp : .esp ∉ rs) (hnodup : rs.Nodup) :
    let t := runBlock out s (loads disp rs)
    t.mem = s.mem ∧ (∀ r ∉ rs, t.regs r = s.regs r) ∧
      ∀ i r, rs[i]? = some r → t.regs r = s.stack (disp + 4 * i) := by
  induction rs generalizing s disp with
  | nil => exact ⟨rfl, fun _ _ => rfl, by simp⟩
  | cons r rs ih =>
    rw [List.mem_cons, not_or] at hesp
    obtain ⟨hr, hesp⟩ := hesp
    obtain ⟨hfresh, hnodup⟩ := List.nodup_cons.mp hnodup
    obtain ⟨hmem, hkept, hloaded⟩ := ih (s := s.set r (s.stack disp)) (disp + 4) hesp hnodup
    refine ⟨hmem, fun r' hr' => ?_, fun i r' hi => ?_⟩
    · rw [List.mem_cons, not_or] at hr'
      exact (hkept r' hr'.2).trans (Cpu.set_regs_of_ne _ hr'.1 _)
    · cases i with
      | zero =>
        obtain rfl : r = r' := Option.some_inj.mp hi
        exact (hkept r hfresh).trans (Cpu.set_regs_self ..)
      | succ i =>
        have hword := hloaded i r' hi
        rw [stack_set hr] at hword
        rw [show disp + 4 * (i + 1) = disp + 4 + 4 * i by omega]
        exact hword

lemma enter_spec (number : BitVec 32) (hesp : .esp ∉ rs) (hnodup : rs.Nodup)
    (hroom : 4 * rs.length ≤ s.sp) (hframe : s.sp + 4 + 4 * rs.length ≤ 2 ^ 32) :
    let t := runBlock out s (pushes rs)
    let answer := out.kernel (sysCallAt number rs s) t.mem
    let u := runBlock out s (enter number rs)
    u.regs .eax = answer.1 ∧ u.mem = answer.2 ∧ u.sp = t.sp ∧
      ∀ r ∉ rs, r ≠ .eax → r ≠ .esp → u.regs r = s.regs r := by
  intro t answer u
  have hpushed : s.Pushed (4 * rs.length) t := pushes_spec out hroom
  have hsp := hpushed.sp
  obtain ⟨hmem, hkept, hloaded⟩ :=
    loads_spec out (s := t) (4 * rs.length + 4) hesp hnodup
  generalize hw : runBlock out t (loads (4 * rs.length + 4) rs) = w at hmem hkept hloaded
  have hargument : ∀ i r, rs[i]? = some r → w.regs r = s.argument i := by
    intro i r hi
    obtain ⟨hlt, -⟩ := List.getElem?_eq_some_iff.mp hi
    rw [hloaded i r hi]
    refine Cpu.stack_congr (by omega) (by omega) fun x hx _ => hpushed.mem x (by omega)
  have hu : u = Instr.int80.apply out (w.set .eax number) := by
    simp only [u, enter, runBlock_append, ← hw]
    rfl
  have hargs : sysCallRegs.map (w.set .eax number).regs = sysCallRegs.map
      fun r => if r ∈ rs then s.argument (rs.idxOf r) else s.regs r := by
    refine List.map_congr_left fun r hr => ?_
    have hne : r ≠ .eax := fun h => absurd (h ▸ hr) (by decide)
    have hne' : r ≠ .esp := fun h => absurd (h ▸ hr) (by decide)
    rw [Cpu.set_regs_of_ne _ hne]
    by_cases hmem : r ∈ rs
    · rw [if_pos hmem]
      exact hargument _ r (List.getElem?_idxOf hmem)
    · rw [if_neg hmem, hkept r hmem, hpushed.regs r hne']
  have hcall : (⟨(w.set .eax number).regs .eax, sysCallRegs.map (w.set .eax number).regs⟩ :
      SysCall) = sysCallAt number rs s := by
    rw [hargs, Cpu.set_regs_self]
    rfl
  have hanswer : out.kernel ⟨(w.set .eax number).regs .eax,
      sysCallRegs.map (w.set .eax number).regs⟩ (w.set .eax number).mem = answer := by
    rw [hcall, Cpu.set_mem, hmem]
  have hothers : ∀ r, r ≠ .eax → u.regs r = w.regs r := by
    intro r hr
    rw [hu]
    exact (Cpu.set_regs_of_ne _ hr _).trans (Cpu.set_regs_of_ne _ hr _)
  refine ⟨?_, ?_, ?_, fun r hr hne hne' => ?_⟩
  · rw [hu, ← hanswer]
    exact Cpu.set_regs_self (w.set .eax number) .eax _
  · rw [hu, ← hanswer]
    rfl
  · rw [Cpu.sp, hothers .esp (by decide), hkept .esp hesp]
    rfl
  · rw [hothers r hne, hkept r hr, hpushed.regs r hne']

end Enter

section Leave

variable {F : Type} (out : Outside F) {s v : Cpu} {rs : List Reg} {code : List (Instr F)} {pc : ℕ}

/-- The registers are taken back from the stack, and the function returns to its caller. -/
lemma leave_spec (hesp : .esp ∉ rs) (hroom : 4 * rs.length ≤ s.sp) (htop : s.sp + 4 ≤ 2 ^ 32)
    (hsp : v.sp = (runBlock out s (pushes rs)).sp)
    (hmem : ∀ x, v.sp ≤ x → x < s.sp + 4 → v.mem x = (runBlock out s (pushes rs)).mem x)
    (hcode : code.drop pc = pops rs ++ [.ret]) (fuel : ℕ) :
    ∃ w, exec out code (rs.length + (fuel + 1)) pc v = some (s.stack 0, w) ∧
      w.regs .esp = s.regs .esp + 4 ∧ (∀ r ∈ rs, w.regs r = s.regs r) ∧
      (∀ r ∉ rs, r ≠ .esp → w.regs r = v.regs r) ∧ w.mem = v.mem := by
  have hpushed := pushes_spec out hroom
  have hbelow := hpushed.sp
  obtain ⟨hback, hregs, hkept, hmem'⟩ :=
    pops_spec out hesp hroom hsp fun x hx hx' => hmem x hx (by omega)
  generalize hw : runBlock out v (pops rs) = w at hback hregs hkept hmem'
  have hlength : (pops (F := F) rs).length = rs.length := by simp [pops]
  have hstraight : ∀ i ∈ pops (F := F) rs, i.straight = true := by
    intro i hi
    obtain ⟨r, -, rfl⟩ := List.mem_map.mp hi
    rfl
  have hret : code[pc + rs.length]? = some .ret := by
    rw [← List.head?_drop, ← List.drop_drop, hcode, ← hlength, List.drop_left]
    rfl
  -- the word above the registers is the address to return to
  have haddr : w.stack 0 = s.stack 0 := by
    refine Cpu.stack_congr (congrArg (fun v => v.toNat + 0) hback) ?_ fun x hx hx' => ?_
    · rw [Cpu.sp, hback, ← Cpu.sp]
      omega
    · rw [Cpu.sp, hback, ← Cpu.sp] at hx hx'
      rw [hmem', hmem x (by omega) (by omega), hpushed.mem x (by omega)]
  refine ⟨w.set .esp (s.regs .esp + 4), ?_, Cpu.set_regs_self .., fun r hr => ?_,
    fun r hr hne => ?_, hmem'⟩
  · have hrun := exec_block out hcode hstraight (fuel + 1) v
    rw [hlength] at hrun
    rw [hrun, hw, exec_ret hret, haddr, hback]
  · have hne : r ≠ .esp := fun h => hesp (h ▸ hr)
    rw [Cpu.set_regs_of_ne _ hne, hregs r hr]
  · rw [Cpu.set_regs_of_ne _ hne, hkept r hr hne]

end Leave

end Systems
