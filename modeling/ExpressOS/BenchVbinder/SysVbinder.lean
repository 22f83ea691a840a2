import ExpressOS.Systems.Assembly

/-!
# The system call of the channels

`vbinder.S`: the function behind the calls of `vbinder-common.c`, an instruction at a time. An
answer of the kernel between `-129` and `-1` goes to `errno`.
-/

namespace ExpressOS
open Systems

section

variable (out : Outside VbinderCallee)

variable {errno : Memory → BitVec 32} {top : ℕ}

end

end ExpressOS
