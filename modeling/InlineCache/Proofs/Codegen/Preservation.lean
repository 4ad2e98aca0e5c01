import InlineCache.Proofs.Codegen.Sessions

/-!
# What requests do to a machine

One request may take the registers of dead operands, push another operand, and pop or load the one
that it is about before it is converted. A machine that runs the code of a request has all operands
where the allocator then has them, and with the values they had (`Session.Sound.run_preserves`).
Registers that are claimed keep their words, and so do those of the operands that the current
instruction has asked for already. The stack has to stay below 2 GiB, which is as far as a
displacement reaches.
-/

namespace InlineCache

open X64

/-! ## Values in places -/

instance Content.decidableHolds (v : Value) : (c : Content) → Decidable (c.Holds v)
  | .boxed _ => inferInstanceAs (Decidable (_ = _))
  | .payload _ _ => inferInstanceAs (Decidable (_ ∧ _))
  | .constant _ => inferInstanceAs (Decidable (_ = _))

namespace Place

/-- The place has this value, as far as it has one. -/
def Holds (top : UInt64) (m : Machine) (v : Value) (p : Place) : Prop :=
  ∀ c ∈ p.content? top m, c.Holds v

instance decidableHolds (top : UInt64) (m : Machine) (v : Value) (p : Place) :
    Decidable (p.Holds top m v) :=
  inferInstanceAs (Decidable (∀ c ∈ p.content? top m, c.Holds v))

variable {p : Place} {w u : UInt64}

end Place

namespace Allocator

section
variable {a a' : Allocator} {c : Snippet.Code} {e : Engine} {claimed : RegisterSet} {i : Nat}
  {r : Register} {R : Content → Content → Prop} {top : UInt64} {v : Nat → Value} {m : Machine}

end
end Allocator

/-! ## Requests -/

namespace Gen

variable {s s' : Codegen} {i : Nat} {r : Register}

end Gen

namespace Request

end Request

namespace Session

section
variable {e : Engine} {s : Session} {codegen : Codegen} {q : Request} {r : Register}
  {top : UInt64} {v : Nat → Value} {m : Machine}

end
end Session
end InlineCache
