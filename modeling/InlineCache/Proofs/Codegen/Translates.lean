import InlineCache.Proofs.Codegen.Operands

/-!
# What the code of an instruction has to do

The code of an instruction does to the machine what the instruction does to the virtual registers:
it runs through if the instruction succeeds, jumps to a bailout with the snapshot of the moment if
it fails, and is wild if it is wild. `Simulates` says this of one run, `Translates` of all runs of
the code that an instruction is compiled to, together with what the code generator notes on the
way.
-/

namespace InlineCache

open X64

/-! ## Machines between steps -/

section
variable {env : Env} {done : Bool} {a : Allocator} {σ : VirtualState} {m m' : Machine}

/-- A register that may be overwritten. -/
structure Allocator.Spare (done : Bool) (a : Allocator) (r : Register) : Prop where
  notHeld : ∀ i, (a.place i).register? ≠ some r
  ne_rsp : r ≠ .rsp
  ne_stub : r ≠ stubRegister
  ne_output : done = true → r ≠ outputRegister

theorem Running.overwrite (h : Running env done a σ m) {rs : List Register}
    (ha : Machine.AgreeExcept rs m m') (hrs : ∀ r ∈ rs, a.Spare done r) :
    Running env done a σ m' :=
  h.agree ha (fun hr => (hrs _ hr).ne_rsp rfl) (fun hr => (hrs _ hr).ne_stub rfl)
    (fun hd hr => (hrs _ hr).ne_output hd rfl) fun i _ hi hr => (hrs _ hr).notHeld i hi

/-- Giving a register back changes nothing for the machine. -/
theorem Running.free (h : Running env done a σ m) (r : Register) :
    Running env done (a.free r) σ m :=
  ⟨h.realizes, h.stub, h.result⟩

/-- The operand in a register. -/
theorem Running.contents (h : Running env done a σ m) {i : Nat} {p : Place} {r : Register}
    (hplace : a.place i = p) (hp : p.register? = some r) : σ.contents i = p.form (m.reg r) :=
  h.realizes.holds (by rw [hplace]; exact Place.content?_of_register? hp)

theorem Place.exists_content? {p : Place} (top : UInt64) (m : Machine) (hp : p ≠ .uninitialized) :
    ∃ c, p.content? top m = some c ∧ c.knownType? = p.knownType? := by
  cases p with
  | uninitialized => exact absurd rfl hp
  | _ => exact ⟨_, rfl, rfl⟩

/-- The code generator knows the type of an operand if the virtual register does. -/
theorem Running.knownType? (h : Running env done a σ m) {i : Nat}
    (hplace : a.place i ≠ .uninitialized) :
    (σ.contents i).knownType? = (a.place i).knownType? := by
  obtain ⟨c, hc, hknown⟩ := Place.exists_content? env.sp m hplace
  rw [h.realizes.holds hc, hknown]

variable {k d : Nat} {taken : List Register}

theorem Allocator.Inv.spare (h : a.Inv k d taken done) {r : Register} (hr : a.Claimed r)
    (hall : a.allocatable.contains r = true) (hout : done = true → r ≠ outputRegister) :
    a.Spare done r := by
  obtain ⟨e, he⟩ := h.sound.engine
  have hne := usable_of_allocatable (he ▸ hall)
  exact ⟨hr.notHeld, hne.1, hne.2.1, hout⟩

theorem Allocator.continues_free {r : Register} : Continues a (a.free r) :=
  ⟨rfl, rfl, rfl, rfl, rfl, rfl, Nat.le_refl _⟩

theorem Allocator.Inv.free (h : a.Inv k d taken done) {r : Register} (hr : a.Claimed r)
    (hall : a.allocatable.contains r = true) (hout : done = true → r ≠ outputRegister) :
    (a.free r).Inv k d taken done where
  sound := h.sound.release hr hall
  instruction := h.instruction
  shallow := h.shallow
  result hd := by
    refine ⟨?_, (h.result hd).notHeld⟩
    simp [Allocator.free, (h.result hd).notFree, hout hd]

theorem Allocator.Inv.spare_scratch (h : a.Inv k d taken done) : a.Spare done scratchRegister where
  notHeld i hi := (h.register?_ne hi).2.2.1 rfl
  ne_rsp := by decide
  ne_stub := by decide
  ne_output _ := by decide

end

/-! ## Bailouts -/

namespace Bailout

/-- Where an input is when the guard fails. -/
def place (b : Bailout) (i : Nat) : Place :=
  b.inputs.getD i .uninitialized

/-- The bailout was made for this state of the allocator. -/
structure Shows (b : Bailout) (a : Allocator) : Prop where
  inputs : b.inputs = a.inputs
  depth : b.depth = a.depth

/-- The machine at the start of a bailout. -/
structure Running (env : Env) (b : Bailout) (s : VirtualState) (m : Machine) : Prop where
  realizes : Realizes env b.place b.depth s.contents m
  stub : m.reg stubRegister = env.stub

theorem Shows.place {b : Bailout} {a : Allocator} (h : b.Shows a) (i : Nat) :
    b.place i = if i < a.numInputs then a.place i else .uninitialized := by
  rw [Bailout.place, h.inputs, Allocator.inputs, Allocator.place]
  by_cases hi : i < a.numInputs
  · simp [List.getD_eq_getElem?_getD, hi, Array.getD_eq_getD_getElem?]
  · rw [if_neg hi, List.getD_eq_getElem?_getD, List.getElem?_take, if_neg hi, Option.getD_none]

theorem Shows.place_eq_or {b : Bailout} {a : Allocator} (h : b.Shows a) (i : Nat) :
    b.place i = a.place i ∨ b.place i = .uninitialized := by
  rw [h.place]
  split
  · exact .inl rfl
  · exact .inr rfl

end Bailout

theorem Running.bailout {env : Env} {done : Bool} {a : Allocator} {s : VirtualState}
    {m : Machine} (h : Running env done a s m) {b : Bailout} (hb : b.Shows a) :
    b.Running env s m :=
  ⟨hb.depth ▸ h.realizes.forget hb.place_eq_or, h.stub⟩

namespace Codegen

/-- The state with other bailouts noted. Every bailout has a label of its own. -/
def note (s : Codegen) (bs : Array Bailout) : Codegen :=
  { s with asm := { s.asm with numLabels := bs.size }, bailouts := bs }

/-- Labels are the numbers of the bailouts. -/
structure Labelled (s : Codegen) : Prop where
  numLabels : s.asm.numLabels = s.bailouts.size
  label : ∀ {i : Nat} {b : Bailout}, s.bailouts[i]? = some b → b.label = i

/-- The bailouts are those noted before, and perhaps one more, made for this allocator. -/
structure Notes (s : Codegen) (a : Allocator) (bs : Array Bailout) : Prop where
  grows : ∃ new : List Bailout, bs.toList = s.bailouts.toList ++ new ∧ new.length ≤ 1 ∧
    ∀ b ∈ new, b.Shows a
  label : ∀ {i : Nat} {b : Bailout}, bs[i]? = some b → b.label = i

variable {s : Codegen}

@[simp]
theorem alloc_note (bs : Array Bailout) : (s.note bs).alloc = s.alloc := rfl

@[simp]
theorem write_note (bs : Array Bailout) (c : Snippet.Code) (a : Allocator) :
    (s.note bs).write c a = (s.write c a).note bs := rfl

theorem note_bailouts (h : s.Labelled) : s.note s.bailouts = s := by
  rw [note, ← h.numLabels]

theorem Labelled.write (h : s.Labelled) (c : Snippet.Code) (a : Allocator) :
    (s.write c a).Labelled :=
  ⟨h.numLabels, h.label⟩

theorem Labelled.notes (h : s.Labelled) (a : Allocator) : s.Notes a s.bailouts :=
  ⟨⟨[], by simp, by simp, by simp⟩, h.label⟩

end Codegen

/-! ## Snapshots -/

/-- Where the inputs are, and how many bytes are on the stack. -/
structure Snapshot where
  inputs : List Place
  depth : Nat
deriving DecidableEq

def Bailout.snapshot (b : Bailout) : Snapshot :=
  ⟨b.inputs, b.depth⟩

def Allocator.snapshot (a : Allocator) : Snapshot :=
  ⟨a.inputs, a.depth⟩

theorem Bailout.serves_iff {b : Bailout} {a : Allocator} :
    b.serves a.inputs a.depth = true ↔ b.snapshot = a.snapshot := by
  rw [serves, Bool.and_eq_true, beq_iff_eq, beq_iff_eq, snapshot, Allocator.snapshot,
    Snapshot.mk.injEq, and_comm]

namespace Codegen

def snapshots (s : Codegen) : List Snapshot :=
  s.bailouts.toList.map Bailout.snapshot

/-- Whether a guard that fails with this snapshot uses the latest bailout. -/
def reuses (s : Codegen) (x : Snapshot) : Bool :=
  s.share && s.snapshots.getLast? == some x

/-- The label for a guard that fails with this snapshot. -/
def labelFor (s : Codegen) (x : Snapshot) : Label :=
  if s.reuses x then s.bailouts.size - 1 else s.bailouts.size

/-- The state in which there is a bailout for this snapshot. -/
def record (s : Codegen) (x : Snapshot) : Codegen :=
  if s.reuses x then s else s.note (s.bailouts.push ⟨x.inputs, x.depth, s.bailouts.size⟩)

variable {s : Codegen}

@[simp]
theorem alloc_record (s : Codegen) (x : Snapshot) : (s.record x).alloc = s.alloc := by
  rw [record]
  split <;> rfl

theorem record_write (s : Codegen) (x : Snapshot) (c : Snippet.Code) (a : Allocator) :
    (s.write c a).record x = (s.record x).write c a := by
  rw [record, record, show (s.write c a).reuses x = s.reuses x from rfl]
  split <;> rfl

theorem Labelled.record (h : s.Labelled) (x : Snapshot) : (s.record x).Labelled := by
  rw [Codegen.record]
  split
  · exact h
  · refine ⟨rfl, fun {i b} hb => ?_⟩
    change (s.bailouts.push _)[i]? = some b at hb
    rw [Array.getElem?_push] at hb
    split at hb
    · next hi =>
        cases hb
        exact hi.symm
    · exact h.label hb

end Codegen

theorem Gen.bailout_record {s : Codegen} (h : s.Labelled) :
    bailout s = .ok (s.labelFor s.alloc.snapshot) (s.record s.alloc.snapshot) := by
  have hlast : s.snapshots.getLast? = s.bailouts.back?.map Bailout.snapshot := by
    rw [Codegen.snapshots, List.getLast?_map, Array.getLast?_toList]
  -- A new bailout gets the next label.
  have hfresh : s.reuses s.alloc.snapshot = false → (do
      let label ← emit Emit.newLabel
      modify fun t : Codegen =>
        { t with bailouts := t.bailouts.push ⟨s.alloc.inputs, s.alloc.depth, label⟩ }
      return label : Gen Label) s =
        .ok (s.labelFor s.alloc.snapshot) (s.record s.alloc.snapshot) := by
    intro hnew
    rw [Codegen.labelFor, Codegen.record, hnew]
    change EStateM.Result.ok _ _ = EStateM.Result.ok _ _
    simp [Codegen.note, Allocator.snapshot, h.numLabels]
  rw [Gen.bailout, get_bind]
  cases hback : s.bailouts.back? with
  | none => exact hfresh (by simp [Codegen.reuses, hlast, hback])
  | some b =>
      have hreuses : s.reuses s.alloc.snapshot =
          (s.share && b.serves s.alloc.inputs s.alloc.depth) := by
        rw [Codegen.reuses, hlast, hback, Option.map_some]
        refine congrArg (s.share && ·) (Bool.eq_iff_iff.mpr ?_)
        rw [beq_iff_eq, Option.some.injEq, Bailout.serves_iff]
      dsimp only
      rw [← hreuses]
      cases hnew : s.reuses s.alloc.snapshot with
      | false => exact hfresh hnew
      | true =>
          rw [Array.back?_eq_getElem?] at hback
          rw [Codegen.labelFor, Codegen.record, hnew, ← h.label hback]
          rfl

/-- A guard that fails here has a bailout to go to. -/
theorem Gen.bailout_eq {s : Codegen} (h : s.Labelled) :
    ∃ b bs, Gen.bailout s = .ok b.label (s.note bs) ∧ b ∈ bs ∧ b.Shows s.alloc ∧
      s.Notes s.alloc bs := by
  have hrecord := h.record s.alloc.snapshot
  rw [Codegen.record] at hrecord
  rw [bailout_record h, Codegen.labelFor, Codegen.record]
  split
  · next hreuses =>
      rw [Codegen.reuses, Bool.and_eq_true, beq_iff_eq, Codegen.snapshots, List.getLast?_map,
        Array.getLast?_toList, Option.map_eq_some_iff] at hreuses
      obtain ⟨-, b, hback, hsnapshot⟩ := hreuses
      injection hsnapshot with hinputs hdepth
      refine ⟨b, s.bailouts, ?_, Array.mem_of_back? hback, ⟨hinputs, hdepth⟩, h.notes _⟩
      rw [Array.back?_eq_getElem?] at hback
      rw [Codegen.note_bailouts h, h.label hback]
  · next hnew =>
      rw [if_neg hnew] at hrecord
      refine ⟨⟨s.alloc.inputs, s.alloc.depth, s.bailouts.size⟩, _, rfl, Array.mem_push_self,
        ⟨rfl, rfl⟩, ⟨⟨_, Array.toList_push, Nat.le_refl 1, fun b hb => ?_⟩, hrecord.label⟩⟩
      rw [List.mem_singleton] at hb
      exact hb ▸ ⟨rfl, rfl⟩

/-! ## Runs -/

/-- A piece of code ended as the virtual registers say. -/
def Simulates (env : Env) (done : Bool) (a : Allocator) (bs : Array Bailout)
    (result : EStateM.Result Stop VirtualState Unit) (e : Exit) : Prop :=
  match result with
  | .ok () s => ∃ m, e = .fall m ∧ Running env done a s m
  | .error .failed s => ∃ b ∈ bs, ∃ m, e = .jump b.label m ∧ b.Running env s m
  | .error .wild _ => e = .wild

namespace Simulates

variable {env : Env} {done : Bool} {a : Allocator} {bs : Array Bailout} {s : VirtualState}
  {m : Machine} {is : Snippet.Code}

theorem fall (h : Running env done a s m) :
    Simulates env done a bs (.ok () s) (exec env.area [] m) :=
  ⟨m, rfl, h⟩

theorem fail {b : Bailout} (hb : b ∈ bs) (h : b.Running env s m) :
    Simulates env done a bs (.error .failed s) (.jump b.label m) :=
  ⟨b, hb, m, rfl, h⟩

/-! Each rule takes one read or one test off the front, on both sides. -/

theorem load {d b : Register} {disp : Int32} {w : UInt64} {k : UInt64 → Virtual Unit}
    (hb : b ≠ .rsp) (hw : m.reg b = w) (hmem : ∀ {x}, env.area x = false → m.mem x = env.mem x)
    (h : ∀ v, Simulates env done a bs (k v s) (exec env.area is (m.setReg d v))) :
    Simulates env done a bs ((Virtual.pointer env w disp >>= k) s)
      (exec env.area (.load d b disp :: is) m) := by
  have haddr : m.address b disp = w + disp.toInt64.toUInt64 := by rw [Machine.address, hw]
  rw [exec_load hb, haddr]
  unfold Virtual.pointer Virtual.read64
  split
  · next ha =>
      rw [Memory.read64_of_avoids (fun x hx => hmem hx) ha]
      exact h _
  · rfl

theorem load32 {d b : Register} {disp : Int32} {w : UInt64} {k : UInt32 → Virtual Unit}
    (hb : b ≠ .rsp) (hw : m.reg b = w) (hmem : ∀ {x}, env.area x = false → m.mem x = env.mem x)
    (h : ∀ v : UInt32, Simulates env done a bs (k v s)
      (exec env.area is (m.setReg d v.toUInt64))) :
    Simulates env done a bs ((Virtual.number env w disp >>= k) s)
      (exec env.area (.load32 d b disp :: is) m) := by
  have haddr : m.address b disp = w + disp.toInt64.toUInt64 := by rw [Machine.address, hw]
  rw [exec_load32 hb, haddr]
  unfold Virtual.number Virtual.read32
  split
  · next ha =>
      rw [Memory.read32_of_avoids (fun x hx => hmem hx) ha]
      exact h _
  · rfl

theorem loadIndexed {d b x : Register} {w offset : UInt64} {k : UInt64 → Virtual Unit}
    (hx : x ≠ .rsp) (hw : m.reg b = w) (ho : m.reg x = offset)
    (hmem : ∀ {x}, env.area x = false → m.mem x = env.mem x)
    (h : ∀ v, Simulates env done a bs (k v s) (exec env.area is (m.setReg d v))) :
    Simulates env done a bs ((Virtual.read64 env (w + offset) >>= k) s)
      (exec env.area (.loadIndexed d b x :: is) m) := by
  rw [exec_loadIndexed hx, hw, ho]
  unfold Virtual.read64
  split
  · next ha =>
      rw [Memory.read64_of_avoids (fun x hx => hmem hx) ha]
      exact h _
  · rfl

/-- A test that branches to a bailout. -/
theorem branch {ok : Machine → Bool} {b : Bailout} {rs : List Register} {c : Snippet.Code}
    {k : Unit → Virtual Unit} (hc : Snippet.Branches ok b.label rs c) (hb : b ∈ bs)
    {good : Bool} (hgood : ok m = good)
    (hfail : ∀ {m'}, Machine.AgreeExcept rs m m' → b.Running env s m')
    (h : ∀ {m'}, Machine.AgreeExcept rs m m' →
      Simulates env done a bs (k () s) (exec env.area is m')) :
    Simulates env done a bs ((Virtual.require good >>= k) s) (exec env.area (c ++ is) m) := by
  obtain ⟨m', hx, ha⟩ := hc env.area m
  rw [exec_append, hx, hgood]
  cases good with
  | true => exact h ha
  | false => exact ⟨b, hb, m', rfl, hfail ha⟩

/-- A test at the end of the code. -/
theorem test {ok : Machine → Bool} {b : Bailout} {rs : List Register} {c : Snippet.Code}
    (hc : Snippet.Branches ok b.label rs c) (hb : b ∈ bs) {good : Bool} (hgood : ok m = good)
    (hfail : ∀ {m'}, Machine.AgreeExcept rs m m' → b.Running env s m')
    (h : ∀ {m'}, Machine.AgreeExcept rs m m' → Running env done a s m') :
    Simulates env done a bs (Virtual.require good s) (exec env.area c m) := by
  obtain ⟨m', hx, ha⟩ := hc env.area m
  rw [hx, hgood]
  cases good with
  | true => exact ⟨m', rfl, h ha⟩
  | false => exact ⟨b, hb, m', rfl, hfail ha⟩

/-- A comparison of memory with a register at the end of the code. -/
theorem testMemory {base r : Register} {disp : Int32} {w v : UInt64} {b : Bailout}
    (hbase : base ≠ .rsp) (hw : m.reg base = w) (hv : m.reg r = v)
    (hmem : ∀ {x}, env.area x = false → m.mem x = env.mem x) (hb : b ∈ bs)
    (hfail : ∀ {m'}, Machine.AgreeExcept [] m m' → b.Running env s m')
    (h : ∀ {m'}, Machine.AgreeExcept [] m m' → Running env done a s m') :
    Simulates env done a bs
      ((Virtual.pointer env w disp >>= fun got => Virtual.require (got == v)) s)
      (exec env.area (Snippet.branchMemory .notEqual base disp r b.label) m) := by
  have haddr : m.address base disp = w + disp.toInt64.toUInt64 := by rw [Machine.address, hw]
  rw [Snippet.branchMemory, exec_cmpMem hbase, haddr, hv]
  unfold Virtual.pointer Virtual.read64
  split
  · next ha =>
      rw [Memory.read64_of_avoids (fun x hx => hmem hx) ha, exec_jcc rfl]
      show Simulates env done a bs (Virtual.require _ s) (if (!_) = true then _ else _)
      cases hgood : env.mem.read64 (w + disp.toInt64.toUInt64) == v with
      | true =>
          rw [Flags.compare64, hgood]
          exact ⟨_, rfl, h ((Machine.AgreeExcept.refl _ m).withFlags _)⟩
      | false =>
          rw [Flags.compare64, hgood]
          exact ⟨b, hb, _, rfl, hfail ((Machine.AgreeExcept.refl _ m).withFlags _)⟩
  · rfl

end Simulates

/-! ## Instructions -/

/-- The registers that are taken when an instruction starts. -/
def initiallyTaken (done : Bool) : List Register :=
  if done then [outputRegister] else []

theorem length_initiallyTaken (done : Bool) : (initiallyTaken done).length ≤ 1 := by
  cases done <;> decide

/-- A register that the next instruction can count on: free, or held by an operand. -/
def Allocator.Settled (a : Allocator) (r : Register) : Prop :=
  a.available.contains r = true ∨ ∃ i, (a.place i).register? = some r

theorem Allocator.Inv.next {a : Allocator} {k d : Nat} {taken : List Register} {done : Bool}
    (h : a.Inv k d taken done) (hlen : taken.length ≤ 4)
    (hsettled : ∀ r ∈ taken, a.Settled r ∨ r ∈ initiallyTaken done) :
    a.nextInstruction.Inv (k + 1) d (initiallyTaken done) done where
  sound := h.sound.next fun r hr => or_assoc.mp (hsettled r hr)
  instruction := congrArg (· + 1) h.instruction
  shallow := by
    have := h.shallow
    show a.maxDepth ≤ _
    omega
  result hd := ⟨(h.result hd).notFree, (h.result hd).notHeld⟩

/-- The code `c`, which leads to the allocator `a` and notes the bailouts `bs`, does what `v`
does to the virtual registers. -/
structure Translates (v : Env → Virtual Unit) (done done' : Bool) (s : Codegen)
    (c : Snippet.Code) (a : Allocator) (bs : Array Bailout) : Prop where
  continues : s.alloc.Continues a
  length : c.length ≤ 32
  targets : ∀ {i l}, i ∈ c → i.target? = some l → ∃ b ∈ bs, b.label = l
  notes : ∃ a₁ k d taken, s.Notes a₁ bs ∧ a₁.Inv k d taken done ∧ taken.length ≤ 4 ∧
    a₁.Continues a
  runs : ∀ {env σ m}, env.room < 2 ^ 31 → a.maxDepth ≤ env.room → Running env done s.alloc σ m →
    Simulates env done' a bs (v env σ) (exec env.area c m)

/-- What compiling instruction `k` comes to. -/
def Emitted (v : Env → Virtual Unit) (k d : Nat) (done done' : Bool) (s : Codegen) (_ : Unit)
    (s' : Codegen) : Prop :=
  ∃ c a bs, s' = (s.write c a).note bs ∧ Translates v done done' s c a bs ∧
    a.nextInstruction.Inv (k + 1) d (initiallyTaken done') done'

namespace Emitted

variable {v v' : Env → Virtual Unit} {k d d' : Nat} {done done' : Bool} {s s' : Codegen}

theorem congr (h : Emitted v k d done done' s () s')
    (hv : ∀ {env σ m}, Running env done s.alloc σ m → v' env σ = v env σ) :
    Emitted v' k d done done' s () s' := by
  obtain ⟨c, a, bs, hs, ht, hinv⟩ := h
  refine ⟨c, a, bs, hs, ⟨ht.continues, ht.length, ht.targets, ht.notes, ?_⟩, hinv⟩
  intro env σ m hroom hmax hrun
  rw [hv hrun]
  exact ht.runs hroom hmax hrun

/-- The code of an instruction is code that brings operands and registers into place, followed by
code that does the work. A bailout, if there is one, is asked for in between. -/
theorem of_advance {c c' : Snippet.Code} {a a' : Allocator} {bs : Array Bailout}
    {taken : List Register} {f : VirtualState → VirtualState}
    (hadv : Advance done s.alloc c a f) (hlen : c.length + c'.length ≤ 32)
    (hinv : a.Inv k d taken done) (htaken : taken.length ≤ 4) (hnotes : s.Notes a bs)
    (htargets : ∀ {i l}, i ∈ c' → i.target? = some l → ∃ b ∈ bs, b.label = l)
    (hcont : a.Continues a')
    (hruns : ∀ {env σ m}, env.room < 2 ^ 31 → a'.maxDepth ≤ env.room →
      Running env done a (f σ) m → Simulates env done' a' bs (v env σ) (exec env.area c' m))
    (hnext : a'.nextInstruction.Inv (k + 1) d' (initiallyTaken done') done') :
    Emitted v k d' done done' s () ((s.write (c ++ c') a').note bs) := by
  refine ⟨c ++ c', a', bs, rfl, ⟨hadv.continues.trans hcont, ?_, ?_, ?_, ?_⟩, hnext⟩
  · rw [List.length_append]
    exact hlen
  · intro i l hi hl
    rw [List.mem_append] at hi
    obtain hi | hi := hi
    · rw [hadv.straight i hi] at hl
      cases hl
    · exact htargets hi hl
  · exact ⟨a, k, d, taken, hnotes, hinv, htaken, hcont⟩
  · intro env σ m hroom hmax hrun
    obtain ⟨m', hx, hrun'⟩ := hadv.runs hroom (Nat.le_trans hcont.deeper hmax) hrun
    rw [exec_append_of_fall hx]
    exact hruns hroom hmax hrun'

/-- The same without a bailout. -/
theorem unguarded (hlab : s.Labelled) {c c' : Snippet.Code} {a a' : Allocator}
    {taken : List Register} {f : VirtualState → VirtualState}
    (hadv : Advance done s.alloc c a f) (hlen : c.length + c'.length ≤ 32)
    (hstraight : Straight c') (hinv : a.Inv k d taken done) (htaken : taken.length ≤ 4)
    (hcont : a.Continues a')
    (hruns : ∀ {env σ m}, env.room < 2 ^ 31 → a'.maxDepth ≤ env.room →
      Running env done a (f σ) m →
      Simulates env done' a' s.bailouts (v env σ) (exec env.area c' m))
    (hnext : a'.nextInstruction.Inv (k + 1) d' (initiallyTaken done') done') :
    Emitted v k d' done done' s () (s.write (c ++ c') a') := by
  rw [← Codegen.note_bailouts (hlab.write (c ++ c') a')]
  refine of_advance hadv hlen hinv htaken (hlab.notes a) (fun {i l} hi hl => ?_) hcont hruns hnext
  rw [hstraight i hi] at hl
  cases hl

/-- An instruction that only rearranges what the allocator knows. -/
theorem silent (hlab : s.Labelled) {a : Allocator} {f : VirtualState → VirtualState}
    (hadv : Advance done s.alloc [] a f) (hinv : a.Inv k d (initiallyTaken done) done)
    (hv : ∀ env σ, v env σ = .ok () (f σ)) :
    Emitted v k d done done s () (s.write [] a) := by
  have hlen := length_initiallyTaken done
  refine unguarded hlab hadv (by simp) straight_nil hinv (by omega)
    (Allocator.Continues.refl _) (fun {env σ m} _ _ hrun => ?_)
    (hinv.next (by omega) fun r hr => .inr hr)
  rw [hv]
  exact Simulates.fall hrun

end Emitted
end InlineCache
