import InlineCache.Proofs.Codegen.Computes
import InlineCache.Proofs.Codegen.Limits
import InlineCache.Proofs.Program.Locality
import InlineCache.Proofs.Stub.Attached
import InlineCache.Proofs.Stub.Placement

/-!
# Calls

A call goes from stub to stub until one of them succeeds. Every stub finds the machine as the one
before it did: the same stack pointer, the same inputs in their registers, and the same memory but
for what lies below the stack pointer (`Enters`). So the call gives the value of the first program
that has one, and the fallback gets the inputs as they were if there is none (`call_eval`).
-/

namespace InlineCache

open X64 Memory

/-- The inputs of a call, as many as the site takes. -/
def CacheKind.values (k : CacheKind) (input0 input1 : UInt64) : List Value :=
  ([input0, input1].take k.numInputs).map Value.mk

/-! ## Programs that leave an area alone -/

/-- On this heap and these inputs a program reads nothing in the area, and the pointers that it
loads fit below a tag. -/
def Program.Confined [ClassTable] (p : Program) (heap : Memory) (area : UInt64 → Bool)
    (inputs : List Value) : Prop :=
  ∀ is, Instruction.decode p.code.toList = .ok is →
    Eval.readsAvoid ⟨heap, p.fieldWord⟩ area is (.start inputs) = true ∧
      Eval.pointersFit ⟨heap, p.fieldWord⟩ is (.start inputs) = true

instance [ClassTable] (p : Program) (heap : Memory) (area : UInt64 → Bool) (inputs : List Value) :
    Decidable (p.Confined heap area inputs) :=
  match h : Instruction.decode p.code.toList with
  | .error _ => isTrue fun is his => by cases h.symm.trans his
  | .ok is => decidable_of_iff
      (Eval.readsAvoid ⟨heap, p.fieldWord⟩ area is (.start inputs) = true ∧
        Eval.pointersFit ⟨heap, p.fieldWord⟩ is (.start inputs) = true)
      ⟨fun hok is' his => by cases h.symm.trans his; exact hok, fun hall => hall is h⟩

/-- What is in the area does not matter. -/
theorem Program.Confined.congr [ClassTable] {p : Program} {heap heap' : Memory}
    {area : UInt64 → Bool} {inputs : List Value} (h : p.Confined heap area inputs)
    (hheap : ∀ x, area x = false → heap' x = heap x) :
    p.eval? heap' inputs = p.eval? heap inputs ∧ p.Confined heap' area inputs := by
  constructor
  · rw [eval?, eval?]
    cases hdecode : Instruction.decode p.code.toList with
    | error _ => rfl
    | ok is =>
        obtain ⟨hrun, -⟩ := @Eval.instructions_congr ⟨heap, p.fieldWord⟩ ⟨heap', p.fieldWord⟩ area
          rfl hheap _ _ is (h is hdecode).1
        dsimp only
        rw [Eval.result?_eq, Eval.result?_eq, hrun]
  · intro is hdecode
    obtain ⟨hreads, hfit⟩ := h is hdecode
    obtain ⟨-, hreads', hfit'⟩ := @Eval.instructions_congr ⟨heap, p.fieldWord⟩
      ⟨heap', p.fieldWord⟩ area rfl hheap _ _ is hreads
    exact ⟨hreads', hfit'.trans hfit⟩

/-! ## One stub -/

theorem Inputs.getElem?_places {inputs : Inputs} {i : Nat} {r : Register}
    (hsource : inputs.sources[i]? = some .register) (hr : inputRegisters[i]? = some r) :
    inputs.places[i]? = some (.valueReg r) := by
  rw [places, List.getElem?_zipWith, hr, hsource]
  rfl

/-- What a run that is watched comes to, if nothing is seen. -/
theorem exit_of_watch {area : UInt64 → Bool} {bytes : List UInt8} {m : Machine} {e : Exit}
    (h : watch area bytes m = e) (hseen : e ≠ .wild) : (run bytes m).exit = e := by
  rcases @watch_eq area bytes m with hwild | hrun
  · exact absurd (h.symm.trans hwild) hseen
  · exact hrun.symm.trans h

/-- A stub gives the value of its program, or else the next one is entered as it was. -/
theorem Enters.run_value [ClassTable] {env : Env} {inputs : Inputs} {words : Nat → UInt64}
    {m : Machine} (hm : Enters env inputs words m) {p : Program} {is : List Instruction}
    (hp : p.Represents is) (hwt : Instruction.WellTyped is)
    (hone : is.countP Instruction.isResult = 1) {e : Engine} {o : Options} {code : StubCode}
    (hc : compile p e inputs o = .ok code) (hroom : env.room < 2 ^ 31)
    (hstack : code.stackBytes + 8 ≤ env.room)
    (hcanon : ∀ i, inputs.sources[i]? = some .register → Value.Canonical ⟨words i⟩)
    (henv : env.Serves p) (hlinked : env.linked = true)
    (hreads : Eval.readsAvoid ⟨env.mem, p.fieldWord⟩ env.area is
      (.start (inputs.values words)) = true)
    (hfit : Eval.pointersFit ⟨env.mem, p.fieldWord⟩ is (.start (inputs.values words)) = true) :
    match Eval.result? ⟨env.mem, p.fieldWord⟩ (inputs.values words) is with
    | some v => ∃ m', run code.bytes m = .returned m' ∧ m'.reg outputRegister = v.bits
    | none => ∃ m', run code.bytes m = .left env.nextCode m' ∧
        Enters { env with stub := env.nextStub } inputs words m' := by
  obtain ⟨hin, -, rfl, hcorrect⟩ := correct_of_compile hp hc
  have hexit := exit_eval hp hwt hone hin hcanon henv hreads hfit
  have hfinish := hcorrect hroom hstack hm
  have hany : is.any Instruction.isResult = true :=
    List.any_eq_true.mpr (List.countP_pos_iff.mp (by omega))
  rw [hany] at hfinish
  cases hvalue : Eval.result? ⟨env.mem, p.fieldWord⟩ (code.inputs.values words) is with
  | some v =>
      rw [hvalue] at hexit
      rw [hexit] at hfinish
      obtain ⟨m', hwatch, hout, -⟩ := hfinish
      exact ⟨m', Outcome.eq_returned (exit_of_watch hwatch (by simp)), hout rfl⟩
  | none =>
      rw [hvalue] at hexit
      obtain ⟨operands, hexit, hback⟩ := hexit
      rw [hexit, if_pos hlinked] at hfinish
      obtain ⟨m', hwatch, hstub, hinputs, hsp, hmem⟩ := hfinish
      refine ⟨m', Outcome.eq_left (exit_of_watch hwatch (by simp)), hsp, hstub, hmem, ?_⟩
      intro i r hsource hr
      rw [hinputs (Inputs.getElem?_places hsource hr), hback i hsource]

namespace Chain

variable {c : Chain} {heap : Memory}

/-! ## Where stubs run -/

/-- The stub at an index, or the fallback behind the last. -/
def linkAt (c : Chain) (i : Nat) : Link :=
  if i < c.stubs.size then .stub i else .fallback

/-- Where the stub at an index runs. -/
def env (c : Chain) (heap : Memory) (i : Nat) : Env :=
  ⟨c.memory heap, c.linkAddress (c.linkAt i), stackTop, c.stackRoom⟩

section
variable (hfit : totalSize c.stubs.toList < 2 ^ 46) {i : Nat} {s : Stub}
  (hs : c.stubs[i]? = some s)

include hs in
theorem linkAddress_linkAt : c.linkAddress (c.linkAt i) = c.headerAddress i := by
  rw [linkAt, if_pos (Array.getElem?_eq_some_iff.mp hs).1]
  rfl

include hfit

variable (hroom : c.stackRoom < 2 ^ 31)
include hroom

/-- No stub writes where the chain lies. -/
theorem avoids_of_holds {a : UInt64} {n : Nat}
    (h : ∀ k < n, c.holds (a + k.toUInt64) = true) :
    (Span.mk a n).avoids (below stackTop c.stackRoom) = true :=
  Span.avoids_iff.mpr fun k hk => not_below_of_holds hfit hroom (h k hk)

theorem avoids_stub (hs : c.stubs[i]? = some s) {n : Nat} (hn : n + 8 ≤ stubSize s) :
    (Span.mk (c.headerAddress i + n.toUInt64) 8).avoids (below stackTop c.stackRoom) = true := by
  refine avoids_of_holds hfit hroom fun k hk => holds_of_stub hfit hs ?_
  rw [UInt64.add_assoc, ← toUInt64_add]
  exact Nat.lt_of_le_of_lt (toNat_add_sub_le _ _) (by omega)

theorem avoids_code (i : Nat) : (Span.mk (c.linkAddress (c.linkAt i) +
    Layout.stubCode.toInt64.toUInt64) 8).avoids (below stackTop c.stackRoom) = true := by
  rw [linkAt]
  split
  · next hi =>
      exact @avoids_stub c hfit i _ hroom (Array.getElem?_eq_getElem hi) 0
        (by rw [stubSize, Layout.stubData]; omega)
  · refine avoids_of_holds hfit hroom fun k hk => holds_of_fallback ?_
    have hle := toNat_add_sub_le fallbackAddress (0 + k)
    rw [toUInt64_add, ← UInt64.add_assoc] at hle
    exact Nat.lt_of_le_of_lt hle (by rw [Layout.stubData]; omega)

include hs

/-- The stub finds the one behind it. -/
theorem env_next (hlinked : c.Linked) : (c.env heap i).linked = true ∧
    (c.env heap i).nextStub = c.linkAddress (c.linkAt (i + 1)) := by
  have hnext : (c.env heap i).nextStub = c.linkAddress (c.linkAt (i + 1)) := by
    have hread := (@hasStub_memory c hfit heap i s hs).next
    rw [← linkAddress_linkAt hs, hlinked hs] at hread
    exact hread
  refine ⟨?_, hnext⟩
  rw [Env.linked, hnext, Bool.and_eq_true]
  refine ⟨?_, avoids_code hfit hroom (i + 1)⟩
  have hstub := @avoids_stub c hfit i s hroom hs 8 (by rw [stubSize, Layout.stubData]; omega)
  rw [← linkAddress_linkAt hs] at hstub
  exact hstub

theorem env_serves [ClassTable] {p : Program} (hp : s.Runs p) : (c.env heap i).Serves p where
  data := by
    have hdata := (@hasStub_memory c hfit heap i s hs).data
    rw [← linkAddress_linkAt hs, hp.data] at hdata
    exact hdata
  readable index hlt hbyte := by
    have hstub := @avoids_stub c hfit i s hroom hs (Layout.stubData + 8 * index) (by
      rw [stubSize, hp.data, Program.length_dataBytes, Program.dataSize_eq]
      omega)
    rw [← linkAddress_linkAt hs, toUInt64_add, ← Compile.displacement_toUInt64 hlt hbyte] at hstub
    exact hstub

end

section
variable [ClassTable] {ps : List Program} (hsize : ps.length = c.stubs.size)
  (hruns : ∀ {i : Nat} {s : Stub} {p : Program}, c.stubs[i]? = some s → ps[i]? = some p → s.Runs p)
  (hregular : ∀ p ∈ ps, p.Regular)
include hsize hruns hregular

theorem exists_runs {s : Stub} (hs : s ∈ c.stubs.toList) : ∃ p, p.Regular ∧ s.Runs p := by
  obtain ⟨i, hi, rfl⟩ := List.getElem_of_mem hs
  have hlt : i < ps.length := by rwa [hsize, ← Array.length_toList]
  exact ⟨ps[i], hregular _ (List.getElem_mem hlt),
    hruns (by rw [← Array.getElem?_toList, List.getElem?_eq_getElem hi])
      (List.getElem?_eq_getElem hlt)⟩

/-- A stub of a regular program takes at most 2072 bytes. -/
theorem totalSize_le : totalSize c.stubs.toList ≤ 2072 * ps.length := by
  have hsmall : ∀ s ∈ c.stubs.toList, stubSize s ≤ 2072 := by
    intro s hs
    obtain ⟨p, hp, hrun⟩ := exists_runs hsize hruns hregular hs
    have hfields := hp.size_fields_le
    rw [stubSize, hrun.data, Program.length_dataBytes, Program.dataSize_eq, Layout.stubData]
    omega
  have hsum : ∀ {ss : List Stub}, (∀ s ∈ ss, stubSize s ≤ 2072) →
      totalSize ss ≤ 2072 * ss.length := by
    intro ss hss
    induction ss with
    | nil => exact Nat.le_refl 0
    | cons s ss ih =>
        have hrest := ih fun s hs => hss s (List.mem_cons_of_mem _ hs)
        have hfirst := hss s List.mem_cons_self
        rw [totalSize, List.length_cons]
        omega
  rw [hsize, ← Array.length_toList]
  exact hsum hsmall

end

/-! ## From stub to stub -/

section
variable {limit : Nat} {code : UInt64} {m m' : Machine} {s : Stub} (hcode : code ≠ fallbackCode)
  (hs : c.stubAt? code = some s)
include hcode hs

end

/-- A call with these inputs has come to the stub at an index. -/
def Reaches (c : Chain) (heap : Memory) (kind : CacheKind) (words : List UInt64) (i : Nat)
    (m : Machine) : Prop :=
  Enters (c.env heap i) (.registers kind.numInputs kind.numInputs_le_two) (words.getD · 0) m

theorem values_registers (kind : CacheKind) (input0 input1 : UInt64) :
    (Inputs.registers kind.numInputs kind.numInputs_le_two).values ([input0, input1].getD · 0) =
      kind.values input0 input1 := by
  cases kind <;> rfl

theorem canonical_of_values {kind : CacheKind} {input0 input1 : UInt64}
    (h : ∀ v ∈ kind.values input0 input1, v.Canonical) {i : Nat}
    (hi : (Inputs.registers kind.numInputs kind.numInputs_le_two).sources[i]? = some .register) :
    Value.Canonical ⟨[input0, input1].getD i 0⟩ := by
  have hget := @Inputs.getD_values _ ([input0, input1].getD · 0) i hi
  have hlt : i < (kind.values input0 input1).length := by
    have hlen : (kind.values input0 input1).length = kind.numInputs := by cases kind <;> rfl
    rw [hlen]
    simpa [Inputs.registers] using (List.getElem?_eq_some_iff.mp hi).1
  rw [values_registers, List.getD_eq_getElem?_getD, List.getElem?_eq_getElem hlt] at hget
  rw [← hget]
  exact h _ (List.getElem_mem hlt)

/-- The machine when a chain is called. -/
def start (c : Chain) (heap : Memory) (input0 input1 : UInt64) : Machine :=
  let m : Machine := ⟨Vector.replicate 16 0, c.memory heap, none⟩
  (((m.setReg .rdi input0).setReg .rsi input1).setReg stubRegister (c.linkAddress c.first)).setReg
    .rsp stackTop

section
variable [ClassTable] (hfit : totalSize c.stubs.toList < 2 ^ 46) (hroom : c.stackRoom < 2 ^ 31)
  (hlinked : c.Linked) {kind : CacheKind} {input0 input1 : UInt64}
  (hcanon : ∀ v ∈ kind.values input0 input1, v.Canonical)
include hfit hroom hlinked hcanon

/-- One stub gives the value of its program, or hands on the call as it was. -/
theorem Reaches.run {i : Nat} {m : Machine} (hm : c.Reaches heap kind [input0, input1] i m)
    {s : Stub} (hs : c.stubs[i]? = some s) {p : Program} (hp : s.Runs p) (hregular : p.Regular)
    (hkind : p.kind = kind) (hconfined : p.Confined heap c.own (kind.values input0 input1)) :
    match p.eval? heap (kind.values input0 input1) with
    | some v => ∃ m', X64.run s.compiled.code.bytes m = .returned m' ∧
        m'.reg outputRegister = v.bits
    | none => ∃ m', X64.run s.compiled.code.bytes m = .left ((c.memory heap).read64
        (c.linkAddress (c.linkAt (i + 1)) + Layout.stubCode.toInt64.toUInt64)) m' ∧
        c.Reaches heap kind [input0, input1] (i + 1) m' := by
  subst hkind
  obtain ⟨is, hrep, -, hwt, hone⟩ := hregular.exists_represents
  obtain ⟨e, o, hc⟩ := hp.code
  have hstack : s.compiled.code.stackBytes + 8 ≤ c.stackRoom :=
    room_le_maxRoom (Array.mem_toList_iff.mpr (Array.mem_of_getElem? hs))
  obtain ⟨heval, hconfined'⟩ := @Program.Confined.congr _ p heap (c.memory heap) c.own _ hconfined
    fun x hx => memory_of_not_own hfit hx
  obtain ⟨hreads, hpointers⟩ := hconfined' is hrep.decode
  have hreads' := Eval.readsAvoid_mono (fun x (hx : below stackTop c.stackRoom x = true) =>
    (by rw [own, hx, Bool.or_true] : c.own x = true)) hreads
  obtain ⟨hnext, hstub⟩ := @env_next c heap hfit i s hs hroom hlinked
  rw [← values_registers] at hreads' hpointers
  have h := Enters.run_value hm hrep hwt hone hc hroom hstack
    (fun j hj => canonical_of_values hcanon hj) (env_serves hfit hs hroom hp) hnext hreads'
    hpointers
  rw [← heval, Program.eval?, hrep.decode]
  rw [values_registers] at h
  rw [Env.nextCode, hstub] at h
  exact h

variable {ps : List Program} (hsize : ps.length = c.stubs.size)
  (hruns : ∀ {i : Nat} {s : Stub} {p : Program}, c.stubs[i]? = some s → ps[i]? = some p → s.Runs p)
  (hregular : ∀ p ∈ ps, p.Regular ∧ p.kind = kind)
  (hconfined : ∀ p ∈ ps, p.Confined heap c.own (kind.values input0 input1))
include hsize hruns hregular hconfined

end

end Chain

/-! ## Histories -/

/-- Loads the slot at an offset from objects of one shape. -/
def Program.slotOf (shape offset : UInt64) : Program :=
  { slotLoad with fields := #[⟨.shape, shape⟩, ⟨.rawWord, offset⟩] }

/-- Two shapes at one site. The third attempt repeats the first. -/
def Attempt.slots : List Attempt :=
  [⟨0, .slotOf 0x1000 32, .baseline, {}⟩, ⟨0, .slotOf 0x1008 40, .ionSharedIC, ⟨false, false⟩⟩,
    ⟨0, .slotOf 0x1000 32, .baseline, {}⟩]

/-- Attaches a program with any number of guards. -/
def Attempt.classGuards (n : Nat) : Attempt :=
  ⟨0, .classGuards n, .baseline, {}⟩

end InlineCache
