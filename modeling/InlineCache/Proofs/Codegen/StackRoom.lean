import InlineCache.Proofs.Codegen.Correct
import InlineCache.Proofs.Codegen.SharedBailouts

/-!
# The stack of a stub is small

Displacements from the stack pointer are signed words of 32 bits, so a stub may not push 2 GiB or
more. Nothing checks that while a program is compiled, but laying the code out does. All failure
paths stand behind the body, so behind every branch there are less than 2 GiB of body
(`Snippet.Reaches`). In front of the first branch no guard has written anything, and operations
other than guards are few, because each defines an operand, computes the result or returns. Behind
it the guards pay for what they push. Hence every program that a builder makes has room on its
stack if it compiles at all (`stackBytes_lt_of_compile`).
-/

namespace InlineCache

open X64

/-! ## The reach of branches -/

namespace Snippet

/-- Behind every branch there is less code than a displacement can skip. -/
def Reaches (c : Code) : Prop :=
  ∀ before i after, c = before ++ i :: after → i.target?.isSome = true →
    Item.totalSize (after.map Item.instr) < 2 ^ 31

variable {c c' : Code}

theorem branches_aim (l : Label) (c : Code) : branches (aim l c) = branches c := by
  simp [branches, aim, Function.comp_def]

theorem Reaches.right (h : Reaches (c ++ c')) : Reaches c' := fun before i after hsplit hi =>
  h (c ++ before) i after (by rw [hsplit, List.append_assoc]) hi

theorem Reaches.size_lt (h : Reaches (c ++ c')) (hc : branches c = true) :
    Item.totalSize (c'.map Item.instr) < 2 ^ 31 := by
  obtain ⟨i, hi, htarget⟩ := List.any_eq_true.mp hc
  obtain ⟨before, after, rfl⟩ := List.append_of_mem hi
  have hlt := h before i (after ++ c') (by rw [List.append_assoc, List.cons_append]) htarget
  rw [List.map_append, Item.totalSize_append] at hlt
  omega

theorem Reaches.of_relabel {f : Label → Label} (h : Reaches (c.map (Instr.relabel f))) :
    Reaches c := by
  rintro before i after rfl hi
  have hlt := h (before.map (Instr.relabel f)) (i.relabel f) (after.map (Instr.relabel f))
    (by rw [List.map_append, List.map_cons]) (by rw [Instr.target?_relabel, Option.isSome_map, hi])
  rwa [Item.totalSize_map_relabel] at hlt

end Snippet

/-- The failure paths stand behind the body. -/
theorem Sections.Numbered.reaches {x : Sections} (h : x.Numbered) {bytes : List UInt8}
    (hbytes : x.assembly.finish = .ok bytes) : Snippet.Reaches x.body := by
  intro before i after hsplit hi
  obtain ⟨l, hl⟩ := Option.isSome_iff_exists.mp hi
  have hlt := h.exists_finish_iff.mp ⟨bytes, hbytes⟩ before i after hsplit l hl
  rw [offset, hsplit, List.map_append, Item.totalSize_append, List.map_cons, Item.totalSize,
    Item.size] at hlt
  omega

/-! ## Pieces -/

theorem Op.canFail_of_isGuard {op : Op} (h : op.isGuard = true) : op.canFail = true := by
  cases op <;> first | rfl | cases h

namespace Piece

/-- The number of pieces that are not of guards. -/
def numOthers (xs : List Piece) : Nat :=
  xs.countP fun x => !x.instruction.op.isGuard

variable {x : Piece} {xs : List Piece} {l : Label}

theorem pushes_body_cons (x : Piece) (xs : List Piece) (l : Label) :
    Snippet.pushes (body l (x :: xs)) =
      Snippet.pushes x.code + Snippet.pushes (body (l + x.snapshot?.toList.length) xs) := by
  rw [body, Snippet.pushes_append, Snippet.aim, (Snippet.counts_relabel _ _).1]

theorem otherBytes_body_cons (x : Piece) (xs : List Piece) (l : Label) :
    Snippet.otherBytes (body l (x :: xs)) =
      Snippet.otherBytes x.code + Snippet.otherBytes (body (l + x.snapshot?.toList.length) xs) := by
  rw [body, Snippet.otherBytes_append, Snippet.aim, (Snippet.counts_relabel _ _).2]

theorem numOthers_cons (x : Piece) (xs : List Piece) :
    numOthers (x :: xs) = numOthers xs + if x.instruction.op.isGuard then 0 else 1 := by
  rw [numOthers, List.countP_cons, numOthers]
  cases x.instruction.op.isGuard <;> rfl

/-- Guards pay for what they push. -/
theorem pushes_le_otherBytes (hxs : ∀ x ∈ xs, x.Frugal) (l : Label) :
    8 * Snippet.pushes (body l xs) ≤ Snippet.otherBytes (body l xs) + 24 * numOthers xs := by
  induction xs generalizing l with
  | nil => exact Nat.zero_le _
  | cons x xs ih =>
      obtain ⟨⟨hpushes, hpaid⟩, hrest⟩ := List.forall_mem_cons.mp hxs
      have hih := ih hrest (l + x.snapshot?.toList.length)
      rw [pushes_body_cons, otherBytes_body_cons, numOthers_cons]
      split
      · next hguard =>
          have := hpaid hguard
          omega
      · omega

/-- A guard without a branch is dropped. -/
theorem Fits.code_eq_nil (hx : x.Fits) (hguard : x.instruction.op.isGuard = true)
    (hbranches : Snippet.branches x.code = false) : x.code = [] := by
  refine (hx.dropped (Op.canFail_of_isGuard hguard) ?_).2
  rw [hx.branches] at hbranches
  exact Option.not_isSome_iff_eq_none.mp (by rw [hbranches]; exact Bool.false_ne_true)

/-- What is pushed is bounded by the code that fits behind the first branch. There a push stands for
ten bytes: the two that it takes and the eight that pay for it. -/
theorem pushes_lt_of_reaches (hxs : ∀ x ∈ xs, x.Fits ∧ x.Frugal)
    (h : Snippet.Reaches (body l xs)) :
    10 * Snippet.pushes (body l xs) < 2 ^ 31 + 30 * (numOthers xs + 1) := by
  induction xs generalizing l with
  | nil =>
      rw [body, Snippet.pushes]
      omega
  | cons x xs ih =>
      obtain ⟨⟨hfits, hfrugal⟩, hrest⟩ := List.forall_mem_cons.mp hxs
      have hpushes := hfrugal.pushes
      have hnext := ih hrest h.right
      rw [pushes_body_cons, numOthers_cons]
      cases hbranches : Snippet.branches x.code with
      | true =>
          have hsize := h.size_lt ((Snippet.branches_aim l x.code).trans hbranches)
          have hpaid := pushes_le_otherBytes (fun x hx => (hrest x hx).2)
            (l + x.snapshot?.toList.length)
          rw [Snippet.totalSize_eq] at hsize
          omega
      | false =>
          -- In front of the first branch guards write nothing.
          split
          · next hguard =>
              rw [hfits.code_eq_nil hguard hbranches, Snippet.pushes]
              omega
          · omega

end Piece

/-! ## Programs -/

/-- An operation that is no guard defines an operand, computes the result or returns. -/
theorem Op.isGuard_or (op : Op) : (if op.isGuard then 0 else 1) ≤
    op.numDefs + (if op.isResult then 1 else 0) + if op == .returnFromIC then 1 else 0 := by
  cases op <;> decide

theorem Piece.numOthers_le (xs : List Piece) : numOthers xs ≤
    Instruction.numDefs (xs.map instruction) + (xs.map instruction).countP Instruction.isResult +
      (xs.map instruction).countP Instruction.isReturn := by
  induction xs with
  | nil => exact Nat.zero_le _
  | cons x xs ih =>
      have hx := x.instruction.op.isGuard_or
      rw [numOthers_cons, List.map_cons, Instruction.numDefs_cons, List.countP_cons,
        List.countP_cons, Instruction.isResult, Instruction.isReturn]
      omega

theorem Instruction.WellFormed.countP_isReturn {is : List Instruction} (h : WellFormed is) :
    is.countP isReturn = 1 := by
  obtain ⟨body, last, rfl, hlast, hbody⟩ := h.return_
  have hzero : body.countP isReturn = 0 := List.countP_eq_zero.mpr fun i hi => by
    rw [hbody i hi]
    exact Bool.false_ne_true
  rw [List.countP_append, hzero, List.countP_singleton, if_pos hlast]

/-- The code of pieces, with and without sharing. -/
theorem Codegen.exists_body {xs : List Piece} (p : Program) (e : Engine) (o : Options)
    (hxs : ∀ x ∈ xs, x.Fits) (alloc : Allocator) :
    ∃ f, (ofPieces p e o xs alloc).asm.items.toList =
        ((Piece.body 0 xs).map (Instr.relabel f)).map Item.instr ∧
      ((ofPieces p e o xs alloc).sections ((Piece.body 0 xs).map (Instr.relabel f))).Numbered := by
  have htwins := (twins_ofPieces p e o hxs alloc).1
  obtain ⟨share, table⟩ := o
  cases share with
  | true => exact ⟨_, htwins.relabelled, htwins.numbered.2⟩
  | false =>
      have hsame : (Piece.body 0 xs).map (Instr.relabel id) = Piece.body 0 xs :=
        (List.map_congr_left fun i _ => (by cases i <;> rfl)).trans (List.map_id _)
      refine ⟨id, ?_⟩
      rw [hsame]
      exact ⟨htwins.items, htwins.numbered.1⟩

/-- Code that was laid out is made of pieces whose branches reach the failure paths. -/
theorem Compile.exists_pieces [ClassTable] {p : Program} {is : List Instruction}
    (his : p.Represents is) {e : Engine} {inputs : Inputs} {o : Options} {code : StubCode}
    (hc : compile p e inputs o = .ok code) :
    ∃ xs : List Piece, xs.map Piece.instruction = is ∧ (∀ x ∈ xs, x.Fits ∧ x.Frugal) ∧
      Snippet.Reaches (Piece.body 0 xs) ∧
      code.stackBytes ≤ 8 * Snippet.pushes (Piece.body 0 xs) := by
  obtain ⟨s₁, s₂, h₁, h₂, hfinish, -, hstack⟩ := Compile.exists_of_compile hc
  obtain ⟨xs, alloc, hdecode, hpieces, hall⟩ := Compile.upTo_pieces h₁
  cases his.decode.symm.trans hdecode
  obtain ⟨f, hitems, hnumbered⟩ := Codegen.exists_body p e o (fun x hx => (hpieces x hx).1) alloc
  have hs₁ := h₁.symm.trans (hall o.shareBailouts)
  injection hs₁ with _ hs₁
  change s₁ = .ofPieces p e o xs alloc at hs₁
  rw [← hs₁] at hitems hnumbered
  refine ⟨xs, rfl, hpieces, ?_, ?_⟩
  · obtain ⟨-, -, -, hcode⟩ := Compile.bailouts_of_ok (Compile.of_gen_ok h₂)
    rw [hitems] at hcode
    have hbytes : (s₁.sections ((Piece.body 0 xs).map (Instr.relabel f))).assembly.finish =
        .ok code.bytes := (Assembly.finish_congr hcode.symm).trans hfinish
    exact (hnumbered.reaches hbytes).of_relabel
  · obtain ⟨c, -, hwritten⟩ := (Compile.upTo_follows p e o inputs p.code.size).of_eq_ok h₁
    have hsame := Item.map_instr_inj (hwritten.items.symm.trans hitems)
    rw [hstack, ← hwritten.peak, hsame]
    have hpeak := Snippet.peak_le 0 ((Piece.body 0 xs).map (Instr.relabel f))
    rwa [(Snippet.counts_relabel f _).1, Nat.zero_add] at hpeak

/-- Stub code pushes less than 7/4 GiB. -/
theorem stackBytes_lt_of_compile [ClassTable] {p : Program} (hp : p.Built) {e : Engine}
    {inputs : Inputs} {o : Options} {code : StubCode} (hc : compile p e inputs o = .ok code) :
    code.stackBytes < 7 * 2 ^ 28 := by
  obtain ⟨is, his⟩ := hp.exists_represents
  obtain ⟨-, hwf, -⟩ := correct_of_compile his hc
  obtain ⟨xs, rfl, hpieces, hreaches, hdepth⟩ := Compile.exists_pieces his hc
  have hpushes := Piece.pushes_lt_of_reaches hpieces hreaches
  have hothers := Piece.numOthers_le xs
  have hresult := hwf.result
  have hreturn := hwf.countP_isReturn
  have hoperands := his.operands
  have hfew := his.few
  omega

end InlineCache
