import InlineCache.Proofs.Codegen.Configuration
import InlineCache.Proofs.Codegen.Sections

/-!
# Stubs keep the stack

The code of a stub is a body and behind it a failure path for each bailout (`Sections`). At every
point of it the stack has one depth, in whatever run the point is passed. Between the instructions
of the program it is the depth that the allocator knew when it was there, and its greatest value in
the body is the number of bytes that the stub code reports. A failure path starts at the depth of
its snapshot and needs at most one word more than the body.

What stands in the code is so for every program that compiles. For runs the stack has to stay below
2 GiB, because displacements are signed words of 32 bits, and that of a program that a builder makes
does.
-/

namespace InlineCache

open X64

/-! ## The discipline -/

/-- The code of a program that compiles falls into a body and failure paths, such that:
- where an instruction of the program begins, the depth is the one that the allocator knows there;
- in the body depths are numbers of words, and the greatest is what the stub code reports;
- a failure path starts at the depth of its snapshot and needs at most one word more than the body;
- what is read from the stack, other than from its top, is a word that was pushed;
- nothing is on the stack at a return and where the next stub is entered;
- if a builder made the program, then the stack stays below 2 GiB; if it does, displacements are
  read as they were meant, every run that comes to a point has pushed as many bytes as the depth
  says, and a run that ends has the stack pointer where it was. -/
theorem compile_stack_discipline [ClassTable] {p : Program} {e : Engine} {inputs : Inputs}
    {o : Options} {code : StubCode} (hc : compile p e inputs o = .ok code) :
    ∃ x : Sections, x.assembly.finish = .ok code.bytes ∧ x.paths.map Prod.fst = code.bailouts ∧
      (∀ k ≤ p.code.size, ∃ returned s, Compile.upTo p inputs k (.start p e o) = .ok returned s ∧
        8 ∣ s.alloc.depth ∧ (returned = false →
          ∃ q ∈ x.bodyPoints, q.offset = s.asm.size ∧ q.depth = s.alloc.depth)) ∧
      (∀ q ∈ x.bodyPoints, 8 ∣ q.depth ∧ q.depth ≤ code.stackBytes) ∧
      (∃ q ∈ x.bodyPoints, q.depth = code.stackBytes) ∧
      (∀ path ∈ x.pathPoints, path.2.head?.map Point.depth = some path.1.depth ∧
        ∀ q ∈ path.2, q.depth ≤ code.stackBytes + 8) ∧
      (∀ q ∈ x.points, ∀ disp, q.instr.stackDisp? = some disp →
        ∃ n, disp = Int32.ofNat n ∧ 8 ∣ n ∧ 0 < n ∧ n < q.depth) ∧
      (∀ q ∈ x.points, q.instr.exits = true → q.depth = 0) ∧
      (p.Built ∨ code.room < 2 ^ 31 → code.room < 2 ^ 31 ∧
        (∀ q ∈ x.points, ∀ disp, q.instr.stackDisp? = some disp →
          0 < disp.toInt ∧ disp.toInt < q.depth) ∧
        (∀ m pc m', Passes code.bytes m pc m' → ∃ q ∈ x.points, q.offset = pc) ∧
        (∀ q ∈ x.points, ∀ m m', Passes code.bytes m q.offset m' →
          (m.reg .rsp - m'.reg .rsp).toNat = q.depth) ∧
        ∀ m m', (run code.bytes m = .returned m' ∨ ∃ target, run code.bytes m = .left target m') →
          m'.reg .rsp = m.reg .rsp) := by
  obtain ⟨s₁, s₂, h₁, h₂, hfinish, hbailouts, hstack⟩ := Compile.exists_of_compile hc
  obtain ⟨x, hitems, hfst, hbody, hlevel⟩ := Compile.exists_sections h₁ h₂
  have hbytes : x.assembly.finish = .ok code.bytes :=
    (Assembly.finish_congr hitems).trans hfinish
  rw [← hstack] at hlevel
  refine ⟨x, hbytes, hfst.trans hbailouts.symm, fun k hk => ?_,
    fun q hq => ⟨hlevel.dvd_of_mem_body hq, hlevel.depth_le_of_mem_body hq⟩,
    hlevel.exists_mem_body, fun path hpath => hlevel.path_points hpath, fun q hq disp hdisp => ?_,
    fun q hq hexits => (hlevel.fits hq).depth_eq_zero hexits, fun hsmall => ?_⟩
  · obtain ⟨returned, s, hs, hdvd, hfront⟩ := Compile.exists_upTo h₁ hk
    refine ⟨returned, s, hs, hdvd, fun hr => ?_⟩
    obtain ⟨front, c, hprefix, hwritten, hwhole⟩ := hfront hr
    obtain ⟨q, hq, hoffset, hdepth⟩ := exists_mem_points 0 0 hprefix .ret
    refine ⟨q, ?_, ?_, hdepth.trans hwritten.depth⟩
    · rw [Sections.bodyPoints, hbody.eq_of_items hwhole]
      exact hq
    · rw [hoffset, Nat.zero_add, Assembly.size, hwritten.items]
  · obtain ⟨n, hn, hdvd, hpos, hle⟩ := (hlevel.fits hq).stackDisp hdisp
    exact ⟨n, hn, hdvd, hpos, by omega⟩
  · have hroom : code.room < 2 ^ 31 := hsmall.elim (StubCode.room_lt_of_compile · hc) id
    refine ⟨hroom, fun q hq disp hdisp => ?_,
      fun m pc m' => hlevel.exists_mem_of_passes hbytes hroom,
      fun q hq m m' => hlevel.pushed_of_passes hbytes hroom hq,
      fun m m' => hlevel.sp_of_run hbytes hroom⟩
    obtain ⟨n, rfl, -, hpos, hle⟩ := (hlevel.fits hq).stackDisp hdisp
    have hdepth := hlevel.depth_le hq
    rw [StubCode.room] at hroom
    rw [Int32.toInt_ofNat_of_lt (by omega)]
    omega

theorem compile_stack_discipline_threeObjects :
    Program.threeObjects.Built ∧ ∃ (code : StubCode) (x : Sections),
      compile .threeObjects .ionSharedIC (.registers 2 (by decide)) {} = .ok code ∧
      x.assembly.finish = .ok code.bytes ∧ code.bailouts.map Bailout.depth = [8, 16, 24] ∧
      (∃ q ∈ x.bodyPoints, q.depth = 24) ∧ code.room < 2 ^ 31 ∧
      (∀ q ∈ x.points, ∀ m m', Passes code.bytes m q.offset m' →
        (m.reg .rsp - m'.reg .rsp).toNat = q.depth) ∧
      ∀ m m', (run code.bytes m = .returned m' ∨ ∃ target, run code.bytes m = .left target m') →
        m'.reg .rsp = m.reg .rsp := by
  obtain ⟨code, hc, hbailouts, hstack⟩ := exists_compile_threeObjects
  obtain ⟨x, hbytes, -, -, -, hdepth, -, -, -, hruns⟩ := compile_stack_discipline hc
  obtain ⟨hroom, -, -, hpassed, hended⟩ := hruns (.inl Program.built_threeObjects)
  exact ⟨Program.built_threeObjects, code, x, hc, hbytes, hbailouts, hstack ▸ hdepth, hroom,
    hpassed, hended⟩

end InlineCache
