import InlineCache.Proofs.Program.History

/-!
# Adding fields later

Fields that are added by hand only take up numbers. If all of them are added after the last
instruction, building succeeds as before, and the program that comes out has the same instructions,
with other numbers for its fields (`exists_build_reordered`). If no instruction brings along a
field after one was added by hand, it is the very same program (`build_reordered_eq`).

Both rest on one fact about appending: it looks at the fields of a program only to count them.
-/

namespace InlineCache

namespace Program

/-- The program with other fields and other bytes. -/
def swap (p : Program) (fields : Array Field) (code : Array UInt8) : Program :=
  { p with fields, code }

/-- A step that adds these fields, and that does to a program with fewer fields what it does to the
program. If it adds no field it writes the same bytes. -/
def Swappable {α : Type} (m : Build α) (brings : List Field) : Prop :=
  ∀ (p p' : Program) (a : α) (fields : Array Field) (code : Array UInt8), m p = .ok a p' →
    fields.size ≤ p.fields.size →
    p'.fields = p.fields ++ brings.toArray ∧
      ∃ code', m (p.swap fields code) = .ok a (p'.swap (fields ++ brings.toArray) code') ∧
        (brings = [] → ∃ new, p'.code = p.code ++ new ∧ code' = code ++ new)

namespace Swappable

variable {α β : Type}

theorem pure (a : α) : Swappable (Pure.pure a) [] := by
  intro p p' b fields code h _
  cases h
  refine ⟨by simp, code, ?_, fun _ => ⟨#[], by simp, by simp⟩⟩
  rw [Array.append_empty]
  rfl

theorem bind {m : Build α} {f : α → Build β} {brings later : List Field}
    (hm : Swappable m brings) (hf : ∀ a, Swappable (f a) later) :
    Swappable (m >>= f) (brings ++ later) := by
  intro p p' b fields code h hfewer
  obtain ⟨a, p₁, h₁, h₂⟩ := exists_of_bind_ok h
  obtain ⟨hfields₁, code₁, hm₁, hsame₁⟩ := hm _ _ _ fields code h₁ hfewer
  have hfewer₁ : (fields ++ brings.toArray).size ≤ p₁.fields.size := by
    rw [hfields₁, Array.size_append, Array.size_append]
    omega
  obtain ⟨hfields₂, code₂, hm₂, hsame₂⟩ := hf a _ _ _ (fields ++ brings.toArray) code₁ h₂ hfewer₁
  have hboth : (brings ++ later).toArray = brings.toArray ++ later.toArray := by simp
  rw [hboth, ← Array.append_assoc, ← Array.append_assoc]
  refine ⟨by rw [hfields₂, hfields₁], code₂, ?_, fun hnone => ?_⟩
  · rw [bind_of_ok hm₁]
    exact hm₂
  · obtain ⟨hnone₁, hnone₂⟩ := List.append_eq_nil_iff.mp hnone
    obtain ⟨new₁, hp₁, rfl⟩ := hsame₁ hnone₁
    obtain ⟨new₂, hp₂, rfl⟩ := hsame₂ hnone₂
    exact ⟨new₁ ++ new₂, by rw [hp₂, hp₁, Array.append_assoc], Array.append_assoc⟩

theorem writeByte (b : UInt8) : Swappable (Program.writeByte b) [] := by
  intro p p' u fields code h _
  cases h
  refine ⟨by simp, code.push b, ?_, fun _ => ⟨#[b], by simp, by simp⟩⟩
  rw [Array.append_empty]
  rfl

theorem writeBytes (bs : List UInt8) : Swappable (Program.writeBytes bs) [] := by
  intro p p' u fields code h _
  cases h
  refine ⟨by simp, code ++ bs.toArray, ?_, fun _ => ⟨bs.toArray, rfl, rfl⟩⟩
  rw [Array.append_empty]
  rfl

theorem writeUse (x : OperandId) : Swappable (Program.writeUse x) [] := by
  intro p p' u fields code h _
  have hx : ¬ 255 < x.index := fun hlt => by
    rw [Program.writeUse, if_pos hlt] at h
    cases h
  rw [writeUse_eq hx] at h
  split at h
  · next hlt =>
      cases h
      refine ⟨by simp, code.push x.index.toUInt8, ?_, fun _ =>
        ⟨#[x.index.toUInt8], by simp, by simp⟩⟩
      rw [writeUse_eq hx, if_pos (show x.index < (p.swap fields code).lastUsed.size from hlt),
        Array.append_empty]
      rfl
  · cases h

theorem writeDef : Swappable Program.writeDef [] := by
  intro p p' x fields code h _
  rw [writeDef_eq] at h
  have hx : ¬ 255 < p.lastUsed.size % 0x10000 := fun hlt => by
    rw [if_pos hlt] at h
    cases h
  rw [if_neg hx] at h
  cases h
  refine ⟨by simp, code.push (p.lastUsed.size % 0x10000).toUInt8, ?_, fun _ =>
    ⟨#[(p.lastUsed.size % 0x10000).toUInt8], by simp, by simp⟩⟩
  rw [writeDef_eq, if_neg (show ¬ 255 < (p.swap fields code).lastUsed.size % 0x10000 from hx),
    Array.append_empty]
  rfl

/-- Fewer fields leave more room for one more. -/
theorem writeField (f : Field) : Swappable (Program.writeField f) [f] := by
  intro p p' u fields code h hfewer
  rw [writeField_eq] at h
  have hx : ¬ 255 < p.fields.size := fun hlt => by
    rw [if_pos hlt] at h
    cases h
  rw [if_neg hx] at h
  cases h
  have hx' : ¬ 255 < (p.swap fields code).fields.size := by
    show ¬ 255 < fields.size
    omega
  refine ⟨by simp, code.push fields.size.toUInt8, ?_, fun hnone => by cases hnone⟩
  rw [writeField_eq, if_neg hx', ← Array.push_eq_append]
  rfl

theorem writeArg (a : Arg) : Swappable (Program.writeArg a) a.field?.toList := by
  cases a with
  | operand x => exact writeUse x
  | classKind c => exact writeByte c.byte
  | bool b => exact writeByte _
  | int32 i => exact writeBytes _
  | field f => exact writeField f

theorem writeArgs {ks : List ArgKind} {args : List Arg}
    (hlen : (ks.filter (· != .define)).length = args.length) :
    Swappable (Program.writeArgs ks args) (args.filterMap Arg.field?) := by
  induction ks generalizing args with
  | nil =>
      obtain rfl := List.length_eq_zero_iff.mp hlen.symm
      exact pure none
  | cons k ks ih =>
      by_cases hk : k = .define
      · subst hk
        have hnext := writeDef.bind fun x => (ih hlen).bind fun later => pure (some (later.getD x))
        rw [List.nil_append, List.append_nil] at hnext
        exact hnext
      · rw [List.filter_cons_of_pos (by simpa using hk)] at hlen
        obtain _ | ⟨a, args⟩ := args
        · cases hlen
        · have hnext := (writeArg a).bind fun _ => ih (Nat.succ.inj hlen)
          have hflat : (a :: args).filterMap Arg.field? =
              a.field?.toList ++ args.filterMap Arg.field? := by
            cases h : a.field? <;> simp [h]
          rw [hflat, Program.writeArgs]
          · exact hnext
          · exact fun h => hk h

theorem countInstruction : Swappable
    (modify fun p => { p with numInstructions := p.numInstructions + 1 }) [] := by
  intro p p' u fields code h _
  cases h
  refine ⟨by simp, code, ?_, fun _ => ⟨#[], by simp, by simp⟩⟩
  rw [Array.append_empty]
  rfl

theorem emit (op : Op) (args : List Arg) :
    Swappable (Program.emit op args) (args.filterMap Arg.field?) := by
  intro p p' defined
  rw [Program.emit]
  cases hcheck : op.checkArgs args with
  | error e =>
      intro fields code h
      cases h
  | ok _ =>
      have hlen := (checkArgs_ok hcheck).length_eq
      have hsteps := (writeByte op.byte).bind fun _ =>
        (writeArgs hlen).bind fun defined => countInstruction.bind fun _ => pure defined
      rw [List.nil_append, List.nil_append, List.append_nil] at hsteps
      exact hsteps p p' defined

end Swappable
end Program

/-! ## Histories -/

namespace BuildStep

/-- The fields that a step adds. -/
def fields : BuildStep → List Field
  | .emit _ args => args.filterMap Arg.field?
  | .addField f => [f]

def isEmit : BuildStep → Bool
  | .emit _ _ => true
  | .addField _ => false

theorem swappable (s : BuildStep) (hs : s.isEmit = true) : Program.Swappable s.run s.fields := by
  cases s with
  | emit op args =>
      have h := (Program.Swappable.emit op args).bind fun _ => Program.Swappable.pure ()
      rw [List.append_nil] at h
      exact h
  | addField f => cases hs

end BuildStep

namespace Program

theorem build_append {ss ss' : List BuildStep} {p p' : Program} :
    build (ss ++ ss') p = .ok () p' ↔
      ∃ p₁, build ss p = .ok () p₁ ∧ build ss' p₁ = .ok () p' := by
  induction ss generalizing p with
  | nil =>
      refine ⟨fun h => ⟨p, rfl, h⟩, ?_⟩
      rintro ⟨p₁, h₁, h⟩
      cases h₁
      exact h
  | cons s ss ih =>
      constructor
      · intro h
        obtain ⟨u, p₁, hs, h⟩ := exists_of_bind_ok h
        obtain ⟨p₂, h₁, h₂⟩ := ih.mp h
        exact ⟨p₂, (bind_of_ok hs).trans h₁, h₂⟩
      · rintro ⟨p₂, h, h₂⟩
        obtain ⟨u, p₁, hs, h₁⟩ := exists_of_bind_ok h
        exact (bind_of_ok hs).trans (ih.mpr ⟨p₂, h₁, h₂⟩)

/-- The fields of a program are those of its steps. -/
theorem fields_build {ss : List BuildStep} {p p' : Program} (h : build ss p = .ok () p') :
    p'.fields = p.fields ++ (ss.flatMap BuildStep.fields).toArray := by
  induction ss generalizing p with
  | nil =>
      cases h
      simp
  | cons s ss ih =>
      obtain ⟨u, p₁, hs, h⟩ := exists_of_bind_ok h
      have hstep : p₁.fields = p.fields ++ s.fields.toArray := by
        cases hemit : s.isEmit with
        | true => exact (s.swappable hemit p p₁ u p.fields p.code hs (Nat.le_refl _)).1
        | false =>
            cases s with
            | emit op args => cases hemit
            | addField f =>
                cases hs
                exact Array.push_eq_append
      rw [ih h, hstep]
      simp

theorem size_fields_build {ss : List BuildStep} {p p' : Program} (h : build ss p = .ok () p') :
    p.fields.size ≤ p'.fields.size := by
  rw [fields_build h, Array.size_append]
  exact Nat.le_add_right _ _

/-- The same steps, with the fields that are added by hand at the end. -/
def reordered (ss : List BuildStep) : List BuildStep :=
  ss.filter BuildStep.isEmit ++ ss.filter fun s => !s.isEmit

theorem map_call? (ss : List BuildStep) :
    (ss.filterMap BuildStep.call?).map (fun c => .emit c.1 c.2) = ss.filter BuildStep.isEmit := by
  induction ss with
  | nil => rfl
  | cons s ss ih =>
      cases s with
      | emit op args => exact congrArg (BuildStep.emit op args :: ·) ih
      | addField f => exact ih

theorem filterMap_reordered (ss : List BuildStep) :
    (reordered ss).filterMap BuildStep.call? = ss.filterMap BuildStep.call? := by
  induction ss with
  | nil => rfl
  | cons s ss ih =>
      rw [reordered, List.filterMap_append] at ih ⊢
      cases s with
      | emit op args => exact congrArg ((op, args) :: ·) ih
      | addField f => exact ih

/-- Adding fields by hand always succeeds. -/
theorem build_addFields {ss : List BuildStep} (h : ∀ s ∈ ss, s.isEmit = false) (p : Program) :
    build ss p = .ok () { p with fields := p.fields ++ (ss.flatMap BuildStep.fields).toArray } := by
  induction ss generalizing p with
  | nil =>
      rw [List.flatMap_nil, Array.append_empty]
      rfl
  | cons s ss ih =>
      have hs := h s List.mem_cons_self
      cases s with
      | emit op args => cases hs
      | addField f =>
          have hrest := ih (fun s' hs' => h s' (List.mem_cons_of_mem _ hs'))
            { p with fields := p.fields.push f }
          refine Eq.trans (bind_of_ok (show BuildStep.run (.addField f) p =
            .ok () { p with fields := p.fields.push f } from rfl)) (hrest.trans ?_)
          simp [BuildStep.fields]

/-- The instructions alone can be appended to a program with fewer fields. -/
theorem exists_build_emits {ss : List BuildStep} {p p' : Program} (h : build ss p = .ok () p')
    {fields : Array Field} (hfewer : fields.size ≤ p.fields.size) (code : Array UInt8) :
    ∃ code', build (ss.filter BuildStep.isEmit) (p.swap fields code) = .ok () (p'.swap
      (fields ++ ((ss.filter BuildStep.isEmit).flatMap BuildStep.fields).toArray) code') := by
  induction ss generalizing p fields code with
  | nil =>
      cases h
      refine ⟨code, ?_⟩
      rw [List.filter_nil, List.flatMap_nil, Array.append_empty]
      rfl
  | cons s ss ih =>
      obtain ⟨u, p₁, hs, h⟩ := exists_of_bind_ok h
      cases hemit : s.isEmit with
      | true =>
          obtain ⟨hfields, code₁, hs₁, -⟩ := s.swappable hemit p p₁ u fields code hs hfewer
          have hfewer₁ : (fields ++ s.fields.toArray).size ≤ p₁.fields.size := by
            rw [hfields, Array.size_append, Array.size_append]
            omega
          obtain ⟨code₂, hrest⟩ := ih h hfewer₁ code₁
          refine ⟨code₂, ?_⟩
          rw [List.filter_cons_of_pos hemit]
          refine (bind_of_ok hs₁).trans (hrest.trans ?_)
          simp
      | false =>
          cases s with
          | emit op args => cases hemit
          | addField f =>
              cases hs
              have hfewer₁ : fields.size ≤ (p.fields.push f).size := by
                rw [Array.size_push]
                omega
              rw [List.filter_cons_of_neg (by simp [hemit])]
              exact @ih { p with fields := p.fields.push f } h fields hfewer₁ code

theorem exists_build_reordered {kind : CacheKind} {ss : List BuildStep} {p : Program}
    (h : build ss (empty kind) = .ok () p) :
    ∃ code, build (reordered ss) (empty kind) =
      .ok () (p.swap ((reordered ss).flatMap BuildStep.fields).toArray code) := by
  obtain ⟨code, hemits⟩ := @exists_build_emits ss _ p h #[] (Nat.zero_le _) #[]
  have hadds := @build_addFields (ss.filter fun s => !s.isEmit)
    (fun s hs => by simpa using (List.mem_filter.mp hs).2)
    (p.swap (#[] ++ ((ss.filter BuildStep.isEmit).flatMap BuildStep.fields).toArray) code)
  refine ⟨code, build_append.mpr ⟨_, hemits, hadds.trans ?_⟩⟩
  simp [reordered, swap]

/-! ## Fields that come late -/

/-- No instruction brings along a field after one was added by hand. -/
def Late (ss : List BuildStep) : Prop :=
  ss.Pairwise fun s t => s.isEmit = false → t.isEmit = true → t.fields = []

/-- Instructions that bring along no fields do not see them. -/
theorem build_swap {ss : List BuildStep} (hemit : ∀ s ∈ ss, s.isEmit = true ∧ s.fields = [])
    {p p' : Program} (h : build ss p = .ok () p') {fields : Array Field}
    (hfewer : fields.size ≤ p.fields.size) :
    p'.fields = p.fields ∧
      build ss (p.swap fields p.code) = .ok () (p'.swap fields p'.code) := by
  induction ss generalizing p with
  | nil =>
      cases h
      exact ⟨rfl, rfl⟩
  | cons s ss ih =>
      obtain ⟨u, p₁, hs, h⟩ := exists_of_bind_ok h
      obtain ⟨hisEmit, hnone⟩ := hemit s List.mem_cons_self
      have hswap := s.swappable hisEmit p p₁ u fields p.code hs hfewer
      rw [hnone, Array.append_empty, Array.append_empty] at hswap
      obtain ⟨hfields, code₁, hs₁, hsame⟩ := hswap
      obtain ⟨new, hcode, rfl⟩ := hsame rfl
      rw [← hcode] at hs₁
      obtain ⟨hfields', hrest⟩ := ih (fun s' hs' => hemit s' (List.mem_cons_of_mem _ hs')) h
        (by rw [hfields]; exact hfewer)
      exact ⟨hfields'.trans hfields, (bind_of_ok hs₁).trans hrest⟩

theorem build_reordered_eq {ss : List BuildStep} (hlate : Late ss) {p p' : Program}
    (h : build ss p = .ok () p') : build (reordered ss) p = .ok () p' := by
  induction ss generalizing p with
  | nil => exact h
  | cons s ss ih =>
      obtain ⟨hhead, htail⟩ := List.pairwise_cons.mp hlate
      obtain ⟨u, p₁, hs, h⟩ := exists_of_bind_ok h
      have hrest := ih htail h
      cases hemit : s.isEmit with
      | true =>
          rw [reordered, List.filter_cons_of_pos hemit, List.filter_cons_of_neg (by simp [hemit])]
          exact (bind_of_ok hs).trans hrest
      | false =>
          rw [reordered, List.filter_cons_of_neg (by simp [hemit]),
            List.filter_cons_of_pos (by simp [hemit])]
          cases s with
          | emit op args => cases hemit
          | addField f =>
              cases hs
              obtain ⟨p₂, hemits, hadds⟩ := build_append.mp hrest
              have hnone : ∀ t ∈ ss.filter BuildStep.isEmit, t.isEmit = true ∧ t.fields = [] := by
                intro t ht
                obtain ⟨hmem, htemit⟩ := List.mem_filter.mp ht
                exact ⟨htemit, hhead t hmem rfl htemit⟩
              obtain ⟨hfields, hswap⟩ := @build_swap _ hnone _ _ hemits p.fields
                (by simp)
              refine build_append.mpr ⟨_, hswap, ?_⟩
              refine Eq.trans (bind_of_ok (show BuildStep.run (.addField f)
                (p₂.swap p.fields p₂.code) = .ok () p₂ from ?_)) hadds
              have hpush : p₂.fields = p.fields.push f := hfields
              show EStateM.Result.ok () { p₂ with fields := p.fields.push f } = _
              rw [← hpush]

/-! ## Fields that no instruction names -/

/-- The fields with numbers that are not used, in order. -/
def leftOver (fs : List Field) (used : List Nat) : List Field :=
  (fs.zipIdx.filter fun x => !used.contains x.2).map Prod.fst

theorem leftOver_append (fs gs : List Field) (used : List Nat) :
    leftOver (fs ++ gs) (used ++ List.range' fs.length gs.length) = leftOver fs used := by
  have hold : fs.zipIdx.filter (fun x => !(used ++ List.range' fs.length gs.length).contains x.2) =
      fs.zipIdx.filter fun x => !used.contains x.2 := by
    refine List.filter_congr fun x hx => ?_
    have hlt := List.snd_lt_of_mem_zipIdx hx
    have hnot : ¬ x.2 ∈ List.range' fs.length gs.length := by
      rw [List.mem_range'_1]
      omega
    simp [hnot]
  have hnew : (gs.zipIdx fs.length).filter
      (fun x => !(used ++ List.range' fs.length gs.length).contains x.2) = [] := by
    refine List.filter_eq_nil_iff.mpr fun x hx => ?_
    have hle := List.le_snd_of_mem_zipIdx hx
    have hlt := List.snd_lt_add_of_mem_zipIdx hx
    simp only [List.contains_eq_mem, List.mem_append, List.mem_range'_1]
    simp
    omega
  rw [leftOver, List.zipIdx_append, List.filter_append, Nat.zero_add, hold, hnew, List.append_nil]
  rfl

theorem leftOver_concat {fs : List Field} {used : List Nat} (h : ∀ i ∈ used, i < fs.length)
    (f : Field) : leftOver (fs ++ [f]) used = leftOver fs used ++ [f] := by
  have hnot : ¬ fs.length ∈ used := fun hmem => Nat.lt_irrefl _ (h _ hmem)
  simp [leftOver, List.zipIdx_append, hnot]

/-- What is left over are the fields that were added by hand. -/
theorem Represents.leftOver_build {ss : List BuildStep} {p p' : Program} {is : List Instruction}
    (hp : p.Represents is) (h : build ss p = .ok () p') :
    ∃ js, p'.Represents js ∧ p'.kind = p.kind ∧
      leftOver p'.fields.toList (js.flatMap Instruction.fieldIndices) =
        leftOver p.fields.toList (is.flatMap Instruction.fieldIndices) ++
          (ss.filter fun s => !s.isEmit).flatMap BuildStep.fields := by
  induction ss generalizing p is with
  | nil =>
      cases h
      exact ⟨is, hp, rfl, by simp⟩
  | cons s ss ih =>
      obtain ⟨u, p₁, hs, hrest⟩ := exists_of_bind_ok h
      cases s with
      | emit op args =>
          obtain ⟨defined, p₂, he, hend⟩ := exists_of_bind_ok hs
          cases hend
          obtain ⟨as, p₃, hw, rfl, -⟩ := emit_writes hp.few hp.lastUsed_le he
          obtain ⟨js, hjs, hkind, hleft⟩ := ih (hp.append hw) hrest
          refine ⟨js, hjs, hkind.trans hw.grows.kind, hleft.trans ?_⟩
          have hfields : p₃.fields.toList = p.fields.toList ++ args.filterMap Arg.field? := by
            rw [hw.fields]
            simp
          have hindices : Instruction.fieldIndices ⟨op, as⟩ =
              List.range' p.fields.toList.length (args.filterMap Arg.field?).length :=
            hw.indices
          rw [List.flatMap_append, List.flatMap_singleton, hindices, hfields, leftOver_append]
          rfl
      | addField f =>
          obtain ⟨index, p₂, ha, hend⟩ := exists_of_bind_ok hs
          cases hend
          obtain ⟨js, hjs, hkind, hleft⟩ := ih (hp.addField ha) hrest
          refine ⟨js, hjs, hkind.trans (grows_addField ha).kind, hleft.trans ?_⟩
          cases ha
          rw [Array.toList_push, leftOver_concat (fun i hi => by simpa using hp.indices_lt i hi),
            List.append_assoc]
          rfl

end Program
end InlineCache
