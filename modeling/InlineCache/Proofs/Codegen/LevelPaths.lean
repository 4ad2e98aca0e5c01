import InlineCache.Proofs.Codegen.LevelBody

/-!
# Failure paths are level

The code of a bailout starts at the depth of its snapshot. Putting the inputs back may push those
that are in the way, each at most once, so the stack grows by no more than a word for each input
behind the first that is in a register (`Bailout.restoreAll_follows`). Then everything is dropped,
and the next stub is entered with nothing on the stack (`Compile.bailouts_follows`).
-/

namespace InlineCache

open X64

/-! ## Code that is added -/

/-- One assembly is another with level code behind it. -/
def X64.Assembly.Leads (asm : Assembly) (depth : Nat) (asm' : Assembly) (depth' top : Nat) : Prop :=
  ∃ c, asm' = asm.append c ∧ X64.Leads depth c depth' top

section
variable {asm asm₁ asm₂ : Assembly} {depth depth₁ depth₂ top : Nat}

namespace X64.Assembly.Leads

theorem of_plain {c : Snippet.Code} (hc : Plain c) : asm.Leads depth (asm.append c) depth depth :=
  ⟨c, rfl, .of_plain hc⟩

theorem refl : asm.Leads depth asm depth depth :=
  ⟨[], by simp [Assembly.append], .of_plain plain_nil⟩

theorem trans (h : asm.Leads depth asm₁ depth₁ top) (h' : asm₁.Leads depth₁ asm₂ depth₂ top) :
    asm.Leads depth asm₂ depth₂ top := by
  obtain ⟨c, rfl, hc⟩ := h
  obtain ⟨c', rfl, hc'⟩ := h'
  exact ⟨c ++ c', Assembly.append_append asm c c', hc.trans hc'⟩

theorem mono {top' : Nat} (h : asm.Leads depth asm₁ depth₁ top) (hle : top ≤ top') :
    asm.Leads depth asm₁ depth₁ top' := by
  obtain ⟨c, rfl, hc⟩ := h
  exact ⟨c, rfl, hc.mono hle⟩

theorem behind_le (h : asm.Leads depth asm₁ depth₁ top) : depth₁ ≤ top := by
  obtain ⟨c, -, hc⟩ := h
  exact hc.behind_le

theorem start_le (h : asm.Leads depth asm₁ depth₁ top) : depth ≤ top := by
  obtain ⟨c, -, hc⟩ := h
  exact hc.start_le

theorem dvd (h : asm.Leads depth asm₁ depth₁ top) (hd : 8 ∣ depth) : 8 ∣ depth₁ := by
  obtain ⟨c, -, hc⟩ := h
  exact hc.dvd hd

end X64.Assembly.Leads

theorem Emit.reload_follows {r : Register} (hr : r ≠ .rsp) {o : Nat} (ho : 0 < o ∧ 8 ∣ o)
    (haligned : 8 ∣ depth) (hlt : depth < 2 ^ 32) :
    Follows (reload r o depth) asm fun depth' asm' => asm.Leads depth asm' depth' depth := by
  by_cases hle : o ≤ depth
  · exact Ensures.of_ok (reload_eq (by omega) hle asm)
      ⟨_, rfl, leads_reload hr ho.1 ho.2 hle haligned hlt⟩
  · have hfail : reload r o depth asm = .error .stackDepth asm := by
      rw [reload, if_neg (by omega), if_pos (by omega)]
      rfl
    exact Ensures.of_error hfail trivial

theorem Emit.tag_follows {payload dest : Register} (hdest : dest ≠ .rsp) (t : ValueType)
    (depth : Nat) : Follows (code? (Snippet.tag t payload dest)) asm fun _ asm' =>
      asm.Leads depth asm' depth depth := by
  obtain ⟨c, hc, hplain⟩ | hc := Snippet.tag_eq hdest payload t
  · rw [hc]
    exact Ensures.of_ok (t := asm.append c) rfl (.of_plain hplain)
  · rw [hc]
    exact Ensures.of_error rfl trivial

end

/-! ## Making room -/

namespace Place

/-- How many of the places are in registers. -/
def inRegisters (ps : List Place) : Nat :=
  ps.countP fun p => p.register?.isSome

/-- The slots are words above the start of the stack. -/
def Slotted (ps : List Place) : Prop :=
  ∀ p ∈ ps, ∀ o, p.slot? = some o → 0 < o ∧ 8 ∣ o

theorem slotted_cons {p : Place} {ps : List Place} :
    Slotted (p :: ps) ↔ (∀ o, p.slot? = some o → 0 < o ∧ 8 ∣ o) ∧ Slotted ps :=
  List.forall_mem_cons

theorem inRegisters_cons (p : Place) (ps : List Place) :
    inRegisters (p :: ps) = inRegisters ps + if p.register?.isSome then 1 else 0 :=
  List.countP_cons

theorem inRegisters_tail_le (ps : List Place) : inRegisters ps.tail ≤ inRegisters ps :=
  (List.tail_sublist ps).countP_le

end Place

namespace Bailout

variable {depth : Nat} {asm : Assembly} {r dest : Register}

/-- What is pushed to make room is no longer in a register. -/
theorem evict_follows {ps : List Place} (hslots : Place.Slotted ps)
    (haligned : 8 ∣ depth) (hlt : depth < 2 ^ 32) :
    Follows (evict r depth ps) asm fun moved asm' => asm.Leads depth asm' moved.2 moved.2 ∧
      moved.2 < 2 ^ 32 ∧ Place.Slotted moved.1 ∧
      moved.2 + 8 * Place.inRegisters moved.1 = depth + 8 * Place.inRegisters ps := by
  induction ps generalizing depth asm with
  | nil => exact Ensures.pure ⟨.refl, hlt, hslots, rfl⟩
  | cons p ps ih =>
      obtain ⟨hslot, hslots⟩ := Place.slotted_cons.mp hslots
      by_cases hp : p.register? = some r
      · by_cases hpush : depth + 8 < 2 ^ 32
        · have hpushed : Emit.pushed depth = pure (depth + 8) := if_pos hpush
          rw [evict, if_pos hp, hpushed]
          refine Ensures.bind_ok (t := asm.append [.push r]) (a := ()) rfl
            (Ensures.bind_ok (t := asm.append [.push r]) (a := depth + 8) rfl
              ((ih hslots (by omega) hpush).bind ?_))
          rintro ⟨ps', depth'⟩ asm' ⟨hleads, hlt', hslots', hcount⟩
          have hstep : asm.Leads depth (asm.append [.push r]) (depth + 8) depth' :=
            ⟨_, rfl, (Leads.push r).mono hleads.start_le⟩
          refine Ensures.of_ok (a := (p.pushed (depth + 8) :: ps', depth')) (t := asm') ?_
            ⟨hstep.trans hleads, hlt', Place.slotted_cons.mpr ⟨fun o ho => ?_, hslots'⟩, ?_⟩
          · cases p <;> first | rfl | cases hp
          · rw [Place.slot?_pushed hp] at ho
            cases ho
            omega
          · have hmoved : Place.inRegisters (p.pushed (depth + 8) :: ps') =
                Place.inRegisters ps' := by
              rw [Place.inRegisters_cons, Place.register?_pushed]
              rfl
            have hheld : Place.inRegisters (p :: ps) = Place.inRegisters ps + 1 := by
              rw [Place.inRegisters_cons, hp]
              rfl
            dsimp only at hcount ⊢
            omega
        · have hpushed : Emit.pushed depth = throw .stackDepth := if_neg hpush
          rw [evict, if_pos hp, hpushed]
          exact Ensures.bind_ok (t := asm.append [.push r]) (a := ()) rfl
            (Ensures.bind (Ensures.of_error rfl trivial))
      · rw [evict, if_neg hp]
        refine (ih hslots haligned hlt).bind ?_
        rintro ⟨ps', depth'⟩ asm' ⟨hleads, hlt', hslots', hcount⟩
        refine Ensures.pure ⟨hleads, hlt', Place.slotted_cons.mpr ⟨hslot, hslots'⟩, ?_⟩
        have hcons := Place.inRegisters_cons p
        rw [hcons, hcons]
        dsimp only at hcount
        omega

theorem restore_follows (hdest : dest ≠ .rsp) (index : Nat) {p : Place}
    (hslot : ∀ o, p.slot? = some o → 0 < o ∧ 8 ∣ o) (haligned : 8 ∣ depth)
    (hlt : depth < 2 ^ 32) :
    Follows (restore index dest depth p) asm fun depth' asm' =>
      asm.Leads depth asm' depth' depth := by
  cases p with
  | uninitialized => exact Ensures.of_error rfl trivial
  | valueReg r =>
      exact Ensures.of_ok (t := asm.append (Snippet.move dest r)) rfl
        (.of_plain (Snippet.plain_move hdest))
  | payloadReg r t =>
      refine (Emit.tag_follows hdest t depth).bind fun _ asm' h => ?_
      exact Ensures.pure h
  | valueStack o => exact Emit.reload_follows hdest (hslot o rfl) haligned hlt
  | payloadStack o t =>
      refine (Emit.reload_follows hdest (hslot o rfl) haligned hlt).bind fun depth' asm₁ h₁ => ?_
      refine (Emit.tag_follows hdest t depth').bind fun _ asm₂ h₂ => ?_
      exact Ensures.pure (h₁.trans (h₂.mono h₁.behind_le))
  | constant v =>
      exact Ensures.of_ok (t := asm.append [.movImm dest v.bits]) rfl
        (.of_plain (by simp [Instr.isPlain, Instr.dest?, hdest]))

/-- The first input is never in the way of another, so only those behind it are pushed. -/
theorem restoreAll_follows {os ps : List Place} (horigins : ∀ r, .valueReg r ∈ os → r ≠ .rsp)
    (hslots : Place.Slotted ps) (haligned : 8 ∣ depth) (hlt : depth < 2 ^ 32) (index : Nat) :
    Follows (restoreAll os ps index depth) asm fun depth' asm' => depth' < 2 ^ 32 ∧
      asm.Leads depth asm' depth' (depth + 8 * Place.inRegisters ps.tail) := by
  induction os generalizing ps depth asm index with
  | nil =>
      cases ps with
      | nil => exact Ensures.pure ⟨hlt, Assembly.Leads.refl.mono (Nat.le_add_right _ _)⟩
      | cons p ps => exact Ensures.of_error rfl trivial
  | cons o os ih =>
      have horigins' : ∀ r, .valueReg r ∈ os → r ≠ .rsp := fun r hr =>
        horigins r (List.mem_cons_of_mem o hr)
      cases ps with
      | nil => exact Ensures.pure ⟨hlt, Assembly.Leads.refl.mono (Nat.le_add_right _ _)⟩
      | cons p ps =>
          obtain ⟨hslot, hslots⟩ := Place.slotted_cons.mp hslots
          cases o with
          | constant v =>
              refine (ih horigins' hslots haligned hlt (index + 1)).mono (fun _ _ _ => trivial) ?_
              rintro depth' asm' ⟨hlt', hleads⟩
              have htail := Place.inRegisters_tail_le ps
              exact ⟨hlt', hleads.mono (by rw [List.tail_cons]; omega)⟩
          | valueReg dest =>
              have hdest := horigins dest List.mem_cons_self
              refine (evict_follows hslots haligned hlt).bind ?_
              rintro ⟨ps', depth₁⟩ asm₁ ⟨h₁, hlt₁, hslots', hcount⟩
              have haligned₁ := h₁.dvd haligned
              refine (restore_follows hdest index hslot haligned₁ hlt₁).bind
                fun depth₂ asm₂ h₂ => ?_
              have hle₂ := h₂.behind_le
              refine (ih horigins' hslots' (h₂.dvd haligned₁) (by omega) (index + 1)).mono
                (fun _ _ _ => trivial) ?_
              rintro depth' asm' ⟨hlt', h₃⟩
              have htail := Place.inRegisters_tail_le ps'
              dsimp only [List.tail_cons] at hcount h₃ ⊢
              exact ⟨hlt', (h₁.mono (by omega)).trans
                ((h₂.mono (by omega)).trans (h₃.mono (by omega)))⟩
          | _ => exact Ensures.of_error rfl trivial

end Bailout

/-! ## All paths -/

/-- The code of a bailout, from the depth of its snapshot to the end. -/
structure Bailout.Path (b : Bailout) (top : Nat) (c : Snippet.Code) : Prop where
  leads : Leads b.depth c 0 top
  ends : ∃ c', c = c' ++ [.jmpStub Layout.stubCode]

/-- What stands behind the body for a bailout. -/
def Bailout.items (b : Bailout) (c : Snippet.Code) : List Item :=
  .bind b.label :: c.map Item.instr

namespace Compile

theorem leave_path {b : Bailout} {c : Snippet.Code} {depth top : Nat}
    (hc : Leads b.depth c depth top) (hlt : depth < 2 ^ 32) :
    b.Path top (c ++ (Snippet.discard depth ++ Snippet.enterNext)) := by
  obtain ⟨hlevels, hbehind, hpeak⟩ := Snippet.levels_discard hlt fun _ _ => False
  have hdiscard : Leads depth (Snippet.discard depth) 0 top :=
    ⟨hlevels, hbehind, by rw [hpeak]; exact hc.behind_le⟩
  have hnext : Leads 0 Snippet.enterNext 0 top :=
    ⟨⟨⟨fun hd => (by cases hd), trivial⟩, ⟨fun hd => (by cases hd), rfl⟩, trivial⟩, rfl,
      Nat.zero_le top⟩
  refine ⟨hc.trans (hdiscard.trans hnext),
    c ++ (Snippet.discard depth ++ [.follow Layout.stubNext]), ?_⟩
  rw [Snippet.enterNext, List.append_assoc, List.append_assoc]
  rfl

/-- The code of every bailout is level. -/
theorem bailouts_follows {n maxDepth : Nat} (hn : n ≤ 2) {bs : List Bailout} {s : Codegen}
    (hbs : ∀ b ∈ bs, b.Levelled n maxDepth)
    (horigins : ∀ r, .valueReg r ∈ s.alloc.origins.toList → r ≠ .rsp) :
    Follows (bailouts bs) s fun _ s' => ∃ paths : List (Bailout × Snippet.Code),
      paths.map Prod.fst = bs ∧ s'.bailouts = s.bailouts ∧
      s'.asm.items.toList = s.asm.items.toList ++ paths.flatMap (fun q => q.1.items q.2) ∧
      ∀ q ∈ paths, q.1.Path (maxDepth + 8) q.2 := by
  induction bs generalizing s with
  | nil => exact Ensures.pure ⟨[], rfl, rfl, by simp, by simp⟩
  | cons b bs ih =>
      have hlevelled := hbs b List.mem_cons_self
      have hemit : Follows (b.emit s.alloc.origins.toList) s.asm fun depth' asm' =>
          depth' < 2 ^ 32 ∧ (s.asm.push (.bind b.label)).Leads b.depth asm' depth'
            (maxDepth + 8) := by
        refine Ensures.bind_ok (t := s.asm.push (.bind b.label)) (a := ()) rfl
          ((Bailout.restoreAll_follows horigins (fun p hp o ho => hlevelled.slot hp ho)
            hlevelled.aligned hlevelled.bounded 0).mono (fun _ _ _ => trivial) ?_)
        rintro depth' asm' ⟨hlt, hleads⟩
        have hcount : Place.inRegisters b.inputs.tail ≤ b.inputs.tail.length :=
          List.countP_le_length
        have hlen := hlevelled.length
        have hdepth := hlevelled.depth_le
        rw [List.length_tail] at hcount
        exact ⟨hlt, hleads.mono (by omega)⟩
      refine Ensures.bind_ok (t := s) (a := s.alloc) rfl
        (Follows.bind (Gen.emit_ensures hemit) ?_)
      rintro depth' _ ⟨_, rfl, hlt, c, rfl, hleads⟩
      refine Ensures.bind_ok (leave_eq depth' _) ?_
      -- Writing a path changes neither the bailouts nor the origins.
      have hrest := ih (fun b' hb' => hbs b' (List.mem_cons_of_mem b hb')) (s := ({ s with
        asm := (s.asm.push (.bind b.label)).append c } : Codegen).write
          (Snippet.discard depth' ++ Snippet.enterNext)
          ({ s.alloc with depth := depth' } : Allocator).discarded) horigins
      refine hrest.mono (fun _ _ _ => trivial) ?_
      rintro _ s' ⟨paths, hfst, hbailouts, hitems, hpaths⟩
      refine ⟨(b, c ++ (Snippet.discard depth' ++ Snippet.enterNext)) :: paths,
        congrArg (b :: ·) hfst, hbailouts, ?_,
        List.forall_mem_cons.mpr ⟨leave_path hleads hlt, hpaths⟩⟩
      rw [hitems]
      simp [Codegen.write, Assembly.append, Assembly.push, Bailout.items]

end Compile
end InlineCache
