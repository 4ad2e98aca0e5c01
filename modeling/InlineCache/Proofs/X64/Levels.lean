import InlineCache.Proofs.X64.Layout

/-!
# The level of the stack

How deep the stack is at a place of the code does not depend on the run that comes there. It can be
read off the instructions: pushes and pops move the stack pointer by a word, and `add rsp` by what
it says. `Instr.Fits` says what an instruction may do at a given depth: it pops and drops only what
was pushed, loads from the stack only slots that are in use, leaves the code only when nothing is
pushed, and branches only to labels that expect this depth. Code in which every instruction fits is
level (`Levels` for a piece of code, `Item.Levels` for all of it), and every run of level code has
the stack pointer where the code says (`Passes.sp`).
-/

namespace InlineCache.X64

/-! ## Instructions -/

namespace Instr

variable {τ : Type}

/-- The depth behind an instruction, in bytes. -/
def depthAfter (depth : Nat) : Instr τ → Nat
  | .push _ => depth + 8
  | .pop _ => depth - 8
  | .dropStack n => depth - n.toUInt32.toNat
  | _ => depth

/-- The register that an instruction names to be written. -/
def dest? : Instr τ → Option Register
  | .pop r => some r
  | .mov r _ => some r
  | .mov32 r _ => some r
  | .movImm r _ => some r
  | .load r _ _ => some r
  | .load32 r _ _ => some r
  | .loadIndexed r _ _ => some r
  | .shl r _ => some r
  | .shr r _ => some r
  | .or r _ => some r
  | .add32 r _ => some r
  | .sub32 r _ => some r
  | _ => none

/-- Whether control can go on behind an instruction. -/
def falls : Instr τ → Bool
  | .jmp _ => false
  | .jmpStub _ => false
  | .ret => false
  | _ => true

/-- What an instruction may do at a depth. The labels that it may branch to are those that `target`
holds of. -/
def Fits (target : Label → Nat → Prop) (depth : Nat) (i : Instr Label) : Prop :=
  i.dest? ≠ some .rsp ∧
    match i with
    | .pop _ => 8 ≤ depth
    | .load _ base disp => base = .rsp →
        0 < disp.toUInt32.toNat ∧ disp.toUInt32.toNat + 8 ≤ depth ∧ 8 ∣ disp.toUInt32.toNat
    | .load32 _ base _ => base ≠ .rsp
    | .loadIndexed _ base _ => base ≠ .rsp
    | .cmpMem base _ _ => base ≠ .rsp
    | .dropStack n => n.toUInt32.toNat = depth
    | .jmp l => target l depth
    | .jcc _ l => target l depth
    | .jmpStub _ => depth = 0
    | .ret => depth = 0
    | _ => True

theorem Fits.mono {target target' : Label → Nat → Prop} {depth : Nat} {i : Instr Label}
    (h : i.Fits target depth) (hsub : ∀ l d, target l d → target' l d) :
    i.Fits target' depth := by
  refine ⟨h.1, ?_⟩
  have h2 := h.2
  cases i with
  | jmp l => exact hsub _ _ h2
  | jcc c l => exact hsub _ _ h2
  | _ => exact h2

theorem Fits.target {target : Label → Nat → Prop} {depth : Nat} {i : Instr Label}
    (h : i.Fits target depth) {l : Label} (hl : i.target? = some l) :
    target l depth ∧ i.depthAfter depth = depth := by
  cases i with
  | jmp l =>
      cases hl
      exact ⟨h.2, rfl⟩
  | jcc c l =>
      cases hl
      exact ⟨h.2, rfl⟩
  | _ => cases hl

/-- The depth stays a number of words. -/
theorem Fits.dvd {target : Label → Nat → Prop} {depth : Nat} {i : Instr Label}
    (h : i.Fits target depth) (hd : 8 ∣ depth) : 8 ∣ i.depthAfter depth := by
  have h2 := h.2
  cases i with
  | push r =>
      rw [depthAfter]
      omega
  | pop r =>
      rw [depthAfter]
      omega
  | dropStack n =>
      dsimp only at h2
      rw [depthAfter, h2, Nat.sub_self]
      exact Nat.dvd_zero 8
  | _ => exact hd

/-- The distance from the stack pointer of the memory that an instruction reads there, other than
by taking it off the stack. -/
def stackDisp? : Instr τ → Option Int32
  | .load _ base disp => if base = .rsp then some disp else none
  | .load32 _ base disp => if base = .rsp then some disp else none
  | .loadIndexed _ base _ => if base = .rsp then some 0 else none
  | .cmpMem base disp _ => if base = .rsp then some disp else none
  | _ => none

/-- Only slots in use are read. -/
theorem Fits.stackDisp {target : Label → Nat → Prop} {depth : Nat} {i : Instr Label}
    (h : i.Fits target depth) {disp : Int32} (hdisp : i.stackDisp? = some disp) :
    ∃ n, disp = Int32.ofNat n ∧ 8 ∣ n ∧ 0 < n ∧ n + 8 ≤ depth := by
  have h2 := h.2
  cases i with
  | load dest base d =>
      rw [stackDisp?] at hdisp
      split at hdisp
      · next hbase =>
          cases hdisp
          obtain ⟨hpos, hle, hdvd⟩ := h2 hbase
          have hofNat : UInt32.ofNat disp.toUInt32.toNat = disp.toUInt32 := UInt32.ofNat_toNat
          exact ⟨disp.toUInt32.toNat, congrArg UInt32.toInt32 hofNat.symm, hdvd, hpos, hle⟩
      · cases hdisp
  | load32 dest base d =>
      rw [stackDisp?, if_neg h2] at hdisp
      cases hdisp
  | loadIndexed dest base x =>
      rw [stackDisp?, if_neg h2] at hdisp
      cases hdisp
  | cmpMem base d src =>
      rw [stackDisp?, if_neg h2] at hdisp
      cases hdisp
  | _ => cases hdisp

/-- Whether an instruction leaves the code. -/
def exits : Instr τ → Bool
  | .jmpStub _ => true
  | .ret => true
  | _ => false

theorem Fits.depth_eq_zero {target : Label → Nat → Prop} {depth : Nat} {i : Instr Label}
    (h : i.Fits target depth) (hexits : i.exits = true) : depth = 0 := by
  have h2 := h.2
  cases i with
  | jmpStub disp => exact h2
  | ret => exact h2
  | _ => cases hexits

/-- Whether an instruction goes on behind itself and has nothing to do with the stack. -/
def isPlain (i : Instr τ) : Bool :=
  decide (i.dest? ≠ some .rsp) &&
    match i with
    | .push _ | .pop _ | .dropStack _ | .jmp _ | .jcc _ _ | .jmpStub _ | .ret => false
    | .load _ base _ => decide (base ≠ .rsp)
    | .load32 _ base _ => decide (base ≠ .rsp)
    | .loadIndexed _ base _ => decide (base ≠ .rsp)
    | .cmpMem base _ _ => decide (base ≠ .rsp)
    | _ => true

theorem fits_of_isPlain {i : Instr Label} (h : i.isPlain = true) (target : Label → Nat → Prop)
    (depth : Nat) : i.Fits target depth ∧ i.depthAfter depth = depth := by
  unfold isPlain at h
  rw [Bool.and_eq_true, decide_eq_true_eq] at h
  obtain ⟨hdest, hrest⟩ := h
  cases i with
  | load d base disp =>
      exact ⟨⟨hdest, fun hbase => absurd hbase (of_decide_eq_true hrest)⟩, rfl⟩
  | load32 d base disp => exact ⟨⟨hdest, of_decide_eq_true hrest⟩, rfl⟩
  | loadIndexed d base x => exact ⟨⟨hdest, of_decide_eq_true hrest⟩, rfl⟩
  | cmpMem base disp src => exact ⟨⟨hdest, of_decide_eq_true hrest⟩, rfl⟩
  | _ => first | exact ⟨⟨hdest, trivial⟩, rfl⟩ | cases hrest

end Instr

/-! ## Pieces of code -/

/-- Every instruction of a piece of code fits where it stands, with the first at a depth. -/
def Levels (target : Label → Nat → Prop) : Nat → List (Instr Label) → Prop
  | _, [] => True
  | depth, i :: is => i.Fits target depth ∧ Levels target (i.depthAfter depth) is

/-- The depth behind a piece of code. -/
def depthBehind (depth : Nat) (c : List (Instr Label)) : Nat :=
  c.foldl Instr.depthAfter depth

/-- The greatest depth in a piece of code, before and behind each instruction. -/
def peak : Nat → List (Instr Label) → Nat
  | depth, [] => depth
  | depth, i :: is => max depth (peak (i.depthAfter depth) is)

section
variable {target target' : Label → Nat → Prop} {depth : Nat} {c c' : List (Instr Label)}

theorem Levels.mono (h : Levels target depth c) (hsub : ∀ l d, target l d → target' l d) :
    Levels target' depth c := by
  induction c generalizing depth with
  | nil => trivial
  | cons i c ih => exact ⟨h.1.mono hsub, ih h.2⟩

theorem levels_append : Levels target depth (c ++ c') ↔
    Levels target depth c ∧ Levels target (depthBehind depth c) c' := by
  induction c generalizing depth with
  | nil => simp [Levels, depthBehind]
  | cons i c ih =>
      rw [List.cons_append, Levels, Levels, ih, and_assoc]
      rfl

theorem depthBehind_append :
    depthBehind depth (c ++ c') = depthBehind (depthBehind depth c) c' :=
  List.foldl_append

theorem le_peak : depth ≤ peak depth c := by
  cases c with
  | nil => exact Nat.le_refl _
  | cons i c => exact Nat.le_max_left _ _

theorem peak_append :
    peak depth (c ++ c') = max (peak depth c) (peak (depthBehind depth c) c') := by
  induction c generalizing depth with
  | nil => exact (Nat.max_eq_right le_peak).symm
  | cons i c ih =>
      rw [List.cons_append, peak, peak, ih, Nat.max_assoc]
      rfl

/-- The greatest depth is the depth somewhere in the code, and nowhere in it is a greater one. -/
theorem depthBehind_le_peak {rest : List (Instr Label)} :
    depthBehind depth c ≤ peak depth (c ++ rest) := by
  rw [peak_append]
  exact Nat.le_trans le_peak (Nat.le_max_right _ _)

theorem exists_eq_peak (depth : Nat) (c : List (Instr Label)) :
    ∃ front, front <+: c ∧ depthBehind depth front = peak depth c := by
  induction c generalizing depth with
  | nil => exact ⟨[], List.prefix_rfl, rfl⟩
  | cons i c ih =>
      obtain ⟨front, hfront, hdepth⟩ := ih (i.depthAfter depth)
      rw [peak]
      rcases Nat.le_total depth (peak (i.depthAfter depth) c) with hle | hle
      · rw [Nat.max_eq_right hle]
        exact ⟨i :: front, (List.prefix_cons_inj i).mpr hfront, hdepth⟩
      · rw [Nat.max_eq_left hle]
        exact ⟨[], List.nil_prefix, rfl⟩

theorem Levels.dvd (h : Levels target depth c) (hd : 8 ∣ depth) : 8 ∣ depthBehind depth c := by
  induction c generalizing depth with
  | nil => exact hd
  | cons i c ih => exact ih h.2 (h.1.dvd hd)

/-- Code that fits and leaves the stack as it is. -/
def Flat (target : Label → Nat → Prop) (depth : Nat) (c : List (Instr Label)) : Prop :=
  ∀ i ∈ c, i.Fits target depth ∧ i.depthAfter depth = depth

theorem Flat.levels (h : Flat target depth c) :
    Levels target depth c ∧ depthBehind depth c = depth ∧ peak depth c = depth := by
  induction c with
  | nil => exact ⟨trivial, rfl, rfl⟩
  | cons i c ih =>
      obtain ⟨hi, hdepth⟩ := h i List.mem_cons_self
      obtain ⟨h₁, h₂, h₃⟩ := ih fun j hj => h j (List.mem_cons_of_mem _ hj)
      refine ⟨⟨hi, hdepth.symm ▸ h₁⟩, ?_, ?_⟩
      · rw [depthBehind, List.foldl_cons, hdepth]
        exact h₂
      · rw [peak, hdepth, h₃, Nat.max_self]

/-- Code that has nothing to do with the stack. -/
def Plain (c : List (Instr Label)) : Prop :=
  ∀ i ∈ c, i.isPlain = true

@[simp]
theorem plain_nil : Plain [] := fun _ hi => absurd hi List.not_mem_nil

@[simp]
theorem plain_cons {i : Instr Label} : Plain (i :: c) ↔ i.isPlain = true ∧ Plain c :=
  List.forall_mem_cons

theorem Plain.append (h : Plain c) (h' : Plain c') : Plain (c ++ c') := fun i hi =>
  (List.mem_append.mp hi).elim (h i) (h' i)

theorem Plain.flat (h : Plain c) : Flat target depth c :=
  fun i hi => Instr.fits_of_isPlain (h i hi) target depth

/-- Level code without branches leads from one depth to another and stays below a third. -/
structure Leads (depth : Nat) (c : List (Instr Label)) (depth' top : Nat) : Prop where
  levels : Levels (fun _ _ => False) depth c
  behind : depthBehind depth c = depth'
  below : peak depth c ≤ top

namespace Leads

variable {depth' depth'' top top' : Nat}

theorem trans (h : Leads depth c depth' top) (h' : Leads depth' c' depth'' top) :
    Leads depth (c ++ c') depth'' top where
  levels := levels_append.mpr ⟨h.levels, by rw [h.behind]; exact h'.levels⟩
  behind := by rw [depthBehind_append, h.behind, h'.behind]
  below := by
    rw [peak_append, h.behind]
    exact Nat.max_le.mpr ⟨h.below, h'.below⟩

theorem mono (h : Leads depth c depth' top) (hle : top ≤ top') : Leads depth c depth' top' :=
  ⟨h.levels, h.behind, Nat.le_trans h.below hle⟩

theorem start_le (h : Leads depth c depth' top) : depth ≤ top :=
  Nat.le_trans le_peak h.below

theorem behind_le (h : Leads depth c depth' top) : depth' ≤ top := by
  have hle : depthBehind depth c ≤ peak depth (c ++ []) := depthBehind_le_peak
  rw [List.append_nil, h.behind] at hle
  exact Nat.le_trans hle h.below

theorem dvd (h : Leads depth c depth' top) (hd : 8 ∣ depth) : 8 ∣ depth' :=
  h.behind ▸ h.levels.dvd hd

theorem of_plain (h : Plain c) : Leads depth c depth depth := by
  obtain ⟨hlevels, hdepth, hpeak⟩ := h.flat.levels
  exact ⟨hlevels, hdepth, Nat.le_of_eq hpeak⟩

theorem push (r : Register) : Leads depth [.push r] (depth + 8) (depth + 8) :=
  ⟨⟨⟨fun h => (by cases h), trivial⟩, trivial⟩, rfl,
    Nat.max_le.mpr ⟨Nat.le_add_right depth 8, Nat.le_refl _⟩⟩

end Leads

end

/-! ## All of the code -/

namespace Item

/-- The depth behind items, with the first at a depth. At a label the depth is the one that `entry`
says, whatever stands before it. -/
def depth (entry : Label → Nat) : Nat → List Item → Nat
  | d, [] => d
  | d, .instr i :: is => depth entry (i.depthAfter d) is
  | _, .bind l :: is => depth entry (entry l) is

/-- Every instruction fits where it stands, and control does not run into a label or off the end.
`live` says whether control can come to the first item from above. -/
def Levels (entry : Label → Nat) : Nat → Bool → List Item → Prop
  | _, live, [] => live = false
  | d, _, .instr i :: is => i.Fits (fun l d => d = entry l) d ∧
      Levels entry (i.depthAfter d) i.falls is
  | _, live, .bind l :: is => live = false ∧ Levels entry (entry l) true is

variable {entry : Label → Nat} {d : Nat} {live : Bool} {is js : List Item}

theorem depth_append : depth entry d (is ++ js) = depth entry (depth entry d is) js := by
  induction is generalizing d with
  | nil => rfl
  | cons i is ih =>
      cases i with
      | instr i => exact ih
      | bind l => exact ih

theorem depth_map_instr (c : List (Instr Label)) :
    depth entry d (c.map Item.instr) = depthBehind d c := by
  induction c generalizing d with
  | nil => rfl
  | cons i c ih => exact ih

theorem Levels.of_append (h : Levels entry d live (is ++ js)) :
    ∃ live', Levels entry (depth entry d is) live' js := by
  induction is generalizing d live with
  | nil => exact ⟨live, h⟩
  | cons i is ih =>
      cases i with
      | instr i => exact ih h.2
      | bind l => exact ih h.2

/-- A piece of level code from which control does not go on to what is behind it. -/
theorem Levels.of_code {c : List (Instr Label)} {last : Instr Label}
    (hc : X64.Levels (fun l d => d = entry l) d (c ++ [last])) (hlast : last.falls = false)
    (hrest : ∀ d, Levels entry d false js) :
    Levels entry d live ((c ++ [last]).map Item.instr ++ js) := by
  induction c generalizing d live with
  | nil => exact ⟨hc.1, hlast.symm ▸ hrest _⟩
  | cons i c ih => exact ⟨hc.1, ih hc.2⟩

/-- A place where a label is bound. -/
theorem exists_of_lookup_bindings {l : Label} {start place : Nat}
    (h : (bindings start is).lookup l = some place) :
    ∃ front rest, is = front ++ .bind l :: rest ∧ start + totalSize front = place := by
  induction is generalizing start with
  | nil => cases h
  | cons i is ih =>
      cases i with
      | instr i =>
          obtain ⟨front, rest, rfl, hplace⟩ := ih h
          exact ⟨.instr i :: front, rest, rfl, by rw [totalSize, size]; omega⟩
      | bind l' =>
          rw [bindings, List.lookup_cons] at h
          by_cases hl : l = l'
          · subst hl
            rw [beq_self_eq_true] at h
            cases h
            exact ⟨[], is, rfl, rfl⟩
          · rw [beq_false_of_ne hl] at h
            obtain ⟨front, rest, rfl, hplace⟩ := ih h
            exact ⟨.bind l' :: front, rest, rfl, by rw [totalSize, size]; omega⟩

end Item

/-! ## Points -/

/-- A point of the code: an instruction, where it stands and how deep the stack is before it. -/
structure Point where
  offset : Nat
  depth : Nat
  instr : Instr Label

/-- The points of a piece of code. -/
def points (offset depth : Nat) : List (Instr Label) → List Point
  | [] => []
  | i :: is => ⟨offset, depth, i⟩ :: points (offset + i.size) (i.depthAfter depth) is

namespace Item

/-- The points of all of the code. -/
def points (entry : Label → Nat) (offset d : Nat) : List Item → List Point
  | [] => []
  | .instr i :: is => ⟨offset, d, i⟩ :: points entry (offset + i.size) (i.depthAfter d) is
  | .bind l :: is => points entry offset (entry l) is

variable {entry : Label → Nat} {offset d : Nat} {live : Bool} {is js : List Item} {q : Point}

theorem points_append : points entry offset d (is ++ js) =
    points entry offset d is ++ points entry (offset + totalSize is) (depth entry d is) js := by
  induction is generalizing offset d with
  | nil => rfl
  | cons i is ih =>
      cases i with
      | instr i =>
          rw [List.cons_append, points, points, ih, totalSize, size, depth, Nat.add_assoc]
          rfl
      | bind l =>
          rw [List.cons_append, points, points, ih, totalSize, size, depth, Nat.zero_add]

theorem points_map_instr (entry : Label → Nat) (c : List (Instr Label)) :
    points entry offset d (c.map Item.instr) = X64.points offset d c := by
  induction c generalizing offset d with
  | nil => rfl
  | cons i c ih => rw [List.map_cons, points, ih, X64.points]

/-- A point is a place before an instruction. -/
theorem mem_points : q ∈ points entry offset d is ↔ ∃ before after,
    is = before ++ .instr q.instr :: after ∧ q.offset = offset + totalSize before ∧
      q.depth = depth entry d before := by
  constructor
  · intro h
    induction is generalizing offset d with
    | nil => cases h
    | cons i is ih =>
        cases i with
        | instr i =>
            obtain rfl | h := List.mem_cons.mp h
            · exact ⟨[], is, rfl, rfl, rfl⟩
            · obtain ⟨before, after, rfl, hoffset, hdepth⟩ := ih h
              exact ⟨.instr i :: before, after, rfl, by rw [totalSize, size]; omega, hdepth⟩
        | bind l =>
            obtain ⟨before, after, rfl, hoffset, hdepth⟩ := ih h
            exact ⟨.bind l :: before, after, rfl, by rw [totalSize, size]; omega, hdepth⟩
  · rintro ⟨before, after, rfl, hoffset, hdepth⟩
    rw [points_append, points, ← hoffset, ← hdepth]
    exact List.mem_append_right _ List.mem_cons_self

/-- There is one point at an offset. -/
theorem eq_of_totalSize_eq {before before' after after' : List Item} {i i' : Instr Label}
    (h : before ++ .instr i :: after = before' ++ .instr i' :: after')
    (hsize : totalSize before = totalSize before') : before = before' ∧ i = i' := by
  induction before generalizing before' with
  | nil =>
      cases before' with
      | nil =>
          cases h
          exact ⟨rfl, rfl⟩
      | cons j before' =>
          cases h
          have hpos := i.size_pos
          rw [totalSize, totalSize, size] at hsize
          omega
  | cons j before ih =>
      cases before' with
      | nil =>
          cases h
          have hpos := i'.size_pos
          rw [totalSize, totalSize, size] at hsize
          omega
      | cons j' before' =>
          rw [List.cons_append, List.cons_append, List.cons.injEq] at h
          obtain ⟨rfl, hrest⟩ := h
          rw [totalSize, totalSize] at hsize
          obtain ⟨rfl, hi⟩ := ih hrest (by omega)
          exact ⟨rfl, hi⟩

theorem Levels.fits (h : Levels entry d live is) (hq : q ∈ points entry offset d is) :
    q.instr.Fits (fun l d => d = entry l) q.depth := by
  obtain ⟨before, after, rfl, -, hdepth⟩ := mem_points.mp hq
  obtain ⟨live', hlevels⟩ := h.of_append
  rw [hdepth]
  exact hlevels.1

end Item

section
variable {offset depth : Nat} {c : List (Instr Label)} {q : Point}

theorem mem_points : q ∈ points offset depth c ↔ ∃ front rest, c = front ++ q.instr :: rest ∧
    q.offset = offset + Item.totalSize (front.map Item.instr) ∧
      q.depth = depthBehind depth front := by
  rw [← Item.points_map_instr fun _ => 0, Item.mem_points]
  constructor
  · rintro ⟨before, after, hsplit, hoffset, hdepth⟩
    obtain ⟨front, rest, rfl, rfl, hrest⟩ := List.map_eq_append_iff.mp hsplit
    obtain ⟨i, rest, rfl, hi, -⟩ := List.map_eq_cons_iff.mp hrest
    cases hi
    exact ⟨front, rest, rfl, hoffset, hdepth.trans (Item.depth_map_instr front)⟩
  · rintro ⟨front, rest, rfl, hoffset, hdepth⟩
    exact ⟨front.map Item.instr, rest.map Item.instr, by simp, hoffset,
      hdepth.trans (Item.depth_map_instr front).symm⟩

theorem depth_le_peak (hq : q ∈ points offset depth c) : q.depth ≤ peak depth c := by
  obtain ⟨front, rest, rfl, -, hdepth⟩ := mem_points.mp hq
  exact hdepth ▸ depthBehind_le_peak

/-- Behind a front of the code there is a point, if an instruction follows. -/
theorem exists_mem_points (offset depth : Nat) {front : List (Instr Label)} (h : front <+: c)
    (last : Instr Label) : ∃ q ∈ points offset depth (c ++ [last]),
      q.offset = offset + Item.totalSize (front.map Item.instr) ∧
        q.depth = depthBehind depth front := by
  obtain ⟨rest, rfl⟩ := h
  obtain ⟨i, rest', hrest⟩ : ∃ i rest', rest ++ [last] = i :: rest' := by
    cases rest with
    | nil => exact ⟨last, [], rfl⟩
    | cons i rest => exact ⟨i, rest ++ [last], rfl⟩
  refine ⟨⟨_, _, i⟩, mem_points.mpr ⟨front, rest', ?_, rfl, rfl⟩, rfl, rfl⟩
  rw [List.append_assoc, hrest]

end

/-! ## Runs -/

/-- A run of the bytes from their start comes to an offset with this machine. -/
inductive Passes (bytes : List UInt8) (m : Machine) : Nat → Machine → Prop where
  | start : Passes bytes m 0 m
  | next {pc next : Nat} {i : Instr Int32} {m₁ m₂ : Machine} : Passes bytes m pc m₁ →
      fetch? bytes pc = some (i, next) → i.exec m₁ = some (m₂, .next) → Passes bytes m next m₂
  | branch {pc next : Nat} {i : Instr Int32} {m₁ m₂ : Machine} {disp : Int32} :
      Passes bytes m pc m₁ → fetch? bytes pc = some (i, next) →
      i.exec m₁ = some (m₂, .branch disp) → 0 ≤ (next : Int) + disp.toInt →
      Passes bytes m ((next : Int) + disp.toInt).toNat m₂

/-- What a branch on unknown flags is called does not matter either. -/
theorem Instr.exec_retarget?_eq_none {f : Label → Option Int32} {i : Instr Label} {j : Instr Int32}
    (h : i.retarget? f = some j) {m : Machine} (hx : i.exec m = none) : j.exec m = none := by
  cases i with
  | jcc c l =>
      obtain ⟨d, _, rfl⟩ := Option.map_eq_some_iff.mp h
      rw [Instr.exec, Option.map_eq_none_iff] at hx
      rw [Instr.exec, hx]
      rfl
  | _ => cases hx

theorem Instr.falls_of_exec {i : Instr Label} {m m' : Machine} (hx : i.exec m = some (m', .next)) :
    i.falls = true := by
  cases i <;> first | rfl | cases hx

theorem Instr.target?_of_exec {i : Instr Label} {m m' : Machine} {l : Label}
    (hx : i.exec m = some (m', .branch l)) : i.target? = some l ∧ m' = m := by
  cases i with
  | jmp l' =>
      cases hx
      exact ⟨rfl, rfl⟩
  | jcc c l' =>
      obtain ⟨f, _, heq⟩ := Option.map_eq_some_iff.mp hx
      rw [Prod.mk.injEq] at heq
      obtain ⟨rfl, heq⟩ := heq
      split at heq <;> cases heq
      exact ⟨rfl, rfl⟩
  | _ => cases hx

/-- An instruction that fits leaves the stack pointer at the depth behind it. -/
theorem Instr.Fits.exec_rsp {target : Label → Nat → Prop} {depth : Nat} {i : Instr Label}
    (h : i.Fits target depth) (hd : depth < 2 ^ 31) {m m' : Machine} {top : UInt64}
    {flow : Flow Label} (hsp : m.reg .rsp = Memory.slot top depth)
    (hx : i.exec m = some (m', flow)) : m'.reg .rsp = Memory.slot top (i.depthAfter depth) := by
  obtain ⟨hdest, hrest⟩ := h
  have hother : ∀ (m : Machine) (r : Register) (w : UInt64), some r ≠ some Register.rsp →
      (m.setReg r w).reg .rsp = m.reg .rsp := fun m r w hne => by
    rw [Machine.reg_setReg, if_neg fun he => hne (congrArg some he)]
  cases i with
  | push r =>
      cases hx
      rw [Machine.reg_setReg, if_pos rfl, hsp, Memory.slot_sub_eight]
      rfl
  | pop r =>
      cases hx
      rw [hother _ _ _ hdest, Machine.reg_setReg, if_pos rfl, hsp, Memory.slot_add_eight _ hrest]
      rfl
  | dropStack n =>
      cases hx
      have hn : n.toInt64.toUInt64 = depth.toUInt64 := by
        rw [← disp_toUInt64 hd, ← hrest]
        simp
      rw [Machine.reg_setReg, if_pos rfl, Machine.address, hsp, hn,
        Memory.slot_add _ (Nat.le_refl _), depthAfter, show n.toUInt32.toNat = depth from hrest]
  | jcc c l =>
      obtain ⟨f, _, heq⟩ := Option.map_eq_some_iff.mp hx
      cases heq
      exact hsp
  | _ =>
      cases hx
      first
        | exact hsp
        | exact (hother _ _ _ hdest).trans hsp
        | exact (hother _ _ _ (by decide)).trans hsp

/-- A machine is at an offset of level code, before an instruction, and its stack pointer is at the
depth that the code says. -/
structure At (entry : Label → Nat) (items : List Item) (top : UInt64) (pc : Nat) (m : Machine)
    (before : List Item) (i : Instr Label) (after : List Item) : Prop where
  items : items = before ++ .instr i :: after
  offset : Item.totalSize before = pc
  fits : i.Fits (fun l d => d = entry l) (Item.depth entry 0 before)
  rest : Item.Levels entry (i.depthAfter (Item.depth entry 0 before)) i.falls after
  sp : m.reg .rsp = Memory.slot top (Item.depth entry 0 before)

section
variable {entry : Label → Nat} {items before after : List Item} {out : List (Instr Int32)}
  {top : UInt64} {pc : Nat} {m m' : Machine} {i : Instr Label}

theorem At.mem_points (h : At entry items top pc m before i after) :
    ⟨pc, Item.depth entry 0 before, i⟩ ∈ Item.points entry 0 0 items :=
  Item.mem_points.mpr ⟨before, after, h.items, by rw [Nat.zero_add, h.offset], rfl⟩

/-- Where control can come to, there is an instruction. -/
theorem At.of_levels (hitems : items = before ++ after)
    (h : Item.Levels entry (Item.depth entry 0 before) true after)
    (hsp : m.reg .rsp = Memory.slot top (Item.depth entry 0 before)) :
    ∃ i after', At entry items top (Item.totalSize before) m before i after' := by
  cases after with
  | nil => cases h
  | cons item after =>
      cases item with
      | bind l => cases h.1
      | instr i => exact ⟨i, after, hitems, rfl, h.1, h.2, hsp⟩

theorem At.next (h : At entry items top pc m before i after)
    (hd : Item.depth entry 0 before < 2 ^ 31) (hx : i.exec m = some (m', .next)) :
    ∃ i' after', At entry items top (pc + i.size) m' (before ++ [.instr i]) i' after' := by
  have hdepth : Item.depth entry 0 (before ++ [.instr i]) =
      i.depthAfter (Item.depth entry 0 before) := Item.depth_append
  have hsp := h.fits.exec_rsp hd h.sp hx
  have hrest := h.rest
  rw [Instr.falls_of_exec hx] at hrest
  rw [← hdepth] at hrest hsp
  rw [← h.offset, ← Item.totalSize_append_instr]
  exact At.of_levels (by rw [h.items, List.append_assoc]; rfl) hrest hsp

theorem At.branch (h : At entry items top pc m before i after)
    (hlevels : Item.Levels entry 0 true items) {l : Label} {place : Nat}
    (hl : (Item.bindings 0 items).lookup l = some place)
    (hx : i.exec m = some (m', .branch l)) :
    ∃ before' i' after', At entry items top place m' before' i' after' := by
  obtain ⟨htarget, rfl⟩ := Instr.target?_of_exec hx
  obtain ⟨front, rest, hitems, hplace⟩ := Item.exists_of_lookup_bindings hl
  have hsplit : items = (front ++ [.bind l]) ++ rest := by
    rw [hitems, List.append_assoc]
    rfl
  have hdepth : Item.depth entry 0 (front ++ [.bind l]) = entry l := Item.depth_append
  have hrest : Item.Levels entry (Item.depth entry 0 (front ++ [.bind l])) true rest := by
    rw [hdepth]
    obtain ⟨live, hlive⟩ := Item.Levels.of_append (hitems ▸ hlevels)
    exact hlive.2
  have hsp := h.sp
  rw [(h.fits.target htarget).1, ← hdepth] at hsp
  obtain ⟨i', after', hat⟩ := At.of_levels hsplit hrest hsp
  refine ⟨front ++ [.bind l], i', after', ?_⟩
  rwa [Item.totalSize_append, Item.totalSize, Item.totalSize, Item.size, Nat.add_zero,
    ← Nat.zero_add (Item.totalSize front), hplace] at hat

/-- What the bytes at the offset do is what the instruction does. -/
theorem At.exec (h : At entry items top pc m before i after)
    (hout : Item.resolve? (Item.bindings 0 items) 0 items = some out) :
    ∃ j, i.retarget? (Item.target (Item.bindings 0 items) (pc + i.size)) = some j ∧
      fetch? (out.flatMap Instr.encode) pc = some (j, pc + i.size) ∧
      ∀ {m' flow'}, j.exec m = some (m', flow') → ∃ flow, i.exec m = some (m', flow) ∧
        flow.retarget? (Item.target (Item.bindings 0 items) (pc + i.size)) = some flow' := by
  have hout' : Item.resolve? (Item.bindings 0 items) 0 (before ++ .instr i :: after) =
      some out := by
    rw [← h.items]
    exact hout
  obtain ⟨j, hj, hf⟩ := fetch?_layOut hout'
  rw [h.offset] at hj hf
  refine ⟨j, hj, hf, fun {m' flow'} hx => ?_⟩
  cases hi : i.exec m with
  | none =>
      rw [Instr.exec_retarget?_eq_none hj hi] at hx
      cases hx
  | some result =>
      obtain ⟨m₁, flow⟩ := result
      obtain ⟨flow₁, hflow, hx₁⟩ := Instr.exec_retarget? hj hi
      rw [hx] at hx₁
      cases hx₁
      exact ⟨flow, rfl, hflow⟩

/-- A run of level code has the stack pointer at the depth that the code says. -/
theorem Passes.at (hp : Passes (out.flatMap Instr.encode) m pc m')
    (hout : Item.resolve? (Item.bindings 0 items) 0 items = some out)
    (hlevels : Item.Levels entry 0 true items)
    (hd : ∀ q ∈ Item.points entry 0 0 items, q.depth < 2 ^ 31) :
    ∃ before i after, At entry items (m.reg .rsp) pc m' before i after := by
  induction hp with
  | start => exact ⟨[], At.of_levels (List.nil_append items).symm hlevels (Memory.slot_zero _).symm⟩
  | next _ hf hx ih =>
      obtain ⟨before, i, after, hat⟩ := ih
      obtain ⟨j, hj, hf', hexec⟩ := hat.exec hout
      rw [hf] at hf'
      cases hf'
      obtain ⟨flow, hi, hflow⟩ := hexec hx
      cases flow with
      | next => exact ⟨_, hat.next (hd _ hat.mem_points) hi⟩
      | branch l =>
          obtain ⟨_, _, heq⟩ := Option.map_eq_some_iff.mp hflow
          cases heq
      | _ => cases hflow
  | branch _ hf hx hle ih =>
      obtain ⟨before, i, after, hat⟩ := ih
      obtain ⟨j, hj, hf', hexec⟩ := hat.exec hout
      rw [hf] at hf'
      cases hf'
      obtain ⟨flow, hi, hflow⟩ := hexec hx
      cases flow with
      | branch l =>
          obtain ⟨disp, hdisp, heq⟩ := Option.map_eq_some_iff.mp hflow
          cases heq
          obtain ⟨place, hplace, hdist⟩ := Option.bind_eq_some_iff.mp hdisp
          have hpc := Item.toInt_displacement? hdist
          rw [hpc, show ((_ : Nat) : Int) + _ = (place : Int) by omega, Int.toNat_natCast]
          exact hat.branch hlevels hplace hi
      | _ => cases hflow

/-- A run that comes to a point has the stack pointer at the depth of the point. -/
theorem Passes.sp {q : Point} (hp : Passes (out.flatMap Instr.encode) m q.offset m')
    (hout : Item.resolve? (Item.bindings 0 items) 0 items = some out)
    (hlevels : Item.Levels entry 0 true items)
    (hd : ∀ q ∈ Item.points entry 0 0 items, q.depth < 2 ^ 31)
    (hq : q ∈ Item.points entry 0 0 items) :
    m'.reg .rsp = Memory.slot (m.reg .rsp) q.depth := by
  obtain ⟨before, i, after, hat⟩ := hp.at hout hlevels hd
  obtain ⟨before', after', hsplit, hoffset, hdepth⟩ := Item.mem_points.mp hq
  have hsize : Item.totalSize before = Item.totalSize before' := by
    rw [hat.offset, hoffset, Nat.zero_add]
  obtain ⟨rfl, -⟩ := Item.eq_of_totalSize_eq (hat.items.symm.trans hsplit) hsize
  rw [hdepth]
  exact hat.sp

end

/-- Bytes are laid out items. -/
theorem Assembly.exists_of_finish {a : Assembly} {bytes : List UInt8}
    (h : a.finish = .ok bytes) : ∃ out,
      Item.resolve? (Item.bindings 0 a.items.toList) 0 a.items.toList = some out ∧
        bytes = out.flatMap Instr.encode := by
  rw [Assembly.finish, Assembly.layOut] at h
  split at h
  · split at h
    · next out hout =>
        cases h
        exact ⟨out, hout, rfl⟩
    · cases h
  · cases h

/-- The bytes do not depend on how many labels were made. -/
theorem Assembly.finish_congr {a : Assembly} {is : List Item} {n : Nat}
    (h : is = a.items.toList) : (⟨is.toArray, n⟩ : Assembly).finish = a.finish := by
  rw [Assembly.finish, Assembly.finish, Assembly.layOut, Assembly.layOut, h]

/-! ## Ends -/

theorem Instr.exits_of_exec {τ : Type} {i : Instr τ} {m m' : Machine} {flow : Flow τ}
    (hx : i.exec m = some (m', flow)) (hflow : flow = .ret ∨ ∃ target, flow = .leave target) :
    i.exits = true ∧ m' = m := by
  cases i with
  | jcc c l =>
      obtain ⟨f, _, heq⟩ := Option.map_eq_some_iff.mp hx
      rw [Prod.mk.injEq] at heq
      obtain ⟨rfl, rfl⟩ := heq
      split at hflow <;> obtain hr | ⟨_, hr⟩ := hflow <;> cases hr
  | jmpStub disp =>
      cases hx
      exact ⟨rfl, rfl⟩
  | ret =>
      cases hx
      exact ⟨rfl, rfl⟩
  | _ =>
      cases hx
      obtain hr | ⟨_, hr⟩ := hflow <;> cases hr

/-- A run that ends comes to the instruction that ends it. -/
theorem Passes.of_runFrom {bytes : List UInt8} {m m₁ m' : Machine} {limit pc : Nat}
    (h : Passes bytes m pc m₁)
    (hrun : runFrom (fetch? bytes) limit pc m₁ = .returned m' ∨
      ∃ target, runFrom (fetch? bytes) limit pc m₁ = .left target m') :
    ∃ pc' i next, Passes bytes m pc' m' ∧ fetch? bytes pc' = some (i, next) ∧ i.exits = true := by
  induction limit generalizing pc m₁ with
  | zero => obtain hr | ⟨_, hr⟩ := hrun <;> cases hr
  | succ limit ih =>
      rw [runFrom] at hrun
      cases hf : fetch? bytes pc with
      | none =>
          rw [hf] at hrun
          obtain hr | ⟨_, hr⟩ := hrun <;> cases hr
      | some at_ =>
          obtain ⟨i, next⟩ := at_
          cases hx : i.exec m₁ with
          | none =>
              simp only [hf, hx] at hrun
              obtain hr | ⟨_, hr⟩ := hrun <;> cases hr
          | some after =>
              obtain ⟨m₂, flow⟩ := after
              simp only [hf, hx] at hrun
              cases flow with
              | next => exact ih (.next h hf hx) hrun
              | branch disp =>
                  dsimp only at hrun
                  split at hrun
                  · obtain hr | ⟨_, hr⟩ := hrun <;> cases hr
                  · exact ih (.branch h hf hx (by omega)) hrun
              | ret =>
                  obtain ⟨hexits, rfl⟩ := Instr.exits_of_exec hx (.inl rfl)
                  obtain hr | ⟨_, hr⟩ := hrun <;> cases hr
                  exact ⟨pc, i, next, h, hf, hexits⟩
              | leave target =>
                  obtain ⟨hexits, rfl⟩ := Instr.exits_of_exec hx (.inr ⟨target, rfl⟩)
                  obtain hr | ⟨_, hr⟩ := hrun <;> cases hr
                  exact ⟨pc, i, next, h, hf, hexits⟩

theorem Instr.exits_retarget? {f : Label → Option Int32} {i : Instr Label} {j : Instr Int32}
    (h : i.retarget? f = some j) : j.exits = i.exits := by
  cases i with
  | jmp l =>
      obtain ⟨d, -, rfl⟩ := Option.map_eq_some_iff.mp h
      rfl
  | jcc c l =>
      obtain ⟨d, -, rfl⟩ := Option.map_eq_some_iff.mp h
      rfl
  | _ =>
      cases h
      rfl

/-- When a run of level code ends, the stack pointer is where it was. -/
theorem sp_of_runFrom {entry : Label → Nat} {items : List Item} {out : List (Instr Int32)}
    (hout : Item.resolve? (Item.bindings 0 items) 0 items = some out)
    (hlevels : Item.Levels entry 0 true items)
    (hd : ∀ q ∈ Item.points entry 0 0 items, q.depth < 2 ^ 31) {m m' : Machine} {limit : Nat}
    (hrun : runFrom (fetch? (out.flatMap Instr.encode)) limit 0 m = .returned m' ∨
      ∃ target, runFrom (fetch? (out.flatMap Instr.encode)) limit 0 m = .left target m') :
    m'.reg .rsp = m.reg .rsp := by
  obtain ⟨pc, j, next, hp, hf, hexits⟩ := Passes.start.of_runFrom hrun
  obtain ⟨before, i, after, hat⟩ := hp.at hout hlevels hd
  obtain ⟨j', hj, hf', -⟩ := hat.exec hout
  rw [hf] at hf'
  cases hf'
  rw [Instr.exits_retarget? hj] at hexits
  rw [hat.sp, hat.fits.depth_eq_zero hexits, Memory.slot_zero]

end InlineCache.X64
