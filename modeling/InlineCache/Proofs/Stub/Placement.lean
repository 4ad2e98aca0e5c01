import InlineCache.Proofs.Codegen.Configuration
import InlineCache.Proofs.Stub.Data
import InlineCache.Stub.Run

/-!
# Chains in memory

A call sees the heap together with the headers and the data of the chain. The stubs lie one behind
the other, so each is found where the header before it says (`hasStub_memory`), the last header leads
to the fallback, and nothing else of the heap has changed (`memory_of_not_own`). What stubs push lies
elsewhere.

Addresses wrap around. Stubs are apart from each other and from the stack as long as all of them
take less than 2⁴⁶ bytes and push less than 2 GiB.
-/

namespace InlineCache

namespace Memory

/-- Whether an address is one of the `n` from `a` on. -/
def within (a : UInt64) (n : Nat) (x : UInt64) : Bool :=
  decide ((x - a).toNat < n)

theorem toNat_toUInt64 {n : Nat} (h : n < 2 ^ 64) : n.toUInt64.toNat = n := by
  show (UInt64.ofNat n).toNat = n
  rw [UInt64.toNat_ofNat', Nat.mod_eq_of_lt h]

/-- How far an address lies behind a place at an offset from `a`. -/
theorem toNat_sub_add (a x : UInt64) {n : Nat} (h : n < 2 ^ 64) :
    (x - (a + n.toUInt64)).toNat = (2 ^ 64 - n + (x - a).toNat) % 2 ^ 64 := by
  have hsub : x - (a + n.toUInt64) = x - a - n.toUInt64 := by grind
  rw [hsub, UInt64.toNat_sub, toNat_toUInt64 h]

theorem toNat_add_sub (a : UInt64) {n : Nat} (h : n < 2 ^ 64) :
    (a + n.toUInt64 - a).toNat = n := by
  have hsub : a + n.toUInt64 - a = n.toUInt64 := by grind
  rw [hsub, toNat_toUInt64 h]

theorem toNat_add_sub_le (a : UInt64) (n : Nat) : (a + n.toUInt64 - a).toNat ≤ n := by
  have hsub : a + n.toUInt64 - a = n.toUInt64 := by grind
  rw [hsub]
  show (UInt64.ofNat n).toNat ≤ n
  rw [UInt64.toNat_ofNat']
  exact Nat.mod_le n _

theorem write64_of_not_within {m : Memory} {a w x : UInt64} (h : 8 ≤ (x - a).toNat) :
    m.write64 a w x = m x :=
  write64_of_le (UInt64.le_iff_toNat_le.mpr h)

theorem writeBytes_of_not_within {m : Memory} {a x : UInt64} {bs : Array UInt8}
    (h : bs.size ≤ (x - a).toNat) : m.writeBytes a bs x = m x := by
  rw [writeBytes, Array.getElem?_eq_none h]

theorem holds_writeBytes (m : Memory) (a : UInt64) {bs : List UInt8} (h : bs.length < 2 ^ 64) :
    (m.writeBytes a bs.toArray).Holds a bs := by
  intro k b hk
  have hlt := (List.getElem?_eq_some_iff.mp hk).1
  rw [writeBytes, toNat_add_sub a (by omega), List.getElem?_toArray, hk]

theorem Holds.congr {m m' : Memory} {a : UInt64} {bs : List UInt8} (h : m.Holds a bs)
    (hlen : bs.length < 2 ^ 64) (hsame : ∀ x, (x - a).toNat < bs.length → m' x = m x) :
    m'.Holds a bs := by
  intro k b hk
  have hlt := (List.getElem?_eq_some_iff.mp hk).1
  rw [hsame _ (by rw [toNat_add_sub a (by omega)]; exact hlt)]
  exact h k b hk

/-! ## One stub -/

/-- A header with these two words is at an address, and behind it the data. -/
structure HasStub (m : Memory) (a code next : UInt64) (data : List UInt8) : Prop where
  code : m.read64 (a + Layout.stubCode.toInt64.toUInt64) = code
  next : m.read64 (a + Layout.stubNext.toInt64.toUInt64) = next
  data : m.Holds (a + Layout.stubData.toUInt64) data

section
variable {m m' : Memory} {a code next : UInt64} {data : List UInt8}

theorem HasStub.congr (h : m.HasStub a code next data) (hlen : data.length < 2 ^ 63)
    (hsame : ∀ x, (x - a).toNat < Layout.stubData + data.length → m' x = m x) :
    m'.HasStub a code next data := by
  have hword : ∀ n < 9, m'.read64 (a + n.toUInt64) = m.read64 (a + n.toUInt64) := by
    intro n hn
    refine read64_congr fun k hk => hsame _ ?_
    rw [UInt64.add_assoc, ← toUInt64_add, toNat_add_sub a (by omega), Layout.stubData]
    omega
  refine ⟨(hword 0 (by omega)).trans h.code, (hword 8 (by omega)).trans h.next,
    h.data.congr (by omega) fun x hx => hsame x ?_⟩
  rw [toNat_sub_add a x (by decide)] at hx
  rw [Layout.stubData] at hx ⊢
  have := (x - a).toNat_lt
  omega

end
end Memory

namespace Chain

open Memory

section
variable {m : Memory} {a code next : UInt64} {data : List UInt8}

theorem writeStub_of_not_within {x : UInt64} (h : Layout.stubData + data.length ≤ (x - a).toNat) :
    writeStub m a code next data x = m x := by
  have hlt := (x - a).toNat_lt
  rw [Layout.stubData] at h
  have hback : ∀ n ≤ 24, (x - (a + n.toUInt64)).toNat = (x - a).toNat - n := by
    intro n hn
    rw [toNat_sub_add a x (by omega)]
    omega
  have hdata := hback 24 (by omega)
  have hnext := hback 8 (by omega)
  have hcode := hback 0 (by omega)
  rw [writeStub, writeBytes_of_not_within, write64_of_not_within, write64_of_not_within]
  · show 8 ≤ (x - (a + (0 : Nat).toUInt64)).toNat
    omega
  · show 8 ≤ (x - (a + (8 : Nat).toUInt64)).toNat
    omega
  · show data.toArray.size ≤ (x - (a + (24 : Nat).toUInt64)).toNat
    rw [List.size_toArray]
    omega

theorem hasStub_writeStub (hlen : data.length < 2 ^ 63) :
    (writeStub m a code next data).HasStub a code next data := by
  -- From the bytes of a word, what was written behind it is almost a whole turn away.
  have hahead : ∀ (n k j : Nat) {size : Nat}, n + k < j → j ≤ 24 → size < 2 ^ 63 →
      size ≤ (a + n.toUInt64 + k.toUInt64 - (a + j.toUInt64)).toNat := by
    intro n k j size hlt hj hsize
    rw [UInt64.add_assoc, ← toUInt64_add, toNat_sub_add a _ (by omega), toNat_add_sub a (by omega)]
    omega
  have hdata : data.toArray.size < 2 ^ 63 := by rwa [List.size_toArray]
  refine ⟨?_, ?_, holds_writeBytes _ _ (by omega)⟩
  · refine (read64_congr fun k hk => ?_).trans (read64_write64 m _ code)
    rw [writeStub, writeBytes_of_not_within, write64_of_not_within]
    · exact hahead 0 k 8 (by omega) (by omega) (by omega)
    · exact hahead 0 k 24 (by omega) (by omega) hdata
  · refine (read64_congr fun k hk => ?_).trans
      (read64_write64 (m.write64 (a + Layout.stubCode.toInt64.toUInt64) code) _ next)
    rw [writeStub, writeBytes_of_not_within]
    exact hahead 8 k 24 (by omega) (by omega) hdata

end

/-! ## All stubs -/

theorem totalSize_append (ss ts : List Stub) :
    totalSize (ss ++ ts) = totalSize ss + totalSize ts := by
  induction ss with
  | nil => exact (Nat.zero_add _).symm
  | cons s ss ih => rw [List.cons_append, totalSize, totalSize, ih, Nat.add_assoc]

section
variable {c : Chain} {before rest : List Stub} (hsplit : c.stubs.toList = before ++ rest)
include hsplit

theorem headerAddress_length :
    c.headerAddress before.length = stubBase + (totalSize before).toUInt64 := by
  rw [headerAddress, hsplit, List.take_left]

variable (hfit : totalSize c.stubs.toList < 2 ^ 46)
include hfit

/-- Stubs change nothing before and behind them. -/
theorem writeStubs_of_not_within {m : Memory} {x : UInt64}
    (hx : (x - stubBase).toNat < totalSize before ∨
      totalSize c.stubs.toList ≤ (x - stubBase).toNat) :
    c.writeStubs before.length rest m x = m x := by
  induction rest generalizing before m with
  | nil => rfl
  | cons s rest ih =>
      have hsize : totalSize c.stubs.toList = totalSize before + (stubSize s + totalSize rest) := by
        rw [hsplit, totalSize_append]
        rfl
      have hnext := @ih (before ++ [s]) (by simp [hsplit]) (writeStub m (c.headerAddress before.length)
        (codeAddress before.length) (c.linkAddress s.next) s.data) (by
          rw [totalSize_append]
          exact hx.imp_left fun h => by omega)
      rw [List.length_append] at hnext
      refine hnext.trans (writeStub_of_not_within ?_)
      change stubSize s ≤ _
      have hlt := (x - stubBase).toNat_lt
      rw [headerAddress_length hsplit, toNat_sub_add _ _ (by omega)]
      omega

theorem hasStub_writeStubs {m : Memory} {i : Nat} {s : Stub} (hs : rest[i]? = some s) :
    (c.writeStubs before.length rest m).HasStub (c.headerAddress (before.length + i))
      (codeAddress (before.length + i)) (c.linkAddress s.next) s.data := by
  induction rest generalizing before m i with
  | nil => cases hs
  | cons t rest ih =>
      have hsize : totalSize c.stubs.toList = totalSize before + (stubSize t + totalSize rest) := by
        rw [hsplit, totalSize_append]
        rfl
      have hsplit' : c.stubs.toList = (before ++ [t]) ++ rest := by simp [hsplit]
      have hlen : (before ++ [t]).length = before.length + 1 := by simp
      cases i with
      | zero =>
          cases hs
          have hdata : stubSize s = Layout.stubData + s.data.length := rfl
          refine (@hasStub_writeStub m _ _ _ _ (by omega)).congr (by omega) fun x hx => ?_
          rw [Nat.add_zero, headerAddress_length hsplit, toNat_sub_add _ _ (by omega)] at hx
          have hlt := (x - stubBase).toNat_lt
          have hout := @writeStubs_of_not_within c (before ++ [s]) rest hsplit' hfit
            (writeStub m (c.headerAddress before.length) (codeAddress before.length)
              (c.linkAddress s.next) s.data) x
          rw [hlen] at hout
          refine hout (.inl ?_)
          rw [totalSize_append]
          show _ < _ + (stubSize s + 0)
          omega
      | succ i =>
          have hnext := @ih (before ++ [t]) hsplit' (writeStub m (c.headerAddress before.length)
            (codeAddress before.length) (c.linkAddress t.next) t.data) i hs
          rw [hlen, Nat.add_assoc, Nat.add_comm 1] at hnext
          exact hnext

end

/-! ## The memory of a call -/

/-- The most stack that one of some stubs uses. -/
def maxRoom : List Stub → Nat
  | [] => 0
  | s :: ss => max s.compiled.code.room (maxRoom ss)

theorem room_le_maxRoom {s : Stub} {ss : List Stub} (hs : s ∈ ss) :
    s.compiled.code.room ≤ maxRoom ss := by
  induction ss with
  | nil => cases hs
  | cons t ss ih =>
      obtain rfl | hs := List.mem_cons.mp hs
      · exact Nat.le_max_left _ _
      · exact Nat.le_trans (ih hs) (Nat.le_max_right _ _)

/-- The stack that is kept free for the stubs of a chain. -/
def stackRoom (c : Chain) : Nat :=
  maxRoom c.stubs.toList

/-- The bytes of the headers and of the data of a chain. -/
def holds (c : Chain) (x : UInt64) : Bool :=
  within fallbackAddress Layout.stubData x || within stubBase (totalSize c.stubs.toList) x

/-- The bytes that a call uses for itself. -/
def own (c : Chain) (x : UInt64) : Bool :=
  c.holds x || below stackTop c.stackRoom x

section
variable {c : Chain} (hfit : totalSize c.stubs.toList < 2 ^ 46) {heap : Memory} {x : UInt64}
include hfit

theorem not_below_of_holds (hroom : c.stackRoom < 2 ^ 31) (hx : c.holds x = true) :
    below stackTop c.stackRoom x = false := by
  have hlt := x.toNat_lt
  have hfallback : fallbackAddress.toNat = 0x30000000 := rfl
  have hbase : stubBase.toNat = 0x40000000 := rfl
  have htop : (stackTop - 1).toNat = 0x7FFEFFFFFFFF := rfl
  simp only [holds, within, Bool.or_eq_true, decide_eq_true_eq, UInt64.toNat_sub, hfallback, hbase,
    Layout.stubData] at hx
  rw [below, decide_eq_false_iff_not, Nat.not_lt, UInt64.toNat_sub, htop]
  omega

/-- Only the chain is new in the memory of a call. -/
theorem memory_of_not_own (hx : c.own x = false) : c.memory heap x = heap x := by
  simp only [own, holds, within, Bool.or_eq_false_iff, decide_eq_false_iff_not, Nat.not_lt] at hx
  obtain ⟨⟨hfallback, hstubs⟩, -⟩ := hx
  exact (@writeStubs_of_not_within c [] _ rfl hfit _ x (.inr hstubs)).trans
    (writeStub_of_not_within hfallback)

theorem hasStub_memory {i : Nat} {s : Stub} (hs : c.stubs[i]? = some s) :
    (c.memory heap).HasStub (c.headerAddress i) (codeAddress i) (c.linkAddress s.next) s.data := by
  have h := @hasStub_writeStubs c [] c.stubs.toList rfl hfit
    (writeStub heap fallbackAddress fallbackCode 0 []) i s (by rw [Array.getElem?_toList]; exact hs)
  rw [List.length_nil, Nat.zero_add] at h
  exact h

omit hfit in
theorem holds_of_fallback (hx : (x - fallbackAddress).toNat < Layout.stubData) :
    c.holds x = true := by
  simp only [holds, within, hx, decide_true, Bool.true_or]

theorem holds_of_stub {i : Nat} {s : Stub} (hs : c.stubs[i]? = some s)
    (hx : (x - c.headerAddress i).toNat < stubSize s) : c.holds x = true := by
  have hs' : c.stubs.toList[i]? = some s := by rw [Array.getElem?_toList]; exact hs
  obtain ⟨hlt, hget⟩ := List.getElem?_eq_some_iff.mp hs'
  have hsize : totalSize c.stubs.toList = totalSize (c.stubs.toList.take i) +
      (stubSize s + totalSize (c.stubs.toList.drop (i + 1))) := by
    have hsplit := congrArg totalSize (List.take_append_drop i c.stubs.toList)
    rw [totalSize_append, List.drop_eq_getElem_cons hlt, hget] at hsplit
    exact hsplit.symm
  have hback := (x - stubBase).toNat_lt
  rw [headerAddress, toNat_sub_add _ _ (by omega)] at hx
  simp only [holds, within, Bool.or_eq_true, decide_eq_true_eq]
  omega

end
end Chain
end InlineCache
