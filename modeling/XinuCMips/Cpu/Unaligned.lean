import XinuCMips.Cpu.Transparent
import XinuCMips.Dcache.Transparent

/-!
# Unaligned and narrow accesses

LWL and LWR merge what they load into a register that may still be on its way to the
register bank, and stores send such a register out. Here its value is that which the
instructions that have left MEM leave in it, `readReg`.

* `DatumRight.step`  — the register that goes with an access is the right one, and one cycle
  keeps it;
* `byteOf_lwl`, `byteOf_lwr` — which bytes the two unaligned loads bring;
* `accesses_right_without_slip` — **in every run in which no access is sent to MEM right
  behind a write of its register that is cancelled, unaligned words, bytes and halfwords are
  loaded as they are in memory.**

A conditional move that is not made is such a write: its ALU result, which is zero, is
forwarded to the access, and WB has nothing to correct it with.
-/

namespace Xinu.Cpu

open Dcache (Byte byteOf eq_of_byteOf)

variable {chip : Chip} {i : Inputs} {c : Core} {r : Reg} {v a x : Word}

-- ---------------------------------------------------------------------------
-- The register as the instructions behind MEM see it
-- ---------------------------------------------------------------------------

theorem readReg_zero : c.readReg 0 = 0 := by
  unfold Core.readReg
  rw [bne_self_eq_false, Bool.and_false, if_neg Bool.false_ne_true, if_neg Bool.false_ne_true]

theorem readReg_patched (hr : r ≠ 0) : c.readReg r = c.patched r (c.regFile r) := by
  unfold Core.readReg Core.patched Core.wbWrites
  rw [bne_iff_ne.mpr hr, Bool.and_true, if_pos rfl]
  by_cases hw : c.wb.aC = r
  · subst hw
    rw [bne_iff_ne.mpr hr, Bool.and_true, Bool.and_comm]
  · rw [beq_eq_false_iff_ne.mpr hw, Bool.and_false, Bool.false_and]

/-- The register bank of the next cycle holds what WB has corrected. -/
theorem regFile_step (hr : r ≠ 0) : (c.step chip i).regFile r = c.readReg r := by
  rw [readReg_patched hr, ← Follows.regFileWritten_eq]
  rfl

/-- The register in the next cycle, as the next WB corrects it. -/
theorem readReg_step (hr : r ≠ 0) :
    (c.step chip i).readReg r = (c.step chip i).patched r (c.readReg r) := by
  rw [readReg_patched hr, regFile_step hr]

theorem readReg_held (hm : c.memStall i = true) : (c.step chip i).readReg r = c.readReg r := by
  obtain ⟨-, -, -, -, hwb⟩ := @Follows.step_held chip i c hm
  by_cases hr : r = 0
  · rw [hr, readReg_zero, readReg_zero]
  · rw [readReg_step hr, Follows.patched_of_wb hwb, readReg_patched hr, Follows.patched_twice]

/-- MEM lets an instruction go that writes the register. -/
def Core.landsIn (i : Inputs) (c : Core) (r : Reg) : Bool :=
  !c.memStall i && !c.mmWregCond i && c.mm.aC != 0 && c.mm.aC == r

theorem wbWrites_moved (hm : c.memStall i = false) :
    (c.step chip i).wbWrites r = c.landsIn i r := by
  rw [Core.wbWrites, Follows.wb_step hm, Core.landsIn, hm]
  rfl

/-- **Only an instruction that leaves MEM changes a register.** -/
theorem readReg_kept (h : c.landsIn i r = false) : (c.step chip i).readReg r = c.readReg r := by
  by_cases hr : r = 0
  · rw [hr, readReg_zero, readReg_zero]
  cases hm : c.memStall i with
  | true => exact readReg_held hm
  | false =>
    rw [readReg_step hr, Core.patched, wbWrites_moved hm, h]
    rfl

theorem readReg_lands (h : c.landsIn i r = true) :
    (c.step chip i).readReg r = (c.step chip i).wbC := by
  have hm : c.memStall i = false := by
    cases hm : c.memStall i with
    | true =>
      rw [Core.landsIn, hm] at h
      cases h
    | false => rfl
  have hr : r ≠ 0 := by
    rintro rfl
    rw [Core.landsIn] at h
    simp only [Bool.and_eq_true, bne_iff_ne, beq_iff_eq] at h
    exact h.1.2 h.2
  rw [readReg_step hr, Core.patched, wbWrites_moved hm, h]
  rfl

theorem patched_zero : c.patched 0 v = v := by
  unfold Core.patched Core.wbWrites
  by_cases hw : c.wb.aC = 0
  · rw [hw, bne_self_eq_false, Bool.and_false, Bool.false_and]
    rfl
  · rw [beq_eq_false_iff_ne.mpr hw, Bool.and_false]
    rfl

/-- A register that was read in RF a cycle ago. -/
theorem patched_readReg :
    (c.step chip i).patched r (c.readReg r) = (c.step chip i).readReg r := by
  by_cases hr : r = 0
  · rw [hr, patched_zero, readReg_zero, readReg_zero]
  · rw [readReg_step hr]

-- ---------------------------------------------------------------------------
-- The register that goes with an access
-- ---------------------------------------------------------------------------

/-- EX sends an access to MEM that needs its register, right behind an instruction that
names the register and does not write it. -/
def Core.datumSlips (i : Inputs) (c : Core) : Bool :=
  !c.memStall i && !c.exAValCond i && (!c.exWrmemCond i || c.ex.memT.getLsbD 3) &&
    c.mmWrites c.ex.aRt && c.mmWregCond i

/-- The latched registers, as WB corrects them, are those of the instructions that have
left MEM. -/
structure DatumRight (c : Core) : Prop where
  ex : c.ex.aVal = false → c.patched c.ex.aRt c.ex.regB = c.readReg c.ex.aRt
  mm : c.mm.aVal = false → c.mm.wrmem = false ∨ c.mm.memT.getLsbD 3 = true →
    c.patched c.mm.aRt c.mm.regB = c.readReg c.mm.aRt

/-- What EX sends along with an access. -/
theorem aluFwdB_right (h : DatumRight c) (hm : c.memStall i = false)
    (hlive : c.ex.aVal = false) (hslip : c.mmWrites c.ex.aRt = true → c.mmWregCond i = false) :
    (c.step chip i).patched c.ex.aRt (c.aluFwdB i) = (c.step chip i).readReg c.ex.aRt := by
  cases hw : c.mmWrites c.ex.aRt with
  | true =>
    -- whatever was forwarded, WB has the right value
    have hlands : c.landsIn i c.ex.aRt = true := by
      have hnames := hw
      rw [Core.mmWrites, Bool.and_assoc, Bool.and_eq_true] at hnames
      rw [Core.landsIn, hm, hslip hw, Bool.and_assoc]
      exact hnames.2
    rw [readReg_lands hlands, Core.patched, wbWrites_moved hm, hlands]
    rfl
  | false =>
    have hfwd : c.aluFwdB i = c.readReg c.ex.aRt := by
      rw [Core.aluFwdB, Core.fwdALU, hw, if_neg Bool.false_ne_true]
      exact h.ex hlive
    rw [hfwd]
    exact patched_readReg

/-- **One cycle** keeps the registers right, unless it slips. -/
theorem DatumRight.step (h : DatumRight c) (hslip : c.datumSlips i = false) :
    DatumRight (c.step chip i) := by
  cases hm : c.memStall i with
  | true =>
    obtain ⟨-, -, hex, hmm, hwb⟩ := @Follows.step_held chip i c hm
    refine ⟨?_, ?_⟩
    · rw [hex, readReg_held hm, Follows.patched_of_wb hwb]
      exact h.ex
    · rw [hmm, readReg_held hm, Follows.patched_of_wb hwb]
      exact h.mm
  | false =>
    have hex : (c.step chip i).ex = c.toEX i := by
      show (if c.memStall i then c.ex else c.toEX i) = _
      rw [hm]
      rfl
    have hmm : (c.step chip i).mm = c.toMM chip i := by
      show (if c.memStall i then c.mm else c.toMM chip i) = _
      rw [hm]
      rfl
    refine ⟨?_, ?_⟩
    · rw [hex]
      exact fun _ => patched_readReg
    · rw [hmm]
      intro hval hneeds
      have hval : c.exAValCond i = false := hval
      have hlive : c.ex.aVal = false := by
        rw [Core.exAValCond] at hval
        simp only [Bool.or_eq_false_iff] at hval
        exact hval.1.1.1.1
      refine aluFwdB_right h hm hlive fun hw => ?_
      have hneeds : (!c.exWrmemCond i || c.ex.memT.getLsbD 3) = true := by
        rcases hneeds with hwr | h3
        · have hwr : c.exWrmemCond i = false := hwr
          rw [hwr]
          rfl
        · have h3 : c.ex.memT.getLsbD 3 = true := h3
          rw [h3, Bool.or_true]
      rw [Core.datumSlips, hm, hval, hneeds, hw] at hslip
      exact hslip

theorem Core.Fresh.datumRight (h : c.Fresh) : DatumRight c := by
  refine ⟨fun hval => ?_, fun hval => ?_⟩
  · rw [h.ex.aVal] at hval
    cases hval
  · rw [h.mm.aVal] at hval
    cases hval

-- ---------------------------------------------------------------------------
-- What a load names
-- ---------------------------------------------------------------------------

-- the memory types of the instructions
def typeLWL : BitVec 4 := 0b1011
def typeLWR : BitVec 4 := 0b1111
def typeB (signed : Bool) : BitVec 4 := if signed then 0b0101 else 0b0001
def typeH (signed : Bool) : BitVec 4 := if signed then 0b0110 else 0b0010

/-- Which opcodes have them. -/
theorem memType_table : ∀ op : BitVec 6,
    (memType (ctrlTable op).i = typeLWL ↔ (ctrlTable op).i = .LWL) ∧
      (memType (ctrlTable op).i = typeLWR ↔ (ctrlTable op).i = .LWR) ∧
      (memType (ctrlTable op).i = typeB true ↔ (ctrlTable op).i = .LB) ∧
      (memType (ctrlTable op).i = typeH true ↔ (ctrlTable op).i = .LH) ∧
      (memType (ctrlTable op).i = typeB false ↔ (ctrlTable op).i = .LBU ∨ (ctrlTable op).i = .SB) ∧
      (memType (ctrlTable op).i = typeH false ↔
        (ctrlTable op).i = .LHU ∨ (ctrlTable op).i = .SH) := by
  decide +kernel

/-- What a load of the tables does with its register. -/
theorem load_row : ∀ op : BitVec 6, (ctrlTable op).aVal = false → (ctrlTable op).wmem = true →
    (ctrlTable op).cSel = .rt ∧ (ctrlTable op).muxC = .mem ∧
      op ≠ 0 ∧ op ≠ 1 ∧ op ≠ 16 ∧ op ≠ 28 ∧ op ≠ 31 := by
  decide

theorem decode_aC (op : BitVec 6) (w : Word) : (decode op w).aC =
    match (decodeFunct op w).cSel with
    | .rd => fieldRd w
    | .rt => fieldRt w
    | .r31 => 31 :=
  rfl

theorem decode_load {op : BitVec 6} (w : Word) (hval : (decode op w).ctrl.aVal = false)
    (hread : (decode op w).ctrl.wmem = true) :
    (decode op w).aC = (decode op w).aRt ∧ (decode op w).sig.muxC = .mem := by
  obtain ⟨hsel, hmux, h0, h1, h16, h28, h31⟩ := load_row op hval hread
  have hsig := decodeFunct_plain w h0 h1 h16 h28 h31
  have hc : (decodeFunct op w).cSel = .rt := by rw [hsig]; exact hsel
  have hm : (decodeFunct op w).muxC = .mem := by rw [hsig]; exact hmux
  refine ⟨?_, hm⟩
  rw [decode_aC, hc]
  rfl

/-- A load on the data bus writes its rt, and from memory. -/
structure LoadsNamed (c : Core) : Prop where
  ex : c.ex.aVal = false → c.ex.wrmem = true → c.ex.aC = c.ex.aRt ∧ c.ex.muxC = .mem
  mm : c.mm.aVal = false → c.mm.wrmem = true → c.mm.aC = c.mm.aRt ∧ c.mm.muxC = .mem

theorem LoadsNamed.step (h : LoadsNamed c) : LoadsNamed (c.step chip i) := by
  cases hm : c.memStall i with
  | true =>
    obtain ⟨-, -, hex, hmm, -⟩ := @Follows.step_held chip i c hm
    exact ⟨by rw [hex]; exact h.ex, by rw [hmm]; exact h.mm⟩
  | false =>
    have hex : (c.step chip i).ex = c.toEX i := by
      show (if c.memStall i then c.ex else c.toEX i) = _
      rw [hm]
      rfl
    have hmm : (c.step chip i).mm = c.toMM chip i := by
      show (if c.memStall i then c.mm else c.toMM chip i) = _
      rw [hm]
      rfl
    refine ⟨?_, ?_⟩
    · rw [hex]
      intro hval hread
      have hval : (c.pipeStall i || (c.dec i).ctrl.aVal) = false := hval
      have hread : (c.pipeStall i || (c.dec i).ctrl.wmem) = true := hread
      rw [Bool.or_eq_false_iff] at hval
      rw [hval.1, Bool.false_or] at hread
      exact decode_load _ hval.2 hread
    · rw [hmm]
      intro hval hread
      have hval : c.exAValCond i = false := hval
      have hread : c.exWrmemCond i = true := hread
      unfold Core.exAValCond at hval
      unfold Core.exWrmemCond at hread
      simp only [Bool.or_eq_false_iff] at hval
      obtain ⟨⟨⟨⟨hlive, herr⟩, hsc⟩, hslot⟩, hnull⟩ := hval
      rw [herr, hsc, hslot, hnull] at hread
      simp only [Bool.or_false] at hread
      exact h.ex hlive hread

theorem Core.Fresh.loadsNamed (h : c.Fresh) : LoadsNamed c := by
  refine ⟨fun hval => ?_, fun hval => ?_⟩
  · rw [h.ex.aVal] at hval
    cases hval
  · rw [h.mm.aVal] at hval
    cases hval

-- ---------------------------------------------------------------------------
-- Bytes
-- ---------------------------------------------------------------------------

/-- The word address, and the place in the word, of a byte. -/
def wordOf (x : Word) : BitVec 30 := x.extractLsb' 2 30

def laneOf (x : Word) : Nat := (x.extractLsb' 0 2).toNat

/-- The byte of the data memory at an address. -/
def byteAt (mem : BitVec 30 → Word) (x : Word) : Byte := byteOf (laneOf x) (mem (wordOf x))

/-- The halfword of the data memory at an aligned address. -/
def halfAt (mem : BitVec 30 → Word) (x : Word) : BitVec 16 :=
  if x.getLsbD 1 then (mem (wordOf x)).extractLsb' 16 16 else (mem (wordOf x)).extractLsb' 0 16

theorem laneOf_eq : laneOf x = x.toNat % 4 := by
  unfold laneOf
  rw [BitVec.extractLsb'_toNat, Nat.shiftRight_zero]

theorem wordOf_toNat : (wordOf x).toNat = x.toNat / 4 := by
  have hlt := x.isLt
  unfold wordOf
  rw [BitVec.extractLsb'_toNat, Nat.shiftRight_eq_div_pow]
  omega

theorem laneOf_add (j : Nat) : laneOf (a + BitVec.ofNat 32 j) = (laneOf a + j) % 4 := by
  rw [laneOf_eq, laneOf_eq, BitVec.toNat_add, BitVec.toNat_ofNat]
  omega

/-- Two bytes near an address are in one word. -/
theorem wordOf_add_eq {j k : Nat} (hj : j < 4) (hk : k < 4) :
    wordOf (a + BitVec.ofNat 32 j) = wordOf (a + BitVec.ofNat 32 k) ↔
      (laneOf a + j < 4 ↔ laneOf a + k < 4) := by
  have hlt := a.isLt
  have hmod : ∀ n < 4, (a + BitVec.ofNat 32 n).toNat = (a.toNat + n) % 2 ^ 32 := by
    intro n hn
    rw [BitVec.toNat_add, BitVec.toNat_ofNat]
    omega
  rw [← BitVec.toNat_inj, wordOf_toNat, wordOf_toNat, hmod j hj, hmod k hk, laneOf_eq]
  omega

/-- **LWL** brings the bytes from its address down to the lowest of the word. -/
theorem byteOf_lwl {j : Nat} (hj : j < 4) (o : BitVec 2) (mem reg : Word) :
    byteOf j (mergeLOAD 0b10 o mem reg) =
      if 3 ≤ j + o.toNat then byteOf (j + o.toNat - 3) mem else byteOf j reg := by
  refine BitVec.eq_of_getLsbD_eq fun k hk => ?_
  obtain rfl | rfl | rfl | rfl : o = 0 ∨ o = 1 ∨ o = 2 ∨ o = 3 := by
    revert o
    decide
  all_goals
    obtain rfl | rfl | rfl | rfl : j = 0 ∨ j = 1 ∨ j = 2 ∨ j = 3 := by omega
  all_goals simp [mergeLOAD, byteOf, hk]
  all_goals grind

/-- **LWR** brings the bytes from its address up to the highest of the word. -/
theorem byteOf_lwr {j : Nat} (hj : j < 4) (o : BitVec 2) (mem reg : Word) :
    byteOf j (mergeLOAD 0b11 o mem reg) =
      if j + o.toNat ≤ 3 then byteOf (j + o.toNat) mem else byteOf j reg := by
  refine BitVec.eq_of_getLsbD_eq fun k hk => ?_
  obtain rfl | rfl | rfl | rfl : o = 0 ∨ o = 1 ∨ o = 2 ∨ o = 3 := by
    revert o
    decide
  all_goals
    obtain rfl | rfl | rfl | rfl : j = 0 ∨ j = 1 ∨ j = 2 ∨ j = 3 := by omega
  all_goals simp [mergeLOAD, byteOf, hk]
  all_goals grind

section

variable {mem : BitVec 30 → Word} {reg : Word} {j : Nat}

/-- **LWL at `a + 3`** brings those of the bytes `a` to `a + 3` that are in its word. -/
theorem merged_lwl (hj : j < 4) :
    byteOf j (mergeLOAD 0b10 ((a + 3).extractLsb' 0 2) (mem (wordOf (a + 3))) reg) =
      if wordOf (a + BitVec.ofNat 32 j) = wordOf (a + 3) then byteAt mem (a + BitVec.ofNat 32 j)
      else byteOf j reg := by
  have hlane : laneOf (a + 3) = (laneOf a + 3) % 4 := laneOf_add 3
  have hlt : laneOf a < 4 := (a.extractLsb' 0 2).isLt
  have hiff : (3 ≤ j + laneOf (a + 3)) ↔ wordOf (a + BitVec.ofNat 32 j) = wordOf (a + 3) := by
    rw [show (a + 3 : Word) = a + BitVec.ofNat 32 3 from rfl, wordOf_add_eq hj (by decide)]
    rw [show (a + BitVec.ofNat 32 3 : Word) = a + 3 from rfl, hlane]
    omega
  rw [byteOf_lwl hj]
  show (if 3 ≤ j + laneOf (a + 3) then byteOf (j + laneOf (a + 3) - 3) _ else _) = _
  by_cases h : wordOf (a + BitVec.ofNat 32 j) = wordOf (a + 3)
  · have hplace : j + laneOf (a + 3) - 3 = laneOf (a + BitVec.ofNat 32 j) := by
      have hle := hiff.mpr h
      rw [laneOf_add]
      omega
    rw [if_pos (hiff.mpr h), if_pos h, byteAt, h, hplace]
  · rw [if_neg (fun hle => h (hiff.mp hle)), if_neg h]

/-- **LWR at `a`** brings those that are in the word of `a`. -/
theorem merged_lwr (hj : j < 4) :
    byteOf j (mergeLOAD 0b11 (a.extractLsb' 0 2) (mem (wordOf a)) reg) =
      if wordOf (a + BitVec.ofNat 32 j) = wordOf a then byteAt mem (a + BitVec.ofNat 32 j)
      else byteOf j reg := by
  have hlt : laneOf a < 4 := (a.extractLsb' 0 2).isLt
  have hzero : a + BitVec.ofNat 32 0 = a := BitVec.add_zero a
  have hiff : j + laneOf a ≤ 3 ↔ wordOf (a + BitVec.ofNat 32 j) = wordOf a := by
    have hwords := @wordOf_add_eq a j 0 hj (by decide)
    rw [hzero] at hwords
    rw [hwords]
    omega
  rw [byteOf_lwr hj]
  show (if j + laneOf a ≤ 3 then byteOf (j + laneOf a) _ else _) = _
  by_cases h : wordOf (a + BitVec.ofNat 32 j) = wordOf a
  · have hplace : j + laneOf a = laneOf (a + BitVec.ofNat 32 j) := by
      have hle := hiff.mpr h
      rw [laneOf_add]
      omega
    rw [if_pos (hiff.mpr h), if_pos h, byteAt, h, ← hplace]
  · rw [if_neg (fun hle => h (hiff.mp hle)), if_neg h]

/-- Each of the four bytes is brought by one of the two. -/
theorem in_one_of_two (hj : j < 4) :
    wordOf (a + BitVec.ofNat 32 j) = wordOf (a + 3) ∨
      wordOf (a + BitVec.ofNat 32 j) = wordOf a := by
  have hlt : laneOf a < 4 := (a.extractLsb' 0 2).isLt
  have hhigh := @wordOf_add_eq a j 3 hj (by decide)
  have hlow := @wordOf_add_eq a j 0 hj (by decide)
  rw [show a + BitVec.ofNat 32 0 = a from BitVec.add_zero a] at hlow
  rw [show (a + 3 : Word) = a + BitVec.ofNat 32 3 from rfl, hhigh, hlow]
  omega

end

-- ---------------------------------------------------------------------------
-- Bytes and halfwords
-- ---------------------------------------------------------------------------

/-- A datum extended to a word. -/
def extend {n : Nat} (signed : Bool) (b : BitVec n) : Word :=
  if signed then b.signExtend 32 else b.setWidth 32

theorem lane_cases : laneOf x = 0 ∨ laneOf x = 1 ∨ laneOf x = 2 ∨ laneOf x = 3 := by
  have hlt : laneOf x < 4 := (x.extractLsb' 0 2).isLt
  omega

/-- The lane of LB, LBU and SB. -/
theorem byteSel_byte_eq : byteSel (typeB false) x =
    match laneOf x with
    | 0b00 => 0b0001#4
    | 0b01 => 0b0010#4
    | 0b10 => 0b0100#4
    | _ => 0b1000#4 :=
  rfl

theorem byteSel_byte_lane : (byteSel (typeB false) x).getLsbD (laneOf x) = true := by
  rw [byteSel_byte_eq]
  rcases lane_cases (x := x) with h | h | h | h <;> rw [h] <;> rfl

theorem extend_byte (signed : Bool) (b : BitVec 8) :
    (if signed && b.getLsbD 7 then 0xFFFFFF#24 ++ b else 0#24 ++ b) = extend signed b := by
  revert signed b
  decide +kernel

theorem extend_half (signed : Bool) (b : BitVec 16) :
    (if signed && b.getLsbD 15 then 0xFFFF#16 ++ b else 0#16 ++ b) = extend signed b := by
  unfold extend
  cases signed with
  | false => exact (BitVec.setWidth_eq_append (by decide)).symm
  | true =>
    rw [Bool.true_and, if_pos rfl, BitVec.signExtend_eq_append_of_le (by decide),
      BitVec.msb_eq_getLsbD_last]
    cases b.getLsbD 15 <;> rfl

theorem byteOf_lane (raw : Word) : byteOf (laneOf x) raw =
    match laneOf x with
    | 0b00 => raw.extractLsb' 0 8
    | 0b01 => raw.extractLsb' 8 8
    | 0b10 => raw.extractLsb' 16 8
    | _ => raw.extractLsb' 24 8 := by
  rcases lane_cases (x := x) with h | h | h | h <;> rw [h] <;> rfl

theorem bytesRead_byte (undef raw : Word) (signed : Bool) :
    bytesRead undef (typeB signed) x raw = extend signed (byteOf (laneOf x) raw) := by
  rw [← extend_byte, byteOf_lane]
  cases signed <;> rfl

theorem bytesRead_half (undef raw : Word) (signed : Bool) :
    bytesRead undef (typeH signed) x raw =
      extend signed (if x.getLsbD 1 then raw.extractLsb' 16 16 else raw.extractLsb' 0 16) := by
  rw [← extend_half]
  cases signed <;> rfl

/-- A store leaves the other lanes alone. -/
theorem byteOf_writeLanes {sel : BitVec 4} {k : Nat} (hk : k < 4) (h : sel.getLsbD k = false)
    (old data : Word) : byteOf k (writeLanes old sel data) = byteOf k old := by
  have hsel : sel = BitVec.ofNat 4 sel.toNat := by simp
  unfold writeLanes
  split
  case h_8 => rfl
  all_goals
    rename_i heq
    rw [heq] at hsel
    subst hsel
    refine BitVec.eq_of_getLsbD_eq fun n hn => ?_
    obtain rfl | rfl | rfl | rfl : k = 0 ∨ k = 1 ∨ k = 2 ∨ k = 3 := by omega
  all_goals first
    | exact absurd h (by decide)
    | simp [byteOf, hn]
  all_goals grind

theorem byteOf_writeByte (old data : Word) :
    byteOf (laneOf x) (writeLanes old (byteSel (typeB false) x) data) = data.extractLsb' 0 8 := by
  rw [byteSel_byte_eq]
  refine BitVec.eq_of_getLsbD_eq fun n hn => ?_
  rcases lane_cases (x := x) with h | h | h | h <;> rw [h]
  all_goals simp [writeLanes, byteOf, hn]
  all_goals grind

theorem writeHalf (old data : Word) :
    (if x.getLsbD 1 then (writeLanes old (byteSel (typeH false) x) data).extractLsb' 16 16
      else (writeLanes old (byteSel (typeH false) x) data).extractLsb' 0 16) =
        data.extractLsb' 0 16 := by
  have hsel : byteSel (typeH false) x = if x.getLsbD 1 then 0b1100#4 else 0b0011#4 := rfl
  rw [hsel]
  cases x.getLsbD 1 with
  | true => exact BitVec.extractLsb'_append_eq_left
  | false => exact BitVec.extractLsb'_append_eq_right

-- ---------------------------------------------------------------------------
-- One access
-- ---------------------------------------------------------------------------

variable {t : BitVec 4} {signed : Bool}

/-- MEM lets a load go: of the memory type `t`, into `r`, from the address `x`. -/
structure Core.Loads (t : BitVec 4) (r : Reg) (x : Word) (i : Inputs) (c : Core) : Prop where
  moves : c.memStall i = false
  live : c.mm.aVal = false
  read : c.mm.wrmem = true
  lands : c.mmWregCond i = false
  memT : c.mm.memT = t
  aRt : c.mm.aRt = r
  addr : c.mm.addr = x
  nonzero : r ≠ 0

/-- MEM lets a store go: of the memory type `t`, out of `r`, to the address `x`. -/
structure Core.Stores (t : BitVec 4) (r : Reg) (x : Word) (i : Inputs) (c : Core) : Prop where
  moves : c.memStall i = false
  live : c.mm.aVal = false
  write : c.mm.wrmem = false
  memT : c.mm.memT = t
  aRt : c.mm.aRt = r
  addr : c.mm.addr = x

/-- MEM stores into a byte of those that an access of type `t` at `x` is about. -/
def Core.overwrites (c : Core) (t : BitVec 4) (x : Word) : Bool :=
  !c.mm.wrmem && !c.mm.aVal && c.dWordAddr == wordOf x &&
    (byteSel c.mm.memT c.mm.addr &&& byteSel t x) != 0

/-- What a load leaves in its register. -/
theorem Core.Loads.readReg (h : c.Loads t r x i) (hn : LoadsNamed c) :
    (c.step chip i).readReg r =
      mergeLOAD (t.extractLsb' 2 2) (x.extractLsb' 0 2)
        (bytesRead chip.undef t x (c.mem (wordOf x))) c.mmBData := by
  obtain ⟨haC, hmux⟩ := hn.mm h.live h.read
  have hlands : c.landsIn i r = true := by
    rw [landsIn, h.moves, h.lands, haC, h.aRt, bne_iff_ne.mpr h.nonzero, beq_self_eq_true]
    rfl
  have hraw : c.rdData chip = bytesRead chip.undef t x (c.mem (wordOf x)) := by
    rw [rdData, h.read, h.live, h.memT, dWordAddr, h.addr]
    rfl
  rw [readReg_lands hlands, Follows.wbC_moved h.moves, hmux, h.memT, h.addr, hraw]

/-- LWL and LWR merge into the register as it is. -/
theorem Core.Loads.merges (h : c.Loads t r x i) (hd : DatumRight c) (h3 : t.getLsbD 3 = true) :
    c.mmBData = c.readReg r := by
  have hwreg : c.mm.wreg = false := by
    have hlands := h.lands
    unfold mmWregCond at hlands
    split at hlands
    · cases hlands
    · exact hlands
  have hright := hd.mm h.live (Or.inr (by rw [h.memT]; exact h3))
  rw [patched, h.aRt] at hright
  rw [mmBData, hwreg, h.live, h.aRt]
  exact hright

/-- **LWL alone** changes the bytes that it is for. -/
theorem Core.Loads.lwl (h : c.Loads typeLWL r (a + 3) i) (hd : DatumRight c) (hn : LoadsNamed c)
    {j : Nat} (hj : j < 4) : byteOf j ((c.step chip i).readReg r) =
      if wordOf (a + BitVec.ofNat 32 j) = wordOf (a + 3) then byteAt c.mem (a + BitVec.ofNat 32 j)
      else byteOf j (c.readReg r) := by
  rw [h.readReg hn, h.merges hd rfl]
  exact merged_lwl hj

/-- **LWR alone** changes the bytes that it is for. -/
theorem Core.Loads.lwr (h : c.Loads typeLWR r a i) (hd : DatumRight c) (hn : LoadsNamed c)
    {j : Nat} (hj : j < 4) : byteOf j ((c.step chip i).readReg r) =
      if wordOf (a + BitVec.ofNat 32 j) = wordOf a then byteAt c.mem (a + BitVec.ofNat 32 j)
      else byteOf j (c.readReg r) := by
  rw [h.readReg hn, h.merges hd rfl]
  exact merged_lwr hj

theorem Core.Loads.byte (h : c.Loads (typeB signed) r x i) (hn : LoadsNamed c) :
    (c.step chip i).readReg r = extend signed (byteAt c.mem x) := by
  rw [h.readReg hn, bytesRead_byte]
  cases signed <;> rfl

theorem Core.Loads.half (h : c.Loads (typeH signed) r x i) (hn : LoadsNamed c) :
    (c.step chip i).readReg r = extend signed (halfAt c.mem x) := by
  rw [h.readReg hn, bytesRead_half]
  cases signed <;> rfl

/-- What a store leaves in its word. -/
theorem Core.Stores.mem (h : c.Stores t r x i) (hd : DatumRight c) :
    (c.step chip i).mem (wordOf x) =
      writeLanes (c.mem (wordOf x)) (byteSel t x) (c.readReg r) := by
  have hright := hd.mm h.live (Or.inl h.write)
  rw [patched, h.aRt] at hright
  have hdata : c.dataOut chip = c.readReg r := by
    rw [dataOut, h.write, h.live, h.aRt]
    exact hright
  have haddr : c.dWordAddr = wordOf x := by
    rw [dWordAddr, h.addr]
    rfl
  show c.memWritten chip (wordOf x) = _
  rw [memWritten, h.write, h.live, haddr, hdata, h.memT, h.addr]
  exact Function.update_self _ _ _

/-- Bytes that MEM does not store into stay. -/
theorem byteOf_kept (h : c.overwrites t x = false) {k : Nat} (hk : k < 4)
    (hsel : (byteSel t x).getLsbD k = true) :
    byteOf k ((c.step chip i).mem (wordOf x)) = byteOf k (c.mem (wordOf x)) := by
  show byteOf k (c.memWritten chip (wordOf x)) = _
  unfold Core.memWritten
  by_cases hst : (!c.mm.wrmem && !c.mm.aVal) = true
  · rw [if_pos hst]
    by_cases hw : wordOf x = c.dWordAddr
    · rw [hw, Function.update_self]
      refine byteOf_writeLanes hk ?_ _ _
      rw [Core.overwrites, hst, hw, beq_self_eq_true, Bool.true_and, Bool.true_and, bne,
        Bool.not_eq_false', beq_iff_eq] at h
      have hbit := congrArg (fun m : BitVec 4 => m.getLsbD k) h
      rw [BitVec.getLsbD_and, hsel, Bool.and_true] at hbit
      exact hbit.trans (BitVec.getLsbD_zero)
    · rw [Function.update_of_ne hw]
  · rw [if_neg hst]

theorem byteAt_kept (h : c.overwrites (typeB false) x = false) :
    byteAt (c.step chip i).mem x = byteAt c.mem x :=
  byteOf_kept h (x.extractLsb' 0 2).isLt byteSel_byte_lane

theorem halfAt_kept (h : c.overwrites (typeH false) x = false) :
    halfAt (c.step chip i).mem x = halfAt c.mem x := by
  have hsel : byteSel (typeH false) x = if x.getLsbD 1 then 0b1100#4 else 0b0011#4 := rfl
  have hbytes := fun k (hk : k < 4) => @byteOf_kept chip i c x (typeH false) h k hk
  rw [hsel] at hbytes
  unfold halfAt
  cases hx : x.getLsbD 1 with
  | true =>
    rw [hx] at hbytes
    refine Dcache.extract_eq_of_byteOf fun j h1 h2 => hbytes j (by omega) ?_
    obtain rfl | rfl : j = 2 ∨ j = 3 := by omega
    · rfl
    · rfl
  | false =>
    rw [hx] at hbytes
    refine Dcache.extract_eq_of_byteOf fun j h1 h2 => hbytes j (by omega) ?_
    obtain rfl | rfl : j = 0 ∨ j = 1 := by omega
    · rfl
    · rfl

/-- A load stores nothing. -/
theorem Core.Loads.mem (h : c.Loads t r x i) : (c.step chip i).mem = c.mem := by
  show c.memWritten chip = c.mem
  rw [memWritten, h.read]
  rfl

-- ---------------------------------------------------------------------------
-- Runs
-- ---------------------------------------------------------------------------

section Runs

variable {ins : Nat → Inputs} {N : Nat}

/-- Nothing between the cycles `n` and `m` writes the register `r` or the four bytes from `a`. -/
def Untouched (chip : Chip) (ins : Nat → Inputs) (c : Core) (r : Reg) (a : Word) (n m : Nat) :
    Prop :=
  ∀ k, n < k → k < m → (run chip ins c k).landsIn (ins k) r = false ∧
    ∀ j < 4, (run chip ins c k).overwrites (typeB false) (a + BitVec.ofNat 32 j) = false

/-- **The unaligned and the narrow accesses of a run of `N` cycles**: each of LWL and LWR
changes its bytes only, the two in either order load the four bytes from `a`, and what SB
and SH store is loaded with its extension. -/
structure AccessesRight (chip : Chip) (ins : Nat → Inputs) (c : Core) (N : Nat) : Prop where
  lwl : ∀ n < N, ∀ r a, (run chip ins c n).Loads typeLWL r (a + 3) (ins n) → ∀ j < 4,
    byteOf j ((run chip ins c (n + 1)).readReg r) =
      if wordOf (a + BitVec.ofNat 32 j) = wordOf (a + 3) then
        byteAt (run chip ins c n).mem (a + BitVec.ofNat 32 j)
      else byteOf j ((run chip ins c n).readReg r)
  lwr : ∀ n < N, ∀ r a, (run chip ins c n).Loads typeLWR r a (ins n) → ∀ j < 4,
    byteOf j ((run chip ins c (n + 1)).readReg r) =
      if wordOf (a + BitVec.ofNat 32 j) = wordOf a then
        byteAt (run chip ins c n).mem (a + BitVec.ofNat 32 j)
      else byteOf j ((run chip ins c n).readReg r)
  word : ∀ n m r a, n < m → m < N →
    (run chip ins c n).Loads typeLWL r (a + 3) (ins n) ∧
        (run chip ins c m).Loads typeLWR r a (ins m) ∨
      (run chip ins c n).Loads typeLWR r a (ins n) ∧
        (run chip ins c m).Loads typeLWL r (a + 3) (ins m) →
    Untouched chip ins c r a n m → ∀ j < 4,
      byteOf j ((run chip ins c (m + 1)).readReg r) =
        byteAt (run chip ins c n).mem (a + BitVec.ofNat 32 j)
  byte : ∀ n m s r x signed, n < m → m < N →
    (run chip ins c n).Stores (typeB false) s x (ins n) →
    (run chip ins c m).Loads (typeB signed) r x (ins m) →
    (∀ k, n < k → k < m → (run chip ins c k).overwrites (typeB false) x = false) →
      (run chip ins c (m + 1)).readReg r =
        extend signed (((run chip ins c n).readReg s).extractLsb' 0 8)
  half : ∀ n m s r x signed, n < m → m < N →
    (run chip ins c n).Stores (typeH false) s x (ins n) →
    (run chip ins c m).Loads (typeH signed) r x (ins m) →
    (∀ k, n < k → k < m → (run chip ins c k).overwrites (typeH false) x = false) →
      (run chip ins c (m + 1)).readReg r =
        extend signed (((run chip ins c n).readReg s).extractLsb' 0 16)

/-- **Every state of a run without a slip** has the right registers with its accesses. -/
theorem datumRight_run (hf : c.Fresh)
    (hslip : ∀ n < N, (run chip ins c n).datumSlips (ins n) = false) :
    ∀ n ≤ N, DatumRight (run chip ins c n) := by
  intro n
  induction n with
  | zero => exact fun _ => hf.datumRight
  | succ n ih => exact fun hn => (ih (by omega)).step (hslip n (by omega))

theorem loadsNamed_run (hf : c.Fresh) : ∀ n, LoadsNamed (run chip ins c n)
  | 0 => hf.loadsNamed
  | n + 1 => (loadsNamed_run hf n).step

/-- What no cycle changes stays. -/
theorem kept_run {α : Type} (q : Core → α) {n m : Nat} (hnm : n ≤ m)
    (hkept : ∀ k, n ≤ k → k < m → q (run chip ins c (k + 1)) = q (run chip ins c k)) :
    q (run chip ins c m) = q (run chip ins c n) := by
  induction m, hnm using Nat.le_induction with
  | base => rfl
  | succ m hnm ih => rw [hkept m hnm (Nat.lt_succ_self m), ih fun k h1 h2 => hkept k h1 (by omega)]

theorem Untouched.reg {a : Word} {n m : Nat} (h : Untouched chip ins c r a n m) (hnm : n < m) :
    (run chip ins c m).readReg r = (run chip ins c (n + 1)).readReg r :=
  kept_run (fun d => d.readReg r) hnm fun k h1 h2 => readReg_kept (h k h1 h2).1

theorem Untouched.byte {a : Word} {n m j : Nat} (h : Untouched chip ins c r a n m) (hnm : n < m)
    (hj : j < 4) : byteAt (run chip ins c m).mem (a + BitVec.ofNat 32 j) =
      byteAt (run chip ins c (n + 1)).mem (a + BitVec.ofNat 32 j) :=
  kept_run (fun d => byteAt d.mem (a + BitVec.ofNat 32 j)) hnm fun k h1 h2 =>
    byteAt_kept ((h k h1 h2).2 j hj)

/-- In every run in which no access is sent to MEM right behind a cancelled write of its
register, unaligned words, bytes and halfwords are loaded as they are in memory. -/
theorem accesses_right_without_slip (hf : c.Fresh)
    (hslip : ∀ n < N, (run chip ins c n).datumSlips (ins n) = false) :
    AccessesRight chip ins c N := by
  have hright := datumRight_run hf hslip
  have hnamed := @loadsNamed_run chip c ins hf
  have hlwl : ∀ n < N, ∀ r a, (run chip ins c n).Loads typeLWL r (a + 3) (ins n) → ∀ j < 4, _ :=
    fun n hn r a h j hj => @Core.Loads.lwl chip _ _ r a h (hright n hn.le) (hnamed n) j hj
  have hlwr : ∀ n < N, ∀ r a, (run chip ins c n).Loads typeLWR r a (ins n) → ∀ j < 4, _ :=
    fun n hn r a h j hj => @Core.Loads.lwr chip _ _ r a h (hright n hn.le) (hnamed n) j hj
  refine ⟨hlwl, hlwr, ?_, ?_, ?_⟩
  · intro n m r a hnm hm hpair hbetween j hj
    have hbyte := hbetween.byte hnm hj
    have hreg := hbetween.reg hnm
    rcases hpair with ⟨hfirst, hsecond⟩ | ⟨hfirst, hsecond⟩
    · have hmem : (run chip ins c (n + 1)).mem = (run chip ins c n).mem := hfirst.mem
      rw [hmem] at hbyte
      refine (hlwr m hm r a hsecond j hj).trans ?_
      rw [hbyte, hreg]
      split
      · rfl
      · next hlow =>
        refine (hlwl n (hnm.trans hm) r a hfirst j hj).trans (if_pos ?_)
        exact (in_one_of_two hj).resolve_right hlow
    · have hmem : (run chip ins c (n + 1)).mem = (run chip ins c n).mem := hfirst.mem
      rw [hmem] at hbyte
      refine (hlwl m hm r a hsecond j hj).trans ?_
      rw [hbyte, hreg]
      split
      · rfl
      · next hhigh =>
        refine (hlwr n (hnm.trans hm) r a hfirst j hj).trans (if_pos ?_)
        exact (in_one_of_two hj).resolve_left hhigh
  · intro n m s r x signed hnm hm hstore hload hbetween
    have hkept : byteAt (run chip ins c m).mem x = byteAt (run chip ins c (n + 1)).mem x :=
      kept_run (fun d => byteAt d.mem x) hnm fun k h1 h2 => byteAt_kept (hbetween k h1 h2)
    have hstored : byteAt (run chip ins c (n + 1)).mem x =
        ((run chip ins c n).readReg s).extractLsb' 0 8 := by
      have hmem : (run chip ins c (n + 1)).mem (wordOf x) = _ :=
        hstore.mem (hright n (hnm.trans hm).le)
      rw [byteAt, hmem]
      exact byteOf_writeByte _ _
    have hlast : (run chip ins c (m + 1)).readReg r = _ := hload.byte (hnamed m)
    rw [hlast, hkept, hstored]
  · intro n m s r x signed hnm hm hstore hload hbetween
    have hkept : halfAt (run chip ins c m).mem x = halfAt (run chip ins c (n + 1)).mem x :=
      kept_run (fun d => halfAt d.mem x) hnm fun k h1 h2 => halfAt_kept (hbetween k h1 h2)
    have hstored : halfAt (run chip ins c (n + 1)).mem x =
        ((run chip ins c n).readReg s).extractLsb' 0 16 := by
      have hmem : (run chip ins c (n + 1)).mem (wordOf x) = _ :=
        hstore.mem (hright n (hnm.trans hm).le)
      rw [halfAt, hmem]
      exact writeHalf _ _
    have hlast : (run chip ins c (m + 1)).readReg r = _ := hload.half (hnamed m)
    rw [hlast, hkept, hstored]

end Runs

/-- The word from the address 1 into a register that has just been moved. -/
def unalignedPair : Chip where
  undef := 0
  rom a := match a.toNat with
    | 0 => 0x0040080a  -- movz $1, $2, $0
    | 1 => 0x88010004  -- lwl  $1, 4($0)
    | 2 => 0x98010001  -- lwr  $1, 1($0)
    | 3 => 0xa0010008  -- sb   $1, 8($0)
    | 4 => 0x80020008  -- lb   $2, 8($0)
    | _ => 0

theorem accesses_right_pair :
    AccessesRight unalignedPair (quietInputs (· % 3 != 2)) numbered 16 :=
  accesses_right_without_slip numbered_fresh (by decide +kernel)

/-- A move that is not made, and an unaligned load into its register. -/
def unmadeLoad : Chip where
  undef := 0
  rom a := match a.toNat with
    | 0 => 0x0043080a  -- movz $1, $2, $3
    | 1 => 0x88010004  -- lwl  $1, 4($0)
    | _ => 0

/-- The load clears the bytes that it is not for. -/
theorem accesses_not_right :
    numbered.Fresh ∧ ¬AccessesRight unmadeLoad (quietInputs fun _ => true) numbered 5 := by
  refine ⟨numbered_fresh, fun h => ?_⟩
  have hload : (run unmadeLoad (quietInputs fun _ => true) numbered 4).Loads typeLWL 1 (1 + 3)
      (quietInputs (fun _ => true) 4) := by
    constructor <;> decide +kernel
  have hbyte := h.lwl 4 (by decide) 1 1 hload 0 (by decide)
  exact absurd hbyte (by decide +kernel)

end Xinu.Cpu
