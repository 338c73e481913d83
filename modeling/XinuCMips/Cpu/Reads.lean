import XinuCMips.Cpu.Sequential

/-!
# What an instruction reads and writes

Which operands the ALU, the branches and the jumps look at, and the facts about
the control tables that the pipeline relies on.
-/

namespace Xinu.Cpu

/-- The ALU operation looks at its first operand. -/
def readsA : AluFun → Bool
  | .opSLLV | .opSRLV | .opSRAV | .opMOVZ | .opMOVN | .opMTHI | .opMTLO
  | .opMULT | .opMULTU | .opDIV | .opDIVU | .opMUL | .opADD | .opADDU | .opSUB | .opSUBU
  | .opAND | .opOR | .opXOR | .opNOR | .opSLT | .opSLTU | .opEXT | .opINS => true
  | _ => false

/-- The ALU operation looks at its second operand. -/
def readsB : AluFun → Bool
  | .opSLL | .opSLLV | .opSRL | .opSRA | .opSRLV | .opSRAV | .opMOVZ | .opMOVN
  | .opMULT | .opMULTU | .opDIV | .opDIVU | .opMUL | .opADD | .opADDU | .opSUB | .opSUBU
  | .opAND | .opOR | .opXOR | .opNOR | .opSLT | .opSLTU | .opLUI
  | .opSWAP | .opINS | .opSEB | .opSEH => true
  | _ => false

attribute [local simp] readsA readsB aluC aluMoveOk aluOvfl inpHI inpLO

/-- The result of the ALU depends on what it reads only. -/
theorem aluC_congr {undef a a' b b' hi hi' lo lo' : Word} {fn : AluFun} (postn shamt : Reg)
    (ha : readsA fn = true → a = a') (hb : readsB fn = true → b = b')
    (hhi : fn = .opMFHI → hi = hi') (hlo : fn = .opMFLO → lo = lo') :
    aluC undef fn a b postn shamt hi lo = aluC undef fn a' b' postn shamt hi' lo' := by
  cases fn <;> simp_all

theorem aluMoveOk_congr {fn : AluFun} {b b' : Word} (hb : readsB fn = true → b = b') :
    aluMoveOk fn b = aluMoveOk fn b' := by
  cases fn <;> simp_all

theorem aluOvfl_congr {fn : AluFun} {a a' b b' : Word} (ha : readsA fn = true → a = a')
    (hb : readsB fn = true → b = b') : aluOvfl fn a b = aluOvfl fn a' b' := by
  cases fn <;> simp_all

theorem inpHI_congr {undef a a' b b' : Word} {fn : AluFun} (ha : readsA fn = true → a = a')
    (hb : readsB fn = true → b = b') : inpHI undef fn a b = inpHI undef fn a' b' := by
  cases fn <;> simp_all

theorem inpLO_congr {undef a a' b b' : Word} {fn : AluFun} (ha : readsA fn = true → a = a')
    (hb : readsB fn = true → b = b') : inpLO undef fn a b = inpLO undef fn a' b' := by
  cases fn <;> simp_all

/-- Only LWL and LWR look at the register that they merge into. -/
theorem mergeLOAD_congr {memT : BitVec 4} {addr2 : BitVec 2} {mem reg reg' : Word}
    (h : memT.getLsbD 3 = true → reg = reg') :
    mergeLOAD (memT.extractLsb' 2 2) addr2 mem reg =
      mergeLOAD (memT.extractLsb' 2 2) addr2 mem reg' := by
  by_cases h3 : memT.getLsbD 3 = true
  · rw [h h3]
  · have hupper : ∀ t : BitVec 4, t.getLsbD 3 = false →
        (t.extractLsb' 2 2).toNat ≠ 2 ∧ (t.extractLsb' 2 2).toNat ≠ 3 := by decide
    have ht := hupper memT (by simpa using h3)
    unfold mergeLOAD
    split
    · exact absurd ‹_› ht.1
    · exact absurd ‹_› ht.2
    · rfl

/-- The branch compares rt with rs. -/
def Decoded.readsRt (d : Decoded) : Bool := d.ctrl.brT == .cEQU || d.ctrl.brT == .cNEQ

theorem brTarget_congr {d : Decoded} {pcIncd a a' b b' : Word} (ha : a = a')
    (hb : d.readsRt = true → b = b') : brTarget d pcIncd a b = brTarget d pcIncd a' b' := by
  subst ha
  unfold brTarget
  cases hbr : d.ctrl.brT <;> simp_all [Decoded.readsRt]

/-- The first of three fields put together. -/
theorem extract_high {a b c : Nat} (x : BitVec a) (y : BitVec b) (z : BitVec c) :
    (x ++ y ++ z).extractLsb' (c + b) a = x := by
  rw [BitVec.extractLsb'_append_eq_of_le (by omega), Nat.add_sub_cancel_left]
  exact BitVec.extractLsb'_append_eq_left

/-- A store that is repeated with the same lanes and datum changes nothing. -/
theorem writeLanes_twice (old : Word) (sel : BitVec 4) (data : Word) :
    writeLanes (writeLanes old sel data) sel data = writeLanes old sel data := by
  have lanes : ∀ n : Nat, sel.toNat = n →
      writeLanes (writeLanes old sel data) sel data = writeLanes old sel data := by
    intro n hn
    unfold writeLanes
    rw [hn]
    split
    · rfl
    · exact congrArg (data.extractLsb' 0 16 ++ ·) BitVec.extractLsb'_append_eq_right
    · exact congrArg (· ++ data.extractLsb' 0 16) BitVec.extractLsb'_append_eq_left
    · exact congrArg (· ++ data.extractLsb' 0 8) BitVec.extractLsb'_append_eq_left
    · exact congrArg₂ (fun u v => u ++ data.extractLsb' 0 8 ++ v)
        (extract_high (old.extractLsb' 16 16) (data.extractLsb' 0 8) (old.extractLsb' 0 8))
        BitVec.extractLsb'_append_eq_right
    · exact congrArg₂ (fun u v => u ++ data.extractLsb' 0 8 ++ v)
        (extract_high (old.extractLsb' 24 8) (data.extractLsb' 0 8) (old.extractLsb' 0 16))
        BitVec.extractLsb'_append_eq_right
    · exact congrArg (data.extractLsb' 0 8 ++ ·) BitVec.extractLsb'_append_eq_right
    · -- no lane is selected
      split <;> simp_all
  exact lanes _ rfl

end Xinu.Cpu
