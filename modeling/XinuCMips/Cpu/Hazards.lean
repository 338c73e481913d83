import XinuCMips.Cpu.Tables
import XinuCMips.Lib.InOrder

/-!
# Quiet cycles and forwarding slips

A cycle is calm when no exception and no interrupt enters MEM. A slip is a cycle
in which an instruction takes its operand from `MM_result`, or compares it with
the link registers, although the instruction in MEM leaves another value.
-/

namespace Xinu.Cpu

open InOrder

/-- The exception types that stand for an instruction handled by COP0, and not
for an exception. -/
def quietException : ExceptionType → Bool
  | .exNOP | .exMTC0 | .exMFC0 | .exEI | .exDI | .exLL | .exSC | .exEHB | .exWAIT
  | .exTLBP | .exTLBR | .exTLBWI | .exTLBWR | .exDERET => true
  | _ => false

namespace Core

variable {chip : Chip} {i : Inputs} {c : Core}

/-- No exception or interrupt is on its way into MEM, and the fetch is aligned. -/
def Calm (i : Inputs) (c : Core) : Prop :=
  quietException (c.exIsException i) = true ∧ c.pcAbort = false

-- ---------------------------------------------------------------------------
-- Slips
-- ---------------------------------------------------------------------------

/-- The value that the instruction in MEM leaves in its destination register is
not in `MM_result`: a conditional move that is not made, a link, EI or DI. -/
def unforwarded (c : Core) : Bool :=
  (c.mm.move && !c.mm.aluMoveOk) || c.mm.muxC == .pc8 || (c.mm.muxC == .cop0 && !c.mm.isMFC0)

/-- MEM holds LL, which `is_load` does not know. -/
def linkedLoad (c : Core) : Bool := c.mm.muxC == .mem && !c.mm.isLoad

/-- EX reads the register `r`, and takes it wrongly from `MM_result`. -/
def aluSlip (c : Core) (r : Reg) : Bool := c.mmWrites r && (c.unforwarded || c.linkedLoad)

/-- EX holds an instruction with a wrong operand. A datum for the data bus gets a
second chance in MEM, unless a move that is not made left it behind. -/
def exSlips (c : Core) : Bool :=
  readsA c.ex.oper && c.aluSlip c.ex.aRs ||
    readsB c.ex.oper && !c.ex.selB && c.aluSlip c.ex.aRt ||
    !c.ex.aVal && (!c.ex.wrmem || c.ex.memT.getLsbD 3) && c.mmWrites c.ex.aRt &&
      c.mm.move && !c.mm.aluMoveOk

/-- EX holds an SC that does not see the link of the LL right before it. -/
def scSlips (c : Core) : Bool :=
  c.isSC && c.mm.exception == .exLL && !(c.llScBit && c.llAddr == c.mm.vAddr)

/-- A branch in RF takes the register `r` wrongly from `MM_result`. -/
def branchSlip (i : Inputs) (c : Core) (r : Reg) : Bool :=
  !c.exWrites i r && c.mmWrites r && c.unforwarded

/-- RF holds a branch or a jump through a register with a wrong operand. -/
def rfSlips (i : Inputs) (c : Core) : Bool :=
  (c.dec i).sig.pcSel == .branch &&
      (c.branchSlip i (c.dec i).aRs || ((c.dec i).readsRt && c.branchSlip i (c.dec i).aRt)) ||
    (c.dec i).sig.pcSel == .jr && c.mmWrites (c.dec i).aRs &&
      (c.unforwarded || c.linkedLoad || (c.mm.isSC && !c.mm.llScAbort))

/-- An instruction uses a wrong operand in this cycle, where the counters `f` tell
an instruction in EX from a bubble. Operands count in the cycle in which the
instruction moves on. -/
def Slips (f : Flight) (i : Inputs) (c : Core) : Prop :=
  c.memStall i = false ∧
    ((f.rf = f.ex + 1 ∧ (c.exSlips = true ∨ c.scSlips = true)) ∨
      (c.hazard i = false ∧ c.rfSlips i = true))

instance {f : Flight} : Decidable (Slips f i c) := by
  unfold Slips
  infer_instance

instance : Decidable (Calm i c) := by
  unfold Calm
  infer_instance

-- ---------------------------------------------------------------------------
-- What a quiet instruction in MEM does not do
-- ---------------------------------------------------------------------------

/-- A quiet instruction in MEM changes STATUS, EPC and one register at most, and
LLaddr when it is LL. -/
theorem excpSignals_quiet (h : quietException c.mm.exception = true) :
    ∃ status update reg epcUpdate epcSource stall,
      c.excpSignals i =
        { c.quietSignals with
          newStatus := status, update := update, updateReg := reg, epcUpdate := epcUpdate,
          epcSource := epcSource, exceptionStall := stall } ∧
      (update && reg == cop0regLLAddr) = (c.mm.exception == .exLL) := by
  cases hx : c.mm.exception <;> rw [hx] at h <;> simp only [quietException, Bool.false_eq_true] at h
  case exMTC0 =>
    -- no branch of MTC0 writes LLaddr
    unfold excpSignals
    simp only [hx]
    split
    · exact ⟨_, _, _, _, _, _, rfl, by simp_all; decide⟩
    · split
      · refine ⟨_, _, _, _, _, _, rfl, ?_⟩
        rename_i hmem
        simp only [List.mem_cons, List.not_mem_nil, or_false] at hmem
        rcases hmem with h | h | h | h | h | h | h | h | h <;> rw [h] <;> decide
      · split
        · exact ⟨_, _, _, _, _, _, rfl, rfl⟩
        · exact ⟨_, _, _, _, _, _, rfl, rfl⟩
  all_goals
    unfold excpSignals
    simp only [hx]
    exact ⟨_, _, _, _, _, _, rfl, rfl⟩

theorem nullify_quiet (h : quietException c.mm.exception = true) : c.nullify i = false := by
  obtain ⟨_, _, _, _, _, _, he, _⟩ := excpSignals_quiet h
  rw [nullify, he]
  rfl

theorem nullifyMMPre_quiet (h : quietException c.mm.exception = true) :
    (c.excpSignals i).nullifyMMPre = false := by
  obtain ⟨_, _, _, _, _, _, he, _⟩ := excpSignals_quiet h
  rw [he]
  rfl

/-- LLaddr is written for LL only. -/
theorem llUpdate_quiet (h : quietException c.mm.exception = true) :
    ((c.excpSignals i).update && (c.excpSignals i).updateReg == cop0regLLAddr) =
      (c.mm.exception == .exLL) := by
  obtain ⟨_, _, _, _, _, _, he, hu⟩ := excpSignals_quiet h
  rw [he]
  exact hu

/-- The link is set by LL only. -/
theorem nextLLbit_quiet (h : quietException c.mm.exception = true) :
    c.nextLLbit = (c.mm.exception == .exLL || c.llScBit) := by
  unfold nextLLbit
  cases hx : c.mm.exception <;> rw [hx] at h <;> first | rfl | cases h

theorem excpPC_quiet (h : quietException c.mm.exception = true) : c.excpPC = none := by
  unfold quietException at h
  unfold excpPC
  split at h <;> simp_all

/-- In a calm cycle EX sends its instruction on as it is. -/
theorem Calm.ex (h : Calm i c) :
    c.exIsException i = c.ex.exception ∧ c.addrError i = false ∧
      quietException c.ex.exception = true := by
  -- every branch of the priority list but the last is an exception
  have hq := h.1
  unfold exIsException at hq ⊢
  by_cases h1 : (!i.iBusErr || !i.dBusErr) = true
  · rw [if_pos h1] at hq
    split at hq <;> exact absurd hq (by decide)
  by_cases h2 : c.addrError i = true
  · rw [if_neg h1, if_pos h2, memExcpType] at hq
    split at hq <;> exact absurd hq (by decide)
  by_cases h3 : c.ex.pcAbort = true
  · rw [if_neg h1, if_neg h2, if_pos h3] at hq
    exact absurd hq (by decide)
  by_cases h4 : c.ex.trapped = true
  · rw [if_neg h1, if_neg h2, if_neg h3, if_pos h4] at hq
    exact absurd hq (by decide)
  by_cases h5 : c.isOvfl i = true
  · rw [if_neg h1, if_neg h2, if_neg h3, if_neg h4, if_pos h5] at hq
    exact absurd hq (by decide)
  by_cases h6 : (i.nmi && !c.status.getLsbD statusERL) = true
  · rw [if_neg h1, if_neg h2, if_neg h3, if_neg h4, if_neg h5, if_pos h6] at hq
    exact absurd hq (by decide)
  by_cases h7 : c.isInterr i = true
  · rw [if_neg h1, if_neg h2, if_neg h3, if_neg h4, if_neg h5, if_neg h6, if_pos h7] at hq
    exact absurd hq (by decide)
  rw [if_neg h1, if_neg h2, if_neg h3, if_neg h4, if_neg h5, if_neg h6, if_neg h7] at hq ⊢
  exact ⟨rfl, by simpa using h2, hq⟩

end Core

end Xinu.Cpu
