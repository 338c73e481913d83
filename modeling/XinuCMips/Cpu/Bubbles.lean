import XinuCMips.Cpu.Transparent

/-!
# Overflows and traps of bubbles

A hazard sends a bubble into EX with the write enables and the exception cleared,
but the bubble keeps the ALU operation and `can_trap` of the instruction that waits
in RF, and its `trap_taken`. The sum that EX computes for it takes the address of a
load in place of the word loaded, and the comparison of a trap takes the registers
before the instructions ahead have written them.
-/

namespace Xinu.Cpu

open InOrder

namespace Seq

variable (chip : Chip) (s : Seq)

/-- ADD, ADDI or SUB overflows. -/
def overflows : Bool := s.dec.canTrap == 0b10 && aluOvfl s.dec.sig.oper s.opA s.inB

/-- The second comparand of a trap. -/
def trapB : Word := if s.dec.isTrap && s.dec.rimm.selB then s.dec.displ32 else s.opB

/-- The comparison of a trap holds. -/
def traps : Bool := trapTaken s.dec s.opA s.trapB

/-- What the forwarding from MEM shows of the instruction's result, which for a load
is its address. -/
def bypass (answer : Word) : Word :=
  if s.dec.sig.exception == .exMFC0 then answer
  else if s.isSC then flagWord s.scOk
  else s.aluResult chip

/-- The instruction uses the data bus. -/
def onBus : Bool := !s.dec.ctrl.aVal && !(s.isSC && !s.scOk)

end Seq

-- ---------------------------------------------------------------------------
-- What a bubble computes with
-- ---------------------------------------------------------------------------

section Stale

variable (chip : Chip) (s : Nat → Seq) (answers : Nat → Word) (f : Flight)

/-- The register `r` as the forwarding shows it to a bubble in EX. -/
def shown (r : Reg) : Word :=
  if f.ex = f.mm + 1 ∧ (s f.mm).names r = true then (s f.mm).bypass chip (answers f.mm)
  else (s f.mm).reg r

/-- The sum of an ADD, ADDI or SUB in RF overflows when the bubble before it makes it. -/
def ShownSum : Prop :=
  (s f.rf).dec.canTrap = 0b10 ∧
    aluOvfl (s f.rf).dec.sig.oper (shown chip s answers f (s f.rf).dec.aRs)
      (if !(s f.rf).dec.sig.selB then shown chip s answers f (s f.rf).dec.aRt
        else (s f.rf).dec.displ32) = true

/-- The bubble that RF sends now will overflow. -/
def StaleSum : Prop := ShownSum chip s answers (f.step false true)

/-- The register `r` as a trap in RF sees it while it waits. -/
def waiting (r : Reg) : Word :=
  if f.rf = f.ex + 1 ∧ (s f.ex).names r = true then (s f.mm).reg r
  else if f.ex = f.mm + 1 ∧ (s f.mm).names r = true ∧ (s f.mm).onBus = false then
    (s f.mm).aluResult chip
  else (s f.mm).reg r

/-- The comparison of a trap that waits in RF holds already. -/
def StaleTrap : Prop :=
  trapTaken (s f.rf).dec (waiting chip s f (s f.rf).dec.aRs)
    (if (s f.rf).dec.isTrap && (s f.rf).dec.rimm.selB then (s f.rf).dec.displ32
      else waiting chip s f (s f.rf).dec.aRt) = true

end Stale

namespace Core

variable (i : Inputs) (c : Core)

/-- A trap in RF takes the register `r` wrongly from `MM_result`: the traps have no
way from COP0 and from the link flag. -/
def trapSlip (r : Reg) : Bool := c.mmWrites r && (c.unforwarded || c.mm.isMFC0 || c.mm.isSC)

/-- RF holds a trap with a wrong comparand. -/
def trSlips : Bool :=
  comparesForTrap (c.dec i).sig.trapInstr &&
    (c.trapSlip (c.dec i).aRs || !c.trapImmediate i && c.trapSlip (c.dec i).aRt)

end Core

/-- What goes wrong with overflows and traps when RF moves on or sends a bubble. -/
def BubbleSlips (chip : Chip) (s : Nat → Seq) (answers : Nat → Word) (f : Flight) (i : Inputs)
    (c : Core) : Prop :=
  c.memStall i = false ∧
    ((c.hazard i = true ∧ (StaleSum chip s answers f ∨ StaleTrap chip s f)) ∨
      (c.hazard i = false ∧ c.trSlips i = true))

instance (chip : Chip) (s : Nat → Seq) (answers : Nat → Word) (f : Flight) (i : Inputs)
    (c : Core) : Decidable (BubbleSlips chip s answers f i c) := by
  unfold BubbleSlips StaleSum ShownSum StaleTrap
  infer_instance

/-- Overflows and traps are those of the sequential machine, and bubbles raise none.
EX sends its exception on when the memories do not hold it. -/
structure TrapsExact (s : Nat → Seq) (f : Flight) (i : Inputs) (c : Core) : Prop where
  bubble : c.memStall i = false → f.rf = f.ex →
    c.exIsException i ≠ .exOvfl ∧ c.exIsException i ≠ .exTRAP
  overflow : c.memStall i = false → f.rf = f.ex + 1 → i.iBusErr = true → i.dBusErr = true →
    c.ex.pcAbort = false → (c.exIsException i = .exOvfl ↔ (s f.ex).overflows = true)
  trap : c.memStall i = false → f.rf = f.ex + 1 → i.iBusErr = true → i.dBusErr = true →
    c.ex.pcAbort = false → (c.exIsException i = .exTRAP ↔ (s f.ex).traps = true)

-- ---------------------------------------------------------------------------
-- The invariant
-- ---------------------------------------------------------------------------

/-- The bubble in EX repeats the instruction in RF. -/
structure Repeats (s : Seq) (x : RegRFEX) : Prop where
  oper : x.oper = s.dec.sig.oper
  selB : x.selB = s.dec.sig.selB
  aRs : x.aRs = s.dec.aRs
  aRt : x.aRt = s.dec.aRt
  displ32 : x.displ32 = s.dec.displ32
  canTrap : x.canTrap = s.dec.canTrap

/-- A bubble with the operation of the instruction in RF does not overflow. -/
structure HarmlessSum (chip : Chip) (s : Nat → Seq) (answers : Nat → Word) (f : Flight)
    (c : Core) : Prop where
  repeats : Repeats (s f.rf) c.ex
  regA : c.patched c.ex.aRs c.ex.regA = (s f.mm).reg c.ex.aRs
  regB : c.patched c.ex.aRt c.ex.regB = (s f.mm).reg c.ex.aRt
  sum : ¬ShownSum chip s answers f

/-- What EX carries of overflows and traps. -/
structure TrapsCarried (chip : Chip) (s : Nat → Seq) (answers : Nat → Word) (f : Flight)
    (c : Core) : Prop where
  live : f.rf = f.ex + 1 → c.ex.canTrap = (s f.ex).dec.canTrap ∧ c.ex.trapped = (s f.ex).traps
  idle : f.rf = f.ex → c.ex.trapped = false
  sum : f.rf = f.ex → c.ex.canTrap = 0 ∨ HarmlessSum chip s answers f c

/-- An instruction that is no trap is not taken for one. -/
theorem trapTaken_of_not {d : Decoded} (h : comparesForTrap d.sig.trapInstr = false)
    (a b : Word) : trapTaken d a b = false := by
  unfold trapTaken
  unfold comparesForTrap at h
  split <;> simp_all

namespace Follows

variable {chip : Chip} {i : Inputs} {c : Core} {s : Nat → Seq} {f : Flight}
  {answers : Nat → Word}

/-- The forwarding muxes of the ALU show a bubble what `shown` says. -/
theorem fwdALU_shown (h : Follows chip s f c)
    (hans : f.ex = f.mm + 1 → answers f.mm = c.mmCop0Val i) {r : Reg} {v : Word}
    (hv : c.patched r v = (s f.mm).reg r) : c.fwdALU i r v = shown chip s answers f r := by
  unfold Core.fwdALU shown
  by_cases hw : c.mmWrites r = true
  · have hl := h.mm_live_of_writes hw
    have hm := h.mmLive hl
    have hn : f.ex = f.mm + 1 ∧ (s f.mm).names r = true :=
      ⟨hl, by rw [← h.mmWrites_live hl, hw]⟩
    rw [if_pos hw, if_pos hn, Seq.bypass, hm.isMFC0, hm.isSC, hm.result, hans hl]
    by_cases hsc : (s f.mm).isSC = true
    · rw [hm.llScAbort hsc, Bool.not_not]
    · rw [if_neg hsc, if_neg hsc]
  · have hn : ¬(f.ex = f.mm + 1 ∧ (s f.mm).names r = true) := by
      rintro ⟨hl, hn⟩
      exact hw (by rw [h.mmWrites_live hl, hn])
    rw [if_neg hw, if_neg hn]
    exact hv

/-- A trap that waits in RF compares what `waiting` says. -/
theorem fwdTrap_waiting (h : Follows chip s f c) (ht : (s f.rf).dec.isTrap = true) (r : Reg) :
    (c.fwdTrap i r).1 = waiting chip s f r := by
  unfold Core.fwdTrap waiting
  rw [h.dec_eq, ht, Bool.true_and]
  by_cases hx : c.exWrites i r = true
  · have hl := h.ex_live_of_writes hx
    have hn : (s f.ex).names r = true := by rw [← h.exWrites_live hl, hx]
    rw [if_pos hx, if_pos ⟨hl, hn⟩]
    exact h.readReg_eq r
  · have hn : ¬(f.rf = f.ex + 1 ∧ (s f.ex).names r = true) := by
      rintro ⟨hl, hn⟩
      exact hx (by rw [h.exWrites_live hl, hn])
    rw [if_neg hx, if_neg hn]
    by_cases hw : c.mmWrites r = true
    · have hl := h.mm_live_of_writes hw
      have hm := h.mmLive hl
      have hn : (s f.mm).names r = true := by rw [← h.mmWrites_live hl, hw]
      have hbus : (!c.mm.aVal) = (s f.mm).onBus := by
        rw [hm.aVal, Seq.onBus, Bool.not_or]
      rw [if_pos hw, hbus]
      by_cases hb : (s f.mm).onBus = true
      · rw [if_pos hb, if_neg (by simp [hb])]
        exact h.readReg_eq r
      · rw [if_neg hb, if_pos ⟨hl, hn, by simpa using hb⟩]
        exact hm.result
    · have hn : ¬(f.ex = f.mm + 1 ∧ (s f.mm).names r = true ∧ (s f.mm).onBus = false) := by
        rintro ⟨hl, hn, -⟩
        exact hw (by rw [h.mmWrites_live hl, hn])
      rw [if_neg hw, if_neg hn]
      exact h.readReg_eq r

section Moving

variable (hs : ∀ k, s (k + 1) = (s k).exec chip (answers k))
include hs

/-- A trap that is not stalled compares the registers of the sequential machine. -/
theorem fwdTrap_eq (h : Follows chip s f c) (ht : (s f.rf).dec.isTrap = true)
    (hans : f.ex = f.mm + 1 → answers f.mm = c.mmCop0Val i) {r : Reg}
    (hstall : (c.fwdTrap i r).2 = false) (hslip : c.trapSlip r = false) :
    (c.fwdTrap i r).1 = (s f.rf).reg r := by
  unfold Core.fwdTrap at hstall ⊢
  rw [h.dec_eq, ht, Bool.true_and] at hstall ⊢
  by_cases hx : c.exWrites i r = true
  · rw [if_pos hx] at hstall
    cases hstall
  · have hx' : c.exWrites i r = false := by simpa using hx
    rw [if_neg hx] at hstall ⊢
    by_cases hw : c.mmWrites r = true
    · rw [if_pos hw] at hstall ⊢
      by_cases hbus : c.mm.aVal = true
      · have hoff := h.off_bus hw hbus
        simp only [Core.trapSlip, hw, Bool.true_and, Bool.or_eq_false_iff] at hslip
        have hfwd := h.failed_sc hs hw hx' hans hslip.1.1 hoff.1 hoff.2
        rw [hslip.1.2, hslip.2] at hfwd
        rw [hbus, ← hfwd]
        rfl
      · rw [eq_false_of_ne_true hbus] at hstall
        cases hstall
    · rw [if_neg hw]
      exact h.behind_both hs hx' (by simpa using hw)

/-- The trap that goes on to EX is the one of the sequential machine. -/
theorem trapTaken_eq (h : Follows chip s f c)
    (hans : f.ex = f.mm + 1 → answers f.mm = c.mmCop0Val i) (hz : c.hazard i = false)
    (hslip : c.trSlips i = false) :
    trapTaken (c.dec i) (c.trFwdA i) (c.trFwdB i) = (s f.rf).traps := by
  have hdec : c.dec i = (s f.rf).dec := h.dec_eq
  rw [Seq.traps, hdec]
  by_cases hcmp : comparesForTrap (s f.rf).dec.sig.trapInstr = true
  · have ht : (s f.rf).dec.isTrap = true := ((s f.rf).sound.trap hcmp).1
    have hstall : c.trStall i = false := by
      simp only [Core.hazard, Bool.or_eq_false_iff] at hz
      exact hz.1.2
    simp only [Core.trStall, hdec, Bool.or_eq_false_iff] at hstall
    simp only [Core.trSlips, hdec, hcmp, Bool.true_and, Bool.or_eq_false_iff] at hslip
    have hA : c.trFwdA i = (s f.rf).opA := by
      rw [Core.trFwdA, hdec]
      exact h.fwdTrap_eq hs ht hans hstall.1 hslip.1
    have hB : c.trFwdB i = (s f.rf).trapB := by
      unfold Core.trFwdB Seq.trapB
      by_cases himm : c.trapImmediate i = true
      · rw [if_pos himm, hdec, if_pos (by rw [← hdec]; exact himm)]
      · rw [eq_false_of_ne_true himm, Bool.not_false, Bool.true_and] at hstall hslip
        rw [if_neg himm, hdec, if_neg (by rw [← hdec]; exact himm)]
        exact h.fwdTrap_eq hs ht hans hstall.2 hslip.2
    rw [hA, hB]
  · have hno := eq_false_of_ne_true hcmp
    rw [trapTaken_of_not hno, trapTaken_of_not hno]

end Moving

/-- Under a hazard the trap that waits is compared with what it sees. -/
theorem trapTaken_waiting (h : Follows chip s f c) (hno : ¬StaleTrap chip s f) :
    trapTaken (c.dec i) (c.trFwdA i) (c.trFwdB i) = false := by
  have hdec : c.dec i = (s f.rf).dec := h.dec_eq
  by_cases hcmp : comparesForTrap (s f.rf).dec.sig.trapInstr = true
  · have ht : (s f.rf).dec.isTrap = true := ((s f.rf).sound.trap hcmp).1
    have hA : c.trFwdA i = waiting chip s f (s f.rf).dec.aRs := by
      rw [Core.trFwdA, hdec]
      exact h.fwdTrap_waiting ht _
    have hB : c.trFwdB i = if (s f.rf).dec.isTrap && (s f.rf).dec.rimm.selB then
        (s f.rf).dec.displ32 else waiting chip s f (s f.rf).dec.aRt := by
      rw [Core.trFwdB, Core.trapImmediate, hdec, h.fwdTrap_waiting ht]
    rw [hdec, hA, hB]
    exact eq_false_of_ne_true hno
  · rw [hdec]
    exact trapTaken_of_not (eq_false_of_ne_true hcmp) _ _

-- ---------------------------------------------------------------------------
-- The step lemma
-- ---------------------------------------------------------------------------

/-- Wait states hold what EX carries. -/
theorem trapsCarried_held (ht : TrapsCarried chip s answers f c) (hm : c.memStall i = true) :
    TrapsCarried chip s answers f (c.step chip i) := by
  obtain ⟨-, -, hex, -, hwb⟩ := @step_held chip _ _ hm
  have hpatch := patched_of_wb hwb
  refine ⟨by rw [hex]; exact ht.live, by rw [hex]; exact ht.idle, fun hi => ?_⟩
  rw [hex]
  refine (ht.sum hi).imp id fun hh => ⟨?_, ?_, ?_, hh.sum⟩
  · rw [hex]
    exact hh.repeats
  · rw [hex, hpatch]
    exact hh.regA
  · rw [hex, hpatch]
    exact hh.regB

/-- RF sends on the overflows and traps of its instruction, and under a hazard
bubbles without any. -/
theorem trapsCarried_moves (h : Follows chip s f c)
    (hs : ∀ k, s (k + 1) = (s k).exec chip (answers k)) (hm : c.memStall i = false)
    (hans : f.ex = f.mm + 1 → answers f.mm = c.mmCop0Val i)
    (hslip : ¬BubbleSlips chip s answers f i c) :
    TrapsCarried chip s answers (f.step false (c.hazard i)) (c.step chip i) := by
  have hex : (c.step chip i).ex = c.toEX i := if_neg (by rw [hm]; decide)
  have hdec : c.dec i = (s f.rf).dec := h.dec_eq
  cases hz : c.hazard i with
  | true =>
    have hsum : ¬StaleSum chip s answers f := fun hx => hslip ⟨hm, Or.inl ⟨hz, Or.inl hx⟩⟩
    have htrap : ¬StaleTrap chip s f := fun hx => hslip ⟨hm, Or.inl ⟨hz, Or.inr hx⟩⟩
    refine ⟨fun hl => ?_, fun _ => ?_, fun _ => Or.inr ⟨?_, ?_, ?_, hsum⟩⟩
    · -- behind a bubble EX holds no instruction
      exact absurd hl (Nat.ne_of_lt (Nat.lt_succ_self f.rf))
    · rw [hex]
      exact h.trapTaken_waiting htrap
    · rw [hex]
      constructor <;> simp only [Core.toEX, hdec, Flight.step, Bool.false_eq_true, if_false, if_true]
    · rw [hex]
      exact h.patched_step hs hm hans (h.readReg_eq _)
    · rw [hex]
      exact h.patched_step hs hm hans (h.readReg_eq _)
  | false =>
    have htr : c.trSlips i = false := by
      by_contra hx
      exact hslip ⟨hm, Or.inr ⟨hz, by simpa using hx⟩⟩
    have hnot : ¬(f.step false false).rf = (f.step false false).ex := Nat.succ_ne_self f.rf
    refine ⟨fun _ => ?_, fun hl => absurd hl hnot, fun hl => absurd hl hnot⟩
    rw [hex]
    exact ⟨congrArg Decoded.canTrap hdec, h.trapTaken_eq hs hans hz htr⟩

/-- A bubble does not overflow. -/
theorem isOvfl_idle (h : Follows chip s f c) (ht : TrapsCarried chip s answers f c)
    (hans : f.ex = f.mm + 1 → answers f.mm = c.mmCop0Val i) (hidle : f.rf = f.ex) :
    c.isOvfl i = false := by
  unfold Core.isOvfl
  rcases ht.sum hidle with hnone | hh
  · rw [hnone]
    rfl
  · have hr := hh.repeats
    have hA : c.aluInpA i = shown chip s answers f (s f.rf).dec.aRs := by
      rw [Core.aluInpA, h.fwdALU_shown hans hh.regA, hr.aRs]
    have hB : c.aluInpB i = if !(s f.rf).dec.sig.selB then
        shown chip s answers f (s f.rf).dec.aRt else (s f.rf).dec.displ32 := by
      rw [Core.aluInpB, Core.aluFwdB, h.fwdALU_shown hans hh.regB, hr.aRt, hr.selB, hr.displ32]
    rw [hA, hB, hr.oper, hr.canTrap]
    by_contra hov
    rw [Bool.not_eq_false, Bool.and_eq_true, beq_iff_eq] at hov
    exact hh.sum hov

/-- An instruction overflows when the sequential machine's does. -/
theorem isOvfl_live (h : Follows chip s f c) (ht : TrapsCarried chip s answers f c)
    (hs : ∀ k, s (k + 1) = (s k).exec chip (answers k)) (hl : f.rf = f.ex + 1)
    (hans : f.ex = f.mm + 1 → answers f.mm = c.mmCop0Val i) (hx : ExSound c) :
    c.isOvfl i = (s f.ex).overflows := by
  rw [Core.isOvfl, Seq.overflows, (ht.live hl).1, (h.exLive hl).oper]
  exact congrArg _ (aluOvfl_congr (h.aluInpA_eq hs hl hans hx) (h.aluInpB_eq hs hl hans hx))

end Follows

-- ---------------------------------------------------------------------------
-- The exception that EX sends on
-- ---------------------------------------------------------------------------

namespace Core

variable {i : Inputs} {c : Core}

theorem isOvfl_of_exOvfl (h : c.exIsException i = .exOvfl) (hown : c.ex.exception ≠ .exOvfl) :
    c.isOvfl i = true := by
  unfold exIsException memExcpType at h
  repeat' split at h
  all_goals first | assumption | cases h | exact absurd h hown

theorem trapped_of_exTRAP (h : c.exIsException i = .exTRAP) (hown : c.ex.exception ≠ .exTRAP) :
    c.ex.trapped = true := by
  unfold exIsException memExcpType at h
  repeat' split at h
  all_goals first | assumption | cases h | exact absurd h hown

/-- An instruction off the data bus has no address error. -/
theorem addrError_of_off (h : c.ex.aVal = true) : c.addrError i = false := by
  unfold addrError
  rw [h]
  split <;> simp

/-- A trap goes before the other exceptions of an instruction off the data bus. -/
theorem exTRAP_of_trapped (hi : i.iBusErr = true) (hd : i.dBusErr = true)
    (hoff : c.ex.aVal = true) (hpc : c.ex.pcAbort = false) (ht : c.ex.trapped = true) :
    c.exIsException i = .exTRAP := by
  rw [exIsException, hi, hd, addrError_of_off hoff, hpc, ht]
  rfl

theorem exOvfl_of_isOvfl (hi : i.iBusErr = true) (hd : i.dBusErr = true)
    (hoff : c.ex.aVal = true) (hpc : c.ex.pcAbort = false) (ht : c.ex.trapped = false)
    (ho : c.isOvfl i = true) : c.exIsException i = .exOvfl := by
  rw [exIsException, hi, hd, addrError_of_off hoff, hpc, ht, ho]
  rfl

end Core

/-- What overflows is an ADD, ADDI or SUB: it is no trap, and off the data bus. -/
theorem Seq.sum_of_overflows {s : Seq} (h : s.overflows = true) :
    s.dec.ctrl.aVal = true ∧ s.traps = false := by
  simp only [Seq.overflows, Bool.and_eq_true, beq_iff_eq] at h
  have hoper : s.dec.sig.oper = .opADD ∨ s.dec.sig.oper = .opSUB := by
    have ho := h.2
    unfold aluOvfl at ho
    split at ho
    · exact Or.inl ‹_›
    · exact Or.inr ‹_›
    · cases ho
  obtain ⟨-, htrap, -, -, hoff⟩ := s.sound.ovfl h.1 hoper
  refine ⟨hoff, trapTaken_of_not ?_ _ _⟩
  by_contra hc
  rw [Bool.not_eq_false] at hc
  have hyes := (s.sound.trap hc).1
  rw [htrap] at hyes
  cases hyes

theorem Seq.off_of_traps {s : Seq} (h : s.traps = true) : s.dec.ctrl.aVal = true := by
  have hcmp : comparesForTrap s.dec.sig.trapInstr = true := by
    by_contra hc
    rw [Seq.traps, trapTaken_of_not (eq_false_of_ne_true hc)] at h
    cases h
  by_contra hbus
  have hno := (s.sound.busPlain (eq_false_of_ne_true hbus)).2.1
  rw [(s.sound.trap hcmp).1] at hno
  cases hno

/-- Overflows and traps are exact in a cycle whose operands are. -/
theorem Follows.trapsExact {chip : Chip} {i : Inputs} {c : Core} {s : Nat → Seq} {f : Flight}
    {answers : Nat → Word} (h : Follows chip s f c) (ht : TrapsCarried chip s answers f c)
    (hs : ∀ k, s (k + 1) = (s k).exec chip (answers k))
    (hans : c.memStall i = false → f.ex = f.mm + 1 → answers f.mm = c.mmCop0Val i)
    (hslip : ¬c.Slips f i) : TrapsExact s f i c := by
  refine ⟨fun hm hidle => ?_, fun hm hl hi hd hpc => ?_, fun hm hl hi hd hpc => ?_⟩
  · have hown := (h.exIdle hidle).exception
    constructor
    · intro hx
      have ho := Core.isOvfl_of_exOvfl hx (by rw [hown]; decide)
      rw [h.isOvfl_idle ht (hans hm) hidle] at ho
      cases ho
    · intro hx
      have htr := Core.trapped_of_exTRAP hx (by rw [hown]; decide)
      rw [ht.idle hidle] at htr
      cases htr
  · have he := h.exLive hl
    have hovfl := h.isOvfl_live ht hs hl (hans hm) (exSound_of hm hslip hl)
    constructor
    · intro hx
      rw [← hovfl]
      refine Core.isOvfl_of_exOvfl hx ?_
      have hown : ownException (s f.ex).dec.sig.exception = true := (s f.ex).sound.own
      rw [he.exception]
      intro hov
      rw [hov] at hown
      cases hown
    · intro ho
      obtain ⟨hoff, hno⟩ := Seq.sum_of_overflows ho
      exact Core.exOvfl_of_isOvfl hi hd (he.aVal.trans hoff) hpc ((ht.live hl).2.trans hno)
        (hovfl.trans ho)
  · have he := h.exLive hl
    constructor
    · intro hx
      rw [← (ht.live hl).2]
      refine Core.trapped_of_exTRAP hx ?_
      have hown : ownException (s f.ex).dec.sig.exception = true := (s f.ex).sound.own
      rw [he.exception]
      intro htr
      rw [htr] at hown
      cases hown
    · intro htr
      exact Core.exTRAP_of_trapped hi hd (he.aVal.trans (Seq.off_of_traps htr)) hpc
        ((ht.live hl).2.trans htr)

-- ---------------------------------------------------------------------------
-- Main result
-- ---------------------------------------------------------------------------

section Runs

variable {chip : Chip} {ins : Nat → Inputs} {c : Core}

/-- What EX carries in every cycle of a run up to its first exception. -/
theorem trapsCarried_run (hf : c.Fresh) (h0 : c.ex.canTrap = 0 ∧ c.ex.trapped = false) (n : Nat)
    (hcalm : ∀ m < n, (run chip ins c m).Calm (ins m))
    (hslip : ∀ m < n, ¬(run chip ins c m).Slips (counters chip ins c m) (ins m))
    (hbubble : ∀ m < n, ¬BubbleSlips chip (program chip ins c) (answers chip ins c)
      (counters chip ins c m) (ins m) (run chip ins c m)) :
    TrapsCarried chip (program chip ins c) (answers chip ins c) (counters chip ins c n)
      (run chip ins c n) := by
  induction n with
  | zero =>
    have hnone : ¬(0 : Nat) = 0 + 1 := by decide
    exact ⟨fun hl => absurd hl hnone, fun _ => h0.2, fun _ => Or.inl h0.1⟩
  | succ n ih =>
    have hn := Nat.lt_succ_self n
    have before : ∀ {m}, m < n → m < n + 1 := fun hm => Nat.lt_succ_of_lt hm
    have h := follows_run (n := n) hf (fun m hm => hcalm m (before hm))
      (fun m hm => hslip m (before hm))
    have ht := ih (fun m hm => hcalm m (before hm)) (fun m hm => hslip m (before hm))
      (fun m hm => hbubble m (before hm))
    show TrapsCarried chip _ _ ((counters chip ins c n).step (holds chip ins c n)
      (bubbles chip ins c n)) ((run chip ins c n).step chip (ins n))
    cases hm : holds chip ins c n with
    | true => exact Follows.trapsCarried_held ht hm
    | false => exact h.trapsCarried_moves (fun _ => rfl) hm (answers_eq hm) (hbubble n hn)

/-- In every run up to its first exception whose cycles do not slip, overflows and
traps are those of the sequential machine, and bubbles raise none. -/
theorem traps_exact_without_slip (hf : c.Fresh)
    (h0 : c.ex.canTrap = 0 ∧ c.ex.trapped = false) (n : Nat)
    (hcalm : ∀ m < n, (run chip ins c m).Calm (ins m))
    (hslip : ∀ m ≤ n, ¬(run chip ins c m).Slips (counters chip ins c m) (ins m))
    (hbubble : ∀ m < n, ¬BubbleSlips chip (program chip ins c) (answers chip ins c)
      (counters chip ins c m) (ins m) (run chip ins c m)) :
    TrapsExact (program chip ins c) (counters chip ins c n) (ins n) (run chip ins c n) :=
  have hslip' := fun m (hm : m < n) => hslip m (Nat.le_of_lt hm)
  (follows_run hf n hcalm hslip').trapsExact
    (trapsCarried_run hf h0 n hcalm hslip' hbubble) (fun _ => rfl) answers_eq
    (hslip n (Nat.le_refl n))

end Runs

/-- A sum that waits for a load. -/
def loadSum : Chip where
  undef := 0
  rom a := match a.toNat with
    | 0 => 0x8c820004  -- lw  $2, 4($4)
    | 1 => 0x00411820  -- add $3, $2, $1
    | _ => 0

theorem traps_exact_load_sum :
    TrapsExact (program loadSum (quietInputs fun _ => true) numbered)
      (counters loadSum (quietInputs fun _ => true) numbered 4) (quietInputs (fun _ => true) 4)
      (run loadSum (quietInputs fun _ => true) numbered 4) :=
  traps_exact_without_slip numbered_fresh ⟨rfl, rfl⟩ 4 (by decide +kernel) (by decide +kernel)
    (by decide +kernel)

/-- The core after reset with the largest word in `$1`, zeros in the other registers,
and an empty memory. -/
def large : Core := .reset (fun r => if r = 1 then 0x7fffffff else 0) 0 0 (fun _ => 0)

/-- The bubble adds the address of the load to the largest word, and overflows. -/
theorem traps_not_exact : large.Fresh ∧ large.ex.canTrap = 0 ∧ large.ex.trapped = false ∧
    (∀ m < 3, (run loadSum (quietInputs fun _ => true) large m).Calm
      (quietInputs (fun _ => true) m)) ∧
    ¬TrapsExact (program loadSum (quietInputs fun _ => true) large)
      (counters loadSum (quietInputs fun _ => true) large 3) (quietInputs (fun _ => true) 3)
      (run loadSum (quietInputs fun _ => true) large 3) := by
  refine ⟨Core.reset_fresh _ _ _ _, rfl, rfl, by decide +kernel, fun h => ?_⟩
  exact (h.bubble (by decide +kernel) (by decide +kernel)).1 (by decide +kernel)

end Xinu.Cpu
