import XinuCMips.Cpu.Bubbles

/-!
# What the latches can hold

In every run the latches of EX and MEM hold what some instruction word decodes to,
as it is or as a bubble. From this follows what an instruction with an exception in
MEM can be: it is no branch, it is off the data bus, and but for an overflow it
writes no register.
-/

namespace Xinu.Cpu

/-- What EX holds comes from the decoder. -/
structure ExShaped (x : RegRFEX) : Prop where
  bus : x.aVal = false → x.isDelayslot = false
  store : x.aVal = true → x.wrmem = true
  sum : x.canTrap = 0b10 → x.oper = .opADD ∨ x.oper = .opSUB →
    x.isDelayslot = false ∧ x.aVal = true
  trap : x.trapped = true → x.isDelayslot = false ∧ x.wreg = true ∧ x.aVal = true
  call : x.exception = .exSYSCALL ∨ x.exception = .exBREAK ∨ x.exception = .exERET →
    x.isDelayslot = false ∧ x.wreg = true ∧ x.aVal = true
  fetch : x.pcAbort = true → x.isDelayslot = false ∧ x.wreg = true ∧ x.aVal = true
  own : ownException x.exception = true

/-- The exceptions and the return from exceptions that nullify the instructions behind
them. -/
def faulting : ExceptionType → Bool
  | .exSYSCALL | .exBREAK | .exTRAP | .exOvfl | .IFaddressError | .MMaddressErrorLD
  | .MMaddressErrorST | .exERET => true
  | _ => false

/-- What MEM holds comes from EX. -/
structure MmShaped (x : RegEXMM) : Prop where
  flow : faulting x.exception = true → x.isDelayslot = false
  bus : faulting x.exception = true → x.aVal = true ∧ x.wrmem = true
  kept : faulting x.exception = true → x.exception ≠ .exOvfl → x.wreg = true ∨ x.addrError = true
  trap : x.exception = .exTRAP → x.trapped = true

namespace Core

variable {chip : Chip} {i : Inputs} {c : Core}

/-- The latches hold what the decoder gives. -/
structure Shaped (c : Core) : Prop where
  rf : c.rf.pcAbort = true → fieldOpcode c.rf.instr = nullOpcode
  ex : ExShaped c.ex
  mm : MmShaped c.mm

theorem reset_shaped (regFile : Reg → Word) (hi lo : Word) (mem : BitVec 30 → Word) :
    (reset regFile hi lo mem).Shaped where
  rf := nofun
  ex :=
    { bus := nofun, store := fun _ => rfl, sum := nofun, trap := nofun,
      call := fun h => by (rcases h with h | h | h <;> cases h), fetch := nofun, own := rfl }
  mm := { flow := nofun, bus := nofun, kept := nofun, trap := nofun }

-- ---------------------------------------------------------------------------
-- The null instruction
-- ---------------------------------------------------------------------------

/-- The null instruction does nothing in any stage. -/
structure Null (d : Decoded) : Prop where
  branch : d.isBranch = false
  trap : d.isTrap = false
  jump : d.funct.pcSel = .pc4
  pcSel : d.sig.pcSel = .pc4
  store : d.isStore = false
  slot : d.isDelayslot = false
  wreg : d.sig.wreg = true
  aVal : d.ctrl.aVal = true
  wmem : d.ctrl.wmem = true
  oper : d.sig.oper = .opNOP
  canTrap : d.canTrap = 0
  compares : comparesForTrap d.sig.trapInstr = false
  exception : d.sig.exception = .exNOP

theorem decode_null (w : Word) : Null (decode nullOpcode w) :=
  ⟨rfl, rfl, rfl, rfl, rfl, rfl, rfl, rfl, rfl, rfl,
    show (ctrlTable 63).excp ||| (funcTable 63).excp ||| (rimmTable 31).excp = 0 by decide, rfl, rfl⟩

/-- Under an annulment RF decodes the null instruction. -/
theorem dec_null (h : c.annulTwice i = true) : Null (c.dec i) := by
  rw [dec, opcode, if_pos h]
  exact decode_null _

-- ---------------------------------------------------------------------------
-- The step lemma
-- ---------------------------------------------------------------------------

/-- RF sends what it decodes. -/
theorem toEX_shaped (hrf : c.rf.pcAbort = true → fieldOpcode c.rf.instr = nullOpcode) :
    ExShaped (c.toEX i) := by
  have hd : (c.dec i).profile.Sound := decode_sound _ _
  -- a bubble clears the enables, the instruction itself has them as decoded
  have low : ∀ {b : Bool}, (c.pipeStall i || b) = false → c.pipeStall i = false ∧ b = false :=
    fun h => Bool.or_eq_false_iff.mp h
  have high : ∀ {b : Bool}, b = true → (c.pipeStall i || b) = true :=
    fun h => by rw [h, Bool.or_true]
  have hoff : (c.dec i).isTrap = true → (c.dec i).ctrl.aVal = true := by
    intro ht
    by_contra hbus
    have hno := (hd.busPlain (eq_false_of_ne_true hbus)).2.1
    rw [show (c.dec i).profile.isTrap = true from ht] at hno
    cases hno
  refine
    { bus := fun h => (hd.busPlain (low h).2).2.2, store := fun h => ?_,
      sum := fun hc ho => ⟨(hd.ovfl hc ho).2.2.1, high (hd.ovfl hc ho).2.2.2.2⟩,
      trap := fun h => ?_, call := fun h => ?_, fetch := fun h => ?_, own := ?_ }
  · by_contra hw
    obtain ⟨hstall, hst⟩ := low (eq_false_of_ne_true hw)
    have hbus : (c.dec i).ctrl.aVal = false := hd.store hst
    have h' : (c.pipeStall i || (c.dec i).ctrl.aVal) = true := h
    rw [hstall, hbus] at h'
    cases h'
  · have hcmp : comparesForTrap (c.dec i).sig.trapInstr = true := by
      by_contra hno
      have h' : trapTaken (c.dec i) (c.trFwdA i) (c.trFwdB i) = true := h
      rw [trapTaken_of_not (eq_false_of_ne_true hno)] at h'
      cases h'
    obtain ⟨htrap, hslot, hwreg⟩ := hd.trap hcmp
    exact ⟨hslot, high hwreg, high (hoff htrap)⟩
  · have own : ∀ {e : ExceptionType}, e ≠ .exNOP → (c.toEX i).exception = e →
        (c.dec i).sig.exception = e := by
      intro e hne he
      have he' : (if c.pipeStall i then ExceptionType.exNOP else (c.dec i).sig.exception) = e := he
      split at he'
      · exact absurd he'.symm hne
      · exact he'
    have hexc : (c.dec i).sig.exception = .exSYSCALL ∨ (c.dec i).sig.exception = .exBREAK ∨
        (c.dec i).sig.exception = .exERET :=
      h.imp (own (by decide)) (Or.imp (own (by decide)) (own (by decide)))
    exact ⟨(hd.call hexc).1, high (hd.call hexc).2.1, high (hd.call hexc).2.2⟩
  · have hnull : Null (c.dec i) := by
      rw [dec, opcode, hrf h]
      split <;> exact decode_null _
    exact ⟨hnull.slot, high hnull.wreg, high hnull.aVal⟩
  · show ownException (if c.pipeStall i then ExceptionType.exNOP else (c.dec i).sig.exception) =
      true
    split
    · rfl
    · exact hd.own

/-- Where a fault in EX comes from. -/
inductive FaultFrom (i : Inputs) (c : Core) : Prop
  | address (h : c.addrError i = true) (he : c.exIsException i = c.memExcpType)
  | fetch (h : c.ex.pcAbort = true) (he : c.exIsException i = .IFaddressError)
  | trap (h : c.ex.trapped = true) (he : c.exIsException i = .exTRAP)
  | sum (h : c.isOvfl i = true) (he : c.exIsException i = .exOvfl)
  | call (h : c.ex.exception = .exSYSCALL ∨ c.ex.exception = .exBREAK ∨ c.ex.exception = .exERET)
      (he : c.exIsException i = c.ex.exception)

theorem call_of_faulting {e : ExceptionType} (hown : ownException e = true)
    (hf : faulting e = true) : e = .exSYSCALL ∨ e = .exBREAK ∨ e = .exERET := by
  revert hown hf
  cases e <;> decide

theorem faultFrom (hown : ownException c.ex.exception = true)
    (hf : faulting (c.exIsException i) = true) : FaultFrom i c := by
  -- the branches of the priority list, but for bus errors and interrupts
  by_cases h1 : (!i.iBusErr || !i.dBusErr) = true
  · rw [exIsException, if_pos h1] at hf
    split at hf <;> cases hf
  by_cases h2 : c.addrError i = true
  · exact .address h2 (by rw [exIsException, if_neg h1, if_pos h2])
  by_cases h3 : c.ex.pcAbort = true
  · exact .fetch h3 (by rw [exIsException, if_neg h1, if_neg h2, if_pos h3])
  by_cases h4 : c.ex.trapped = true
  · exact .trap h4 (by rw [exIsException, if_neg h1, if_neg h2, if_neg h3, if_pos h4])
  by_cases h5 : c.isOvfl i = true
  · exact .sum h5 (by rw [exIsException, if_neg h1, if_neg h2, if_neg h3, if_neg h4, if_pos h5])
  by_cases h6 : (i.nmi && !c.status.getLsbD statusERL) = true
  · rw [exIsException, if_neg h1, if_neg h2, if_neg h3, if_neg h4, if_neg h5, if_pos h6] at hf
    cases hf
  by_cases h7 : c.isInterr i = true
  · rw [exIsException, if_neg h1, if_neg h2, if_neg h3, if_neg h4, if_neg h5, if_neg h6,
      if_pos h7] at hf
    cases hf
  have he : c.exIsException i = c.ex.exception := by
    rw [exIsException, if_neg h1, if_neg h2, if_neg h3, if_neg h4, if_neg h5, if_neg h6, if_neg h7]
  rw [he] at hf
  exact .call (call_of_faulting hown hf) he

/-- An instruction that faults is no branch, and off the data bus unless its address
is the fault. -/
theorem FaultFrom.shape (h : ExShaped c.ex) (hf : FaultFrom i c) :
    c.ex.isDelayslot = false ∧ (c.ex.aVal = true ∨ c.addrError i = true) ∧
      (c.exIsException i ≠ .exOvfl → c.ex.wreg = true ∨ c.addrError i = true) := by
  cases hf with
  | address ha he =>
    have hbus : c.ex.aVal = false := by
      by_contra hoff
      rw [addrError_of_off (by simpa using hoff)] at ha
      cases ha
    exact ⟨h.bus hbus, Or.inr ha, fun _ => Or.inr ha⟩
  | fetch hp he => exact ⟨(h.fetch hp).1, Or.inl (h.fetch hp).2.2, fun _ => Or.inl (h.fetch hp).2.1⟩
  | trap ht he => exact ⟨(h.trap ht).1, Or.inl (h.trap ht).2.2, fun _ => Or.inl (h.trap ht).2.1⟩
  | sum ho he =>
    simp only [isOvfl, Bool.and_eq_true, beq_iff_eq] at ho
    have hoper : c.ex.oper = .opADD ∨ c.ex.oper = .opSUB := by
      have ho' := ho.2
      unfold aluOvfl at ho'
      split at ho'
      · exact Or.inl ‹_›
      · exact Or.inr ‹_›
      · cases ho'
    exact ⟨(h.sum ho.1 hoper).1, Or.inl (h.sum ho.1 hoper).2, fun hne => absurd he hne⟩
  | call hc he => exact ⟨(h.call hc).1, Or.inl (h.call hc).2.2, fun _ => Or.inl (h.call hc).2.1⟩

/-- EX sends an exception of its instruction, or one of its own. -/
theorem toMM_shaped (h : ExShaped c.ex) : MmShaped (c.toMM chip i) := by
  have hshape : faulting (c.exIsException i) = true → _ := fun hf => (faultFrom h.own hf).shape h
  refine ⟨fun hf => (hshape hf).1, fun hf => ?_, fun hf hne => ?_, fun ht => ?_⟩
  · show c.exAValCond i = true ∧ c.exWrmemCond i = true
    unfold exAValCond exWrmemCond
    rcases (hshape hf).2.1 with hoff | ha
    · rw [hoff, h.store hoff]
      exact ⟨rfl, rfl⟩
    · rw [ha]
      simp
  · show c.exWreg i = true ∨ c.addrError i = true
    refine ((hshape hf).2.2 hne).imp (fun hw => ?_) id
    rw [exWreg, hw, Bool.true_or]
  · refine trapped_of_exTRAP ht ?_
    intro hx
    have hown := h.own
    rw [hx] at hown
    cases hown

/-- The latches keep their shape in every cycle. -/
theorem Shaped.step (h : c.Shaped) : (c.step chip i).Shaped := by
  refine ⟨?_, ?_, ?_⟩
  · show (if c.pipeStall i then c.rf else c.toRF chip).pcAbort = true →
      fieldOpcode (if c.pipeStall i then c.rf else c.toRF chip).instr = nullOpcode
    split
    · exact h.rf
    · intro hp
      show fieldOpcode (c.instrFetched chip) = nullOpcode
      rw [instrFetched, show c.pcAbort = true from hp]
      exact BitVec.extractLsb'_append_eq_left
  · show ExShaped (if c.memStall i then c.ex else c.toEX i)
    split
    · exact h.ex
    · exact toEX_shaped h.rf
  · show MmShaped (if c.memStall i then c.mm else c.toMM chip i)
    split
    · exact h.mm
    · exact toMM_shaped h.ex

end Core

/-- The latches have their shape in every cycle of a run. -/
theorem shaped_run {chip : Chip} {ins : Nat → Inputs} {c : Core} (h : c.Shaped) (n : Nat) :
    (run chip ins c n).Shaped := by
  induction n with
  | zero => exact h
  | succ n ih => exact ih.step

end Xinu.Cpu
