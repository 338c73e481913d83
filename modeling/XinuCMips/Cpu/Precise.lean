import XinuCMips.Cpu.Nullify

/-!
# The address of the instruction with an exception

Which branch or jump, if any, each instruction in flight has as its predecessor is
recorded beside the core as it leaves RF. Against that record EPC and CAUSE.BD are
right for an overflow or an address error unless RF sent a bubble between the branch
and its delay slot, and for SYSCALL, BREAK and the traps only outside of delay slots:
these three look at the branch bit of the faulting instruction itself.
-/

namespace Xinu.Cpu

-- ---------------------------------------------------------------------------
-- The record
-- ---------------------------------------------------------------------------

/-- What is recorded of an instruction in flight. -/
structure Slot where
  /-- the address of the branch or jump whose delay slot it is in -/
  branch : Option Word
  /-- RF has sent a bubble while it waited there -/
  waited : Bool
  deriving DecidableEq

/-- The record for the instructions in RF, EX and MEM. -/
structure Slots where
  rf : Slot
  ex : Slot
  mm : Slot

namespace Slots

/-- No branch is in flight. -/
def start : Slots := ⟨⟨none, false⟩, ⟨none, false⟩, ⟨none, false⟩⟩

/-- The record moves with the instructions. The one behind a branch or jump that leaves
RF is in its delay slot. -/
def step (i : Inputs) (c : Core) (t : Slots) : Slots :=
  if c.memStall i then t
  else
    { mm := t.ex, ex := t.rf,
      rf :=
        if c.hazard i then { t.rf with waited := true }
        else { branch := if (c.dec i).isDelayslot then some c.rf.pc else none, waited := false } }

end Slots

/-- The record in cycle `n`. -/
def slots (chip : Chip) (ins : Nat → Inputs) (c : Core) : Nat → Slots
  | 0 => Slots.start
  | n + 1 => (slots chip ins c n).step (ins n) (run chip ins c n)

/-- The faults whose EPC has to be precise. -/
def datumFault : ExceptionType → Bool
  | .exOvfl | .MMaddressErrorLD | .MMaddressErrorST => true
  | _ => false

def callFault : ExceptionType → Bool
  | .exSYSCALL | .exBREAK | .exTRAP => true
  | _ => false

/-- EPC and CAUSE.BD of `c'` name the instruction in MEM of `c`, or the branch whose
delay slot it is in. -/
def PreciseEPC (t : Slot) (c c' : Core) : Prop :=
  c'.epc = t.branch.getD c.mm.pc ∧ c'.cause.bd = t.branch.isSome

-- ---------------------------------------------------------------------------
-- The branch bits that travel with the instructions
-- ---------------------------------------------------------------------------

/-- The instruction in EX cannot overflow or have an address error. -/
def faultless (x : RegRFEX) : Prop :=
  x.aVal = true ∧ ¬(x.canTrap = 0b10 ∧ (x.oper = .opADD ∨ x.oper = .opSUB))

/-- The branch bit of each stage tells of the instruction behind it, unless there is a
bubble between them, which repeats the bit of the instruction that waited. -/
structure Tracks (t : Slots) (c : Core) : Prop where
  rf : t.rf.waited = false → t.rf.branch = if c.ex.isDelayslot then some c.ex.pc else none
  rfWaited : t.rf.waited = true → c.ex.isDelayslot = true →
    (decode (fieldOpcode c.rf.instr) c.rf.instr).isDelayslot = true
  ex : t.ex.waited = false → t.ex.branch = if c.mm.isDelayslot then some c.mm.pc else none
  exWaited : t.ex.waited = true → c.mm.isDelayslot = true → faultless c.ex
  mm : t.mm.waited = false → t.mm.branch = if c.wb.isDelayslot then some c.wb.pc else none
  mmWaited : t.mm.waited = true → c.wb.isDelayslot = true → datumFault c.mm.exception = false

namespace Core

variable {chip : Chip} {i : Inputs} {c : Core}

/-- RF decodes its word as it is, or as the null instruction. -/
theorem dec_cases (i : Inputs) (c : Core) :
    c.dec i = decode (fieldOpcode c.rf.instr) c.rf.instr ∨ Null (c.dec i) := by
  by_cases h : c.annulTwice i = true
  · exact Or.inr (dec_null h)
  · refine Or.inl ?_
    rw [dec, opcode, if_neg h]

/-- A branch, and the null instruction, have no fault of their own. -/
theorem toEX_faultless (h : (decode (fieldOpcode c.rf.instr) c.rf.instr).isDelayslot = true) :
    faultless (c.toEX i) := by
  have off : (c.dec i).ctrl.aVal = true ∧
      ¬((c.dec i).canTrap = 0b10 ∧ ((c.dec i).sig.oper = .opADD ∨ (c.dec i).sig.oper = .opSUB)) := by
    rcases dec_cases i c with hd | hd
    · have hs : (c.dec i).profile.Sound := decode_sound _ _
      rw [← hd] at h
      constructor
      · by_contra hbus
        have hno := (hs.busPlain (eq_false_of_ne_true hbus)).2.2
        rw [show (c.dec i).profile.isDelayslot = true from h] at hno
        cases hno
      · rintro ⟨hc, ho⟩
        have hno := (hs.ovfl hc ho).2.2.1
        rw [show (c.dec i).profile.isDelayslot = true from h] at hno
        cases hno
    · refine ⟨hd.aVal, ?_⟩
      rintro ⟨hc, -⟩
      rw [hd.canTrap] at hc
      cases hc
  refine ⟨?_, off.2⟩
  show (c.pipeStall i || (c.dec i).ctrl.aVal) = true
  rw [off.1, Bool.or_true]

/-- What is faultless in EX has no such fault in MEM. -/
theorem datumFault_of_faultless (hs : ExShaped c.ex) (h : faultless c.ex) :
    datumFault (c.exIsException i) = false := by
  by_contra hf
  rw [Bool.not_eq_false] at hf
  have hfault : faulting (c.exIsException i) = true := by
    cases hx : c.exIsException i <;> rw [hx] at hf <;> first | rfl | cases hf
  cases faultFrom hs.own hfault with
  | address ha he =>
    rw [addrError_of_off h.1] at ha
    cases ha
  | fetch hp he =>
    rw [he] at hf
    cases hf
  | trap ht he =>
    rw [he] at hf
    cases hf
  | sum ho he =>
    simp only [isOvfl, Bool.and_eq_true, beq_iff_eq] at ho
    refine h.2 ⟨ho.1, ?_⟩
    have ho' := ho.2
    unfold aluOvfl at ho'
    split at ho'
    · exact Or.inl ‹_›
    · exact Or.inr ‹_›
    · cases ho'
  | call hc he =>
    rw [he] at hf
    rcases hc with hc | hc | hc <;> rw [hc] at hf <;> cases hf

end Core

/-- The record stays right in every cycle. -/
theorem Tracks.step {chip : Chip} {i : Inputs} {c : Core} {t : Slots} (h : Tracks t c)
    (hs : c.Shaped) : Tracks (t.step i c) (c.step chip i) := by
  unfold Slots.step
  by_cases hm : c.memStall i = true
  · obtain ⟨-, hrf, hex, hmm, hwb⟩ := @Follows.step_held chip _ _ hm
    rw [if_pos hm]
    exact
      { rf := by rw [hex]; exact h.rf, rfWaited := by rw [hex, hrf]; exact h.rfWaited,
        ex := by rw [hmm]; exact h.ex, exWaited := by rw [hmm, hex]; exact h.exWaited,
        mm := by rw [hwb]; exact h.mm, mmWaited := by rw [hwb, hmm]; exact h.mmWaited }
  · have hex : (c.step chip i).ex = c.toEX i := if_neg hm
    have hmm : (c.step chip i).mm = c.toMM chip i := if_neg hm
    have hwb : (c.step chip i).wb = c.toWB chip i := if_neg hm
    rw [if_neg hm]
    refine ⟨?_, ?_, ?_, ?_, ?_, ?_⟩
    · intro hw
      rw [hex]
      by_cases hz : c.hazard i = true
      · rw [if_pos hz] at hw
        cases hw
      · rw [if_neg hz]
        rfl
    · intro hw hd
      by_cases hz : c.hazard i = true
      · have hpipe : c.pipeStall i = true := by rw [Core.pipeStall, hz, Bool.or_true]
        have hrf : (c.step chip i).rf = c.rf := if_pos hpipe
        rw [hex] at hd
        rw [hrf]
        rcases Core.dec_cases i c with hdec | hnull
        · rw [← hdec]
          exact hd
        · rw [show (c.toEX i).isDelayslot = (c.dec i).isDelayslot from rfl, hnull.slot] at hd
          cases hd
      · rw [if_neg hz] at hw
        cases hw
    · rw [hmm]
      exact h.rf
    · intro hw hd
      rw [hmm] at hd
      rw [hex]
      exact Core.toEX_faultless (h.rfWaited hw hd)
    · rw [hwb]
      exact h.ex
    · intro hw hd
      rw [hwb] at hd
      rw [hmm]
      exact Core.datumFault_of_faultless hs.ex (h.exWaited hw hd)

-- ---------------------------------------------------------------------------
-- What EPC gets
-- ---------------------------------------------------------------------------

section Runs

variable {chip : Chip} {ins : Nat → Inputs} {c : Core}

/-- No branch is in flight. -/
structure Core.Straight (c : Core) : Prop where
  ex : c.ex.isDelayslot = false
  mm : c.mm.isDelayslot = false
  wb : c.wb.isDelayslot = false

theorem Core.Straight.tracks (h : c.Straight) : Tracks Slots.start c where
  rf _ := by rw [h.ex]; rfl
  rfWaited := nofun
  ex _ := by rw [h.mm]; rfl
  exWaited := nofun
  mm _ := by rw [h.wb]; rfl
  mmWaited := nofun

/-- The record is right in every cycle of a run. -/
theorem tracks_run (h0 : c.Straight) (hs : c.Shaped) (n : Nat) :
    Tracks (slots chip ins c n) (run chip ins c n) := by
  induction n with
  | zero => exact h0.tracks
  | succ n ih => exact ih.step (shaped_run hs n)

end Runs

namespace Core

variable {chip : Chip} {i : Inputs} {c : Core}

/-- With EXL clear an exception writes EPC and BD. -/
theorem epc_step (hexl : c.status.getLsbD statusEXL = false)
    (he : (c.excpSignals i).epcUpdate = false) :
    (c.step chip i).epc = (c.excpSignals i).epcSource ∧
      (c.step chip i).cause.bd = (c.excpSignals i).isDelayslot := by
  have hup : c.epcUpdate i = false := by
    rw [epcUpdate, he, hexl]
    split <;> rfl
  constructor
  · show (if c.epcUpdate i then _ else _) = _
    rw [hup]
    rfl
  · show (if c.status.getLsbD statusEXL then _ else _) = _
    rw [hexl]
    rfl

/-- SYSCALL, BREAK and the traps never find a branch bit in MEM. -/
theorem excpSignals_call (hs : MmShaped c.mm) (hf : callFault c.mm.exception = true) :
    (c.excpSignals i).epcUpdate = false ∧ (c.excpSignals i).epcSource = c.mm.pc ∧
      (c.excpSignals i).isDelayslot = false := by
  have hslot : c.mm.isDelayslot = false := by
    refine hs.flow ?_
    cases hx : c.mm.exception <;> rw [hx] at hf <;> first | rfl | cases hf
  unfold excpSignals faultSignals
  cases hx : c.mm.exception <;> rw [hx] at hf <;>
    first | (rw [hslot]; exact ⟨rfl, rfl, rfl⟩) | cases hf

/-- The other faults look at the branch bit in WB. -/
theorem excpSignals_datum (hs : MmShaped c.mm) (hf : datumFault c.mm.exception = true) :
    (c.excpSignals i).epcUpdate = false ∧
      (c.excpSignals i).epcSource = (if c.wb.isDelayslot then c.wb.pc else c.mm.pc) ∧
      (c.excpSignals i).isDelayslot = c.wb.isDelayslot := by
  have hslot : c.mm.isDelayslot = false := by
    refine hs.flow ?_
    cases hx : c.mm.exception <;> rw [hx] at hf <;> first | rfl | cases hf
  unfold excpSignals faultSignals
  cases hx : c.mm.exception <;> rw [hx] at hf <;>
    first
    | (rw [hslot]; refine ⟨rfl, rfl, ?_⟩; cases c.wb.isDelayslot <;> rfl)
    | cases hf

end Core

section Runs

variable {chip : Chip} {ins : Nat → Inputs} {c : Core}

/-- In every run, EPC and CAUSE.BD are precise for an exception taken with EXL clear
exactly when the instruction is not in a delay slot, or it is an overflow or an address
error and RF sent no bubble between the branch and its delay slot. -/
theorem epc_precise_iff (h0 : c.Straight) (hs : c.Shaped) (n : Nat)
    (hf : callFault (run chip ins c n).mm.exception = true ∨
      datumFault (run chip ins c n).mm.exception = true)
    (hexl : (run chip ins c n).status.getLsbD statusEXL = false) :
    PreciseEPC (slots chip ins c n).mm (run chip ins c n) (run chip ins c (n + 1)) ↔
      ((slots chip ins c n).mm.branch = none ∨
        (datumFault (run chip ins c n).mm.exception = true ∧
          (slots chip ins c n).mm.waited = false)) := by
  have ht := @tracks_run chip ins _ h0 hs n
  have hmm := (@shaped_run chip ins _ hs n).mm
  have key : ∀ {b : Option Word} {epc : Word} {bd : Bool},
      epc = (run chip ins c n).mm.pc → bd = false →
      ((epc = b.getD (run chip ins c n).mm.pc ∧ bd = b.isSome) ↔ b = none) := by
    rintro b epc bd rfl rfl
    cases b with
    | none => simp
    | some pc => simp
  unfold PreciseEPC
  rcases hf with hcall | hdatum
  · obtain ⟨hup, hsrc, hbd⟩ := Core.excpSignals_call (i := ins n) hmm hcall
    obtain ⟨hepc, hcause⟩ := @Core.epc_step chip _ _ hexl hup
    have hnot : datumFault (run chip ins c n).mm.exception = false := by
      cases hx : (run chip ins c n).mm.exception <;> rw [hx] at hcall <;>
        first | rfl | cases hcall
    rw [hnot]
    refine (key (hepc.trans hsrc) (hcause.trans hbd)).trans ?_
    simp
  · obtain ⟨hup, hsrc, hbd⟩ := Core.excpSignals_datum (i := ins n) hmm hdatum
    obtain ⟨hepc, hcause⟩ := @Core.epc_step chip _ _ hexl hup
    have hepc' := hepc.trans hsrc
    have hcause' := hcause.trans hbd
    cases hw : (slots chip ins c n).mm.waited with
    | false =>
      -- WB holds the instruction before the one in MEM
      have hb := ht.mm hw
      refine iff_of_true ?_ (Or.inr ⟨hdatum, rfl⟩)
      rw [hb]
      cases hd : (run chip ins c n).wb.isDelayslot with
      | true =>
        rw [hd] at hepc' hcause'
        exact ⟨hepc', hcause'⟩
      | false =>
        rw [hd] at hepc' hcause'
        exact ⟨hepc', hcause'⟩
    | true =>
      -- WB holds a bubble, without the branch bit
      have hd : (run chip ins c n).wb.isDelayslot = false := by
        by_contra hd
        have hno := ht.mmWaited hw (by simpa using hd)
        rw [hdatum] at hno
        cases hno
      rw [hd] at hepc' hcause'
      refine (key hepc' hcause').trans ?_
      simp

end Runs

theorem numbered_straight : numbered.Straight := ⟨rfl, rfl, rfl⟩

theorem numbered_shaped : numbered.Shaped := Core.reset_shaped _ _ _ _

/-- A store to an odd address in the delay slot of a jump, outside of exceptions. -/
def storeInSlot : Chip where
  undef := 0
  rom a := match a.toNat with
    | 0 => 0x40806000  -- mtc0 $0, $12
    | 3 => 0x08000000  -- j    0
    | 4 => 0xac010001  -- sw   $1, 1($0)
    | _ => 0

theorem epc_precise_store :
    PreciseEPC (slots storeInSlot (quietInputs fun _ => true) numbered 7).mm
        (run storeInSlot (quietInputs fun _ => true) numbered 7)
        (run storeInSlot (quietInputs fun _ => true) numbered 8) ↔
      ((slots storeInSlot (quietInputs fun _ => true) numbered 7).mm.branch = none ∨
        (datumFault (run storeInSlot (quietInputs fun _ => true) numbered 7).mm.exception = true ∧
          (slots storeInSlot (quietInputs fun _ => true) numbered 7).mm.waited = false)) :=
  epc_precise_iff numbered_straight numbered_shaped 7 (by decide +kernel) (by decide +kernel)

/-- A system call in the delay slot of a jump, outside of exceptions. -/
def callInSlot : Chip where
  undef := 0
  rom a := match a.toNat with
    | 0 => 0x40806000  -- mtc0 $0, $12
    | 3 => 0x08000000  -- j    0
    | 4 => 0x0000000c  -- syscall
    | _ => 0

/-- The handler of the system call returns to it, and not to the jump. -/
theorem epc_not_precise : numbered.Straight ∧ numbered.Shaped ∧
    callFault (run callInSlot (quietInputs fun _ => true) numbered 7).mm.exception = true ∧
    (run callInSlot (quietInputs fun _ => true) numbered 7).status.getLsbD statusEXL = false ∧
    ¬PreciseEPC (slots callInSlot (quietInputs fun _ => true) numbered 7).mm
      (run callInSlot (quietInputs fun _ => true) numbered 7)
      (run callInSlot (quietInputs fun _ => true) numbered 8) := by
  refine ⟨numbered_straight, numbered_shaped, by decide +kernel, by decide +kernel, fun h => ?_⟩
  exact absurd h.1 (by decide +kernel)

end Xinu.Cpu
