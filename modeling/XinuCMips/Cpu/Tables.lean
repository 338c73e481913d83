import XinuCMips.Cpu.Reads
import Mathlib.Tactic.MkIffOfInductiveProp

/-!
# What the control tables promise

The pipeline's control relies on facts about the tables, such as that an
instruction that writes what it reads from memory is on the data bus. They are
checked row by row here, and `decode_sound` carries them to every instruction
word.
-/

namespace Xinu.Cpu

/-- The decoded signals that the control of the pipeline depends on. -/
structure Profile where
  ctrl : ControlType
  functPC : PCsel
  isBranch : Bool
  isTrap : Bool
  isDelayslot : Bool
  move : Bool
  canTrap : BitVec 2
  wreg : Bool
  selB : Bool
  oper : AluFun
  muxC : MuxC
  pcSel : PCsel
  trapInstr : InstrType
  exception : ExceptionType

/-- The profile of a decoded instruction. -/
def Decoded.profile (d : Decoded) : Profile :=
  { ctrl := d.ctrl, functPC := d.funct.pcSel, isBranch := d.isBranch, isTrap := d.isTrap,
    isDelayslot := d.isDelayslot, move := d.move, canTrap := d.canTrap, wreg := d.sig.wreg,
    selB := d.sig.selB, oper := d.sig.oper, muxC := d.sig.muxC, pcSel := d.sig.pcSel,
    trapInstr := d.sig.trapInstr, exception := d.sig.exception }

/-- The trap instructions that compare. -/
def comparesForTrap : InstrType → Bool
  | .TEQ | .TEQI | .TNE | .TNEI | .TLT | .TLTI | .TLTU | .TLTIU
  | .TGE | .TGEI | .TGEU | .TGEIU => true
  | _ => false

/-- The exceptions that the decoder gives an instruction; the others are found later. -/
def ownException : ExceptionType → Bool
  | .exTRAP | .exOvfl | .IFaddressError | .MMaddressErrorLD | .MMaddressErrorST | .exIBE | .exDBE
  | .exNMI | .exInterr => false
  | _ => true

/-- The data bus. -/
@[mk_iff]
structure Profile.BusSound (p : Profile) : Prop where
  load : p.wreg = false → p.muxC = .mem → p.ctrl.aVal = false ∧ p.ctrl.wmem = true
  bus : p.ctrl.aVal = false → p.selB = true ∧ p.oper = .opADD ∧ p.move = false
  busPlain : p.ctrl.aVal = false → p.isBranch = false ∧ p.isTrap = false ∧ p.isDelayslot = false
  store : p.ctrl.wmem = false → p.ctrl.aVal = false
  scBus : p.exception = .exSC → p.ctrl.aVal = false ∧ p.ctrl.wmem = false
  ll : p.exception = .exLL → p.muxC = .mem ∧ p.ctrl.aVal = false
  merge : (memType p.ctrl.i).getLsbD 3 = true →
    p.ctrl.aVal = false ∧ p.ctrl.wmem = true ∧ p.wreg = false ∧ p.muxC = .mem

/-- Where the results come from. -/
@[mk_iff]
structure Profile.ResultSound (p : Profile) : Prop where
  hi : p.muxC = .hi → p.oper = .opMFHI
  lo : p.muxC = .lo → p.oper = .opMFLO
  mfc0 : p.exception = .exMFC0 → p.muxC = .cop0
  sc : p.exception = .exSC ↔ p.muxC = .llbit
  move : p.move = true → p.muxC = .ula ∧ p.selB = false ∧ readsB p.oper = true
  isLoad : isLoadInstr p.ctrl.i = true → p.muxC = .mem ∧ p.move = false

/-- Branches and exceptions. -/
@[mk_iff]
structure Profile.FlowSound (p : Profile) : Prop where
  branch : p.pcSel = .branch → p.isBranch = true
  jr : p.pcSel = .jr → p.functPC = .jr ∧ p.isBranch = false
  ovfl : p.canTrap = 0b10 → p.oper = .opADD ∨ p.oper = .opSUB →
    p.isBranch = false ∧ p.isTrap = false ∧ p.isDelayslot = false ∧ p.functPC ≠ .jr ∧
      p.ctrl.aVal = true
  trap : comparesForTrap p.trapInstr = true →
    p.isTrap = true ∧ p.isDelayslot = false ∧ p.wreg = true
  call : p.exception = .exSYSCALL ∨ p.exception = .exBREAK ∨ p.exception = .exERET →
    p.isDelayslot = false ∧ p.wreg = true ∧ p.ctrl.aVal = true
  own : ownException p.exception = true

/-- What the tables promise the pipeline. -/
structure Profile.Sound (p : Profile) : Prop extends
  p.BusSound, p.ResultSound, p.FlowSound

instance (p : Profile) : Decidable p.BusSound := decidable_of_iff' _ (Profile.busSound_iff p)

instance (p : Profile) : Decidable p.ResultSound :=
  decidable_of_iff' _ (Profile.resultSound_iff p)

instance (p : Profile) : Decidable p.FlowSound := decidable_of_iff' _ (Profile.flowSound_iff p)

instance (p : Profile) : Decidable p.Sound :=
  decidable_of_iff (p.BusSound ∧ p.ResultSound ∧ p.FlowSound)
    ⟨fun ⟨hb, hr, hf⟩ => ⟨hb, hr, hf⟩,
      fun h => ⟨h.toBusSound, h.toResultSound, h.toFlowSound⟩⟩

-- ---------------------------------------------------------------------------
-- The profiles of each kind of opcode
-- ---------------------------------------------------------------------------

/-- The profile that the rows of the three tables give, with the signals that
`RF_DECODE_FUNCT` chooses by the opcode. -/
def rowProfile (c : ControlType) (f : FunctionType) (r : RimmType) (move wreg selB : Bool)
    (oper : AluFun) (muxC : MuxC) (pcSel : PCsel) (trapInstr : InstrType)
    (exception : ExceptionType) : Profile :=
  { ctrl := c, functPC := f.pcSel,
    isBranch := c.brT != .cNOP || (r.brT != .cNOP && !r.trap),
    isTrap := f.trap || r.trap,
    isDelayslot := c.pcSel != .pc4 || f.pcSel != .pc4 || r.pcSel != .pc4,
    move := move, canTrap := c.excp ||| f.excp ||| r.excp, wreg := wreg, selB := selB,
    oper := oper, muxC := muxC, pcSel := pcSel, trapInstr := trapInstr, exception := exception }

/-- Opcode 0, by the function field. -/
def functProfile (func : BitVec 6) (exception : ExceptionType) : Profile :=
  let f := funcTable func
  rowProfile (ctrlTable 0) f (rimmTable 31) f.move f.wreg f.selB f.oper f.muxC f.pcSel f.i
    exception

/-- Opcode 1, by the rt field. -/
def rimmProfile (rt : Reg) : Profile :=
  let r := rimmTable rt
  rowProfile (ctrlTable 1) (funcTable 63) r false r.wreg r.selB .opNOP r.muxC r.pcSel r.i .exNOP

/-- The other opcodes. -/
def ctrlProfile (op : BitVec 6) (wreg : Bool) (oper : AluFun) (exception : ExceptionType) :
    Profile :=
  let c := ctrlTable op
  rowProfile c (funcTable 63) (rimmTable 31) false wreg c.selB oper c.muxC c.pcSel .NOP exception

/-- The exceptions of the function table's traps. -/
def trapExceptions : List ExceptionType := [.exNOP, .exEHB, .exSYSCALL, .exBREAK]

theorem trapException_mem (i : InstrType) (w : Word) : trapException i w ∈ trapExceptions := by
  unfold trapException trapExceptions
  split
  · simp
  · simp
  · split <;> simp
  · simp

/-- SYSCALL and BREAK are the only traps with an exception of their own. -/
theorem functProfile_sound : ∀ func : BitVec 6, ∀ e ∈ trapExceptions,
    (e ≠ .exNOP → (funcTable func).trap = true) → (functProfile func e).Sound := by
  decide +kernel

theorem rimmProfile_sound : ∀ rt : Reg, (rimmProfile rt).Sound := by
  decide

/-- The exceptions of the COP0 opcode, each with its write enable. -/
def cop0Decodes : List (ExceptionType × Bool) :=
  [(.exMTC0, true), (.exMFC0, false), (.exTLBR, true), (.exTLBWI, true), (.exTLBWR, true),
    (.exTLBP, true), (.exERET, true), (.exDERET, true), (.exWAIT, true), (.exRESV_INSTR, true),
    (.exEI, false), (.exDI, false)]

theorem cop0Decode_mem (w : Word) : cop0Decode w ∈ cop0Decodes := by
  unfold cop0Decode cop0Decodes
  split
  · simp
  · simp
  · split <;> simp
  · split <;> simp
  · simp

theorem cop0Profile_sound :
    ∀ p ∈ cop0Decodes, (ctrlProfile 0b010000 p.2 .opNOP p.1).Sound := by
  decide

/-- The operations of the special3 opcode, each with its exception. -/
def special3Decodes : List (AluFun × ExceptionType) :=
  [(.opSWAP, .exNOP), (.opSEB, .exNOP), (.opSEH, .exNOP), (.opNOP, .exNOP), (.opEXT, .exNOP),
    (.opINS, .exNOP), (.opNOP, .exRESV_INSTR)]

theorem special3Decode_mem (w : Word) :
    ((special3Decode w).1, (special3Decode w).2.2) ∈ special3Decodes := by
  unfold special3Decode special3Decodes
  split
  · split <;> simp
  · simp
  · simp
  · simp

theorem special3Profile_sound :
    ∀ p ∈ special3Decodes, (ctrlProfile 0b011111 false p.1 p.2).Sound := by
  decide

theorem special2Profile_sound :
    ∀ p ∈ [(AluFun.opMUL, ExceptionType.exNOP), (.opNOP, .exRESV_INSTR)],
      (ctrlProfile 0b011100 false p.1 p.2).Sound := by
  decide

/-- The exception of an opcode outside of the five with fields of their own. -/
def plainException (op : BitVec 6) : ExceptionType :=
  if op.toNat = 0b110000 then .exLL else if op.toNat = 0b111000 then .exSC else .exNOP

theorem plainProfile_sound : ∀ op : BitVec 6, op ≠ 0 → op ≠ 1 →
    (ctrlProfile op (ctrlTable op).wreg (ctrlTable op).oper (plainException op)).Sound := by
  decide +kernel

-- ---------------------------------------------------------------------------
-- Every instruction word
-- ---------------------------------------------------------------------------

theorem decode_zero_sound (w : Word) : (decode 0 w).profile.Sound := by
  let f := funcTable (fieldFunc w)
  let e : ExceptionType := if f.trap then trapException f.i w else .exNOP
  have he : e ∈ trapExceptions ∧ (e ≠ .exNOP → f.trap = true) := by
    cases ht : f.trap with
    | true => exact ⟨by simpa [e, ht] using trapException_mem f.i w, fun _ => rfl⟩
    | false => simp [e, ht, trapExceptions]
  exact functProfile_sound (fieldFunc w) e he.1 he.2

theorem decode_special2_sound (w : Word) : (decode 0b011100 w).profile.Sound := by
  by_cases hf : fieldFunc w = 0b000010#6
  · have h : (decode 0b011100 w).profile = ctrlProfile 0b011100 false .opMUL .exNOP := by
      show ctrlProfile 0b011100 false (if _ then _ else _) (if _ then _ else _) = _
      rw [if_pos hf, if_pos hf]
    rw [h]
    exact special2Profile_sound (.opMUL, .exNOP) (by simp)
  · have h : (decode 0b011100 w).profile = ctrlProfile 0b011100 false .opNOP .exRESV_INSTR := by
      show ctrlProfile 0b011100 false (if _ then _ else _) (if _ then _ else _) = _
      rw [if_neg hf, if_neg hf]
    rw [h]
    exact special2Profile_sound (.opNOP, .exRESV_INSTR) (by simp)

theorem decodeFunct_plain {op : BitVec 6} (w : Word) (h0 : op ≠ 0) (h1 : op ≠ 1) (h16 : op ≠ 16)
    (h28 : op ≠ 28) (h31 : op ≠ 31) :
    decodeFunct op w =
      let c := ctrlTable op
      { wreg := c.wreg, selB := c.selB, oper := c.oper, muxC := c.muxC, cSel := c.cSel,
        pcSel := c.pcSel, trapInstr := .NOP, exception := plainException op, cop0Reg := 0,
        cop0Sel := 0 } := by
  have hne : ∀ {a : BitVec 6}, op ≠ a → op.toNat ≠ a.toNat :=
    fun h he => h (BitVec.eq_of_toNat_eq he)
  unfold decodeFunct
  split
  · exact absurd ‹_› (hne h0)
  · exact absurd ‹_› (hne h1)
  · exact absurd ‹_› (hne h16)
  · exact absurd ‹_› (hne h28)
  · exact absurd ‹_› (hne h31)
  · rfl

theorem decode_plain {op : BitVec 6} (w : Word) (h0 : op ≠ 0) (h1 : op ≠ 1) (h16 : op ≠ 16)
    (h28 : op ≠ 28) (h31 : op ≠ 31) :
    (decode op w).profile =
      ctrlProfile op (ctrlTable op).wreg (ctrlTable op).oper (plainException op) := by
  simp only [decode, Decoded.profile, functWord, rimmWord, decodeFunct_plain w h0 h1 h16 h28 h31,
    if_neg h0, if_neg h1, ctrlProfile, rowProfile]

/-- Every instruction word decodes to a sound profile. -/
theorem decode_sound (op : BitVec 6) (w : Word) : (decode op w).profile.Sound := by
  by_cases h0 : op = 0
  · subst h0
    exact decode_zero_sound w
  by_cases h1 : op = 1
  · subst h1
    exact rimmProfile_sound (fieldRt w)
  by_cases h16 : op = 16
  · subst h16
    exact cop0Profile_sound _ (cop0Decode_mem w)
  by_cases h28 : op = 28
  · subst h28
    exact decode_special2_sound w
  by_cases h31 : op = 31
  · subst h31
    exact special3Profile_sound _ (special3Decode_mem w)
  rw [decode_plain w h0 h1 h16 h28 h31]
  exact plainProfile_sound op h0 h1

namespace Seq

variable (s : Seq)

theorem sound : s.dec.profile.Sound := decode_sound _ _

theorem isSC_iff : s.isSC = true ↔ s.dec.sig.exception = .exSC := beq_iff_eq

/-- SC is the instruction that leaves the flag of the link. -/
theorem isSC_iff_llbit : s.isSC = true ↔ s.dec.sig.muxC = .llbit :=
  s.isSC_iff.trans s.sound.sc

theorem bus_of_isSC (h : s.isSC = true) : s.dec.ctrl.aVal = false :=
  (s.sound.scBus (s.isSC_iff.mp h)).1

/-- An instruction that writes what it loads is on the data bus and reads. -/
theorem bus_of_mem (hw : s.dec.sig.wreg = false) (h : s.dec.sig.muxC = .mem) :
    s.dec.ctrl.aVal = false ∧ s.dec.ctrl.wmem = true := s.sound.load hw h

theorem not_isSC_of_mem (h : s.dec.sig.muxC = .mem) : s.isSC = false := by
  rw [← Bool.not_eq_true, s.isSC_iff_llbit, h]
  decide

/-- SC is no conditional move. -/
theorem unmoved_of_isSC (h : s.isSC = true) : s.unmoved = false := by
  rw [unmoved]
  cases hm : s.dec.move with
  | false => rfl
  | true =>
    have hu : s.dec.sig.muxC = .ula := (s.sound.move hm).1
    rw [s.isSC_iff_llbit.mp h] at hu
    cases hu

/-- LWL and LWR are loads. -/
theorem bus_of_merge (h : s.dec.memT.getLsbD 3 = true) :
    s.dec.ctrl.aVal = false ∧ s.dec.ctrl.wmem = true ∧ s.dec.sig.wreg = false ∧
      s.dec.sig.muxC = .mem := s.sound.merge h

/-- The loads that the stalls know leave their word through the memory mux. -/
theorem mem_of_isLoad (h : s.dec.isLoad = true) : s.dec.sig.muxC = .mem ∧ s.dec.move = false :=
  s.sound.isLoad h

end Seq

end Xinu.Cpu
