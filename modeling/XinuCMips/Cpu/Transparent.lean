import XinuCMips.Cpu.Advance

/-!
# Forwarding is transparent

From a core whose pipeline is empty behind RF, every run without exceptions and
slips follows the sequential machine, so that every operand is the one that the
instructions before it have left. Where the producers are instructions whose result
is in `MM_result` or in the data memory no slip is possible; the other producers
slip in the ways that `Core.Slips` lists.
-/

namespace Xinu.Cpu

open InOrder

-- ---------------------------------------------------------------------------
-- Where a run begins
-- ---------------------------------------------------------------------------

namespace Core

/-- The pipeline is empty behind RF, as after `rst` and at the first instruction of
an exception handler. -/
structure Fresh (c : Core) : Prop where
  ex : ExIdle c.ex
  exHI : writesHI c.ex.oper = false
  exLO : writesLO c.ex.oper = false
  mm : MmIdle c.mm
  noError : c.mm.addrError = false
  wb : c.wb.wreg = true
  noAnnul : c.annul2 = false
  noKill : c.nullifyMMInt = false

theorem reset_fresh (regFile : Reg → Word) (hi lo : Word) (mem : BitVec 30 → Word) :
    (reset regFile hi lo mem).Fresh :=
  ⟨⟨rfl, rfl, rfl, rfl⟩, rfl, rfl, ⟨rfl, rfl, rfl, rfl⟩, rfl, rfl, rfl, rfl⟩

/-- The sequential machine at the instruction in RF. -/
def sequential (c : Core) : Seq :=
  { instr := c.rf.instr, pc := c.rf.pcIncd - 4, npc := c.pc, regs := c.regFile, hi := c.hi,
    lo := c.lo, mem := c.mem, llBit := c.llScBit, llAddr := c.llAddr }

/-- A fresh core follows the sequential machine that starts with it. -/
theorem Fresh.follows {chip : Chip} {c : Core} (h : c.Fresh) {s : Nat → Seq}
    (hs : s 0 = c.sequential) : Follows chip s Flight.start c := by
  have hpatch : ∀ r v, c.patched r v = v := by
    intro r v
    rw [Core.patched, Core.wbWrites, h.wb]
    rfl
  -- the stages behind RF hold no instruction
  have hnone : ∀ {p : Prop}, (0 : Nat) = 0 + 1 → p := fun he => absurd he (by decide)
  exact
    { ordered := Flight.start_ordered, instr := by rw [Flight.start, hs]; rfl,
      pcIncd := by
        rw [Flight.start, hs]
        exact (BitVec.sub_add_cancel _ _).symm,
      npc := by rw [Flight.start, hs]; rfl,
      quiet := by rw [h.mm.exception]; rfl,
      noError := h.noError, noAnnul := h.noAnnul, noKill := h.noKill,
      exLive := hnone, exIdle := fun _ => h.ex,
      exBubble := fun _ =>
        ⟨fun hw => absurd (h.exHI.symm.trans hw) (by decide),
          fun hw => absurd (h.exLO.symm.trans hw) (by decide)⟩,
      exA := hnone, exB := hnone, mmLive := hnone, mmIdle := fun _ => h.mm, mmB := hnone,
      loads := hnone,
      regs := fun r _ => by
        rw [hpatch, Flight.start, hs]
        rfl,
      mem := by
        rw [Follows.memWritten_idle h.mm, Flight.start, hs]
        rfl,
      hi := Or.inr (by rw [Flight.start, hs]; rfl),
      lo := Or.inr (by rw [Flight.start, hs]; rfl),
      link := Or.inl (by rw [Flight.start, hs]; exact ⟨rfl, rfl⟩) }

end Core

-- ---------------------------------------------------------------------------
-- Runs
-- ---------------------------------------------------------------------------

section Runs

variable (chip : Chip) (ins : Nat → Inputs) (c : Core)

/-- The memories hold the pipeline in cycle `n`. -/
def holds (n : Nat) : Bool := (run chip ins c n).memStall (ins n)

/-- A hazard holds RF in cycle `n`. -/
def bubbles (n : Nat) : Bool := (run chip ins c n).hazard (ins n)

/-- Which instruction each stage holds in cycle `n`. -/
def counters (n : Nat) : Flight := flight (holds chip ins c) (bubbles chip ins c) n

open Classical in
/-- What coprocessor 0 answers the instruction `k`, in the cycle in which it leaves
MEM. -/
noncomputable def answers (k : Nat) : Word :=
  if h : ∃ n, Leaves (holds chip ins c) (bubbles chip ins c) k n then
    (run chip ins c h.choose).mmCop0Val (ins h.choose)
  else 0

/-- The state of the sequential machine before the instruction `k`. -/
noncomputable def program (k : Nat) : Seq := c.sequential.after chip (answers chip ins c) k

variable {chip ins c}

theorem answers_eq {n : Nat} (hm : holds chip ins c n = false)
    (hl : (counters chip ins c n).ex = (counters chip ins c n).mm + 1) :
    answers chip ins c (counters chip ins c n).mm = (run chip ins c n).mmCop0Val (ins n) := by
  have hleaves : Leaves (holds chip ins c) (bubbles chip ins c) (counters chip ins c n).mm n :=
    ⟨hm, rfl, hl⟩
  have hex : ∃ n', Leaves (holds chip ins c) (bubbles chip ins c) (counters chip ins c n).mm n' :=
    ⟨n, hleaves⟩
  -- an instruction leaves MEM once
  rw [answers, dif_pos hex, Leaves.unique _ _ hex.choose_spec hleaves]

/-- A run without exceptions and slips follows the sequential machine. -/
theorem follows_run (hf : c.Fresh) (n : Nat)
    (hcalm : ∀ m < n, (run chip ins c m).Calm (ins m))
    (hslip : ∀ m < n, ¬(run chip ins c m).Slips (counters chip ins c m) (ins m)) :
    Follows chip (program chip ins c) (counters chip ins c n) (run chip ins c n) := by
  induction n with
  | zero => exact hf.follows rfl
  | succ n ih =>
    have h := ih (fun m hm => hcalm m (Nat.lt_succ_of_lt hm))
      (fun m hm => hslip m (Nat.lt_succ_of_lt hm))
    have hn := Nat.lt_succ_self n
    show Follows chip _ ((counters chip ins c n).step (holds chip ins c n)
      (bubbles chip ins c n)) ((run chip ins c n).step chip (ins n))
    cases hm : holds chip ins c n with
    | true => exact h.held hm
    | false =>
      exact h.moves (fun _ => rfl) (hcalm n hn) hm (hslip n hn) (answers_eq hm)

end Runs

-- ---------------------------------------------------------------------------
-- Operands
-- ---------------------------------------------------------------------------

/-- Every operand that the core uses in a cycle is that of the sequential machine:
`s k` is the state before the instruction `k`, and the counters `f` tell which one
each stage holds. In a cycle of wait states EX and RF do not use their operands. -/
structure OperandsExact (chip : Chip) (s : Nat → Seq) (f : Flight) (i : Inputs) (c : Core) :
    Prop where
  fetched : c.rf.instr = (s f.rf).instr
  aluA : c.memStall i = false → f.rf = f.ex + 1 → readsA (s f.ex).dec.sig.oper = true →
    c.aluInpA i = (s f.ex).opA
  aluB : c.memStall i = false → f.rf = f.ex + 1 → readsB (s f.ex).dec.sig.oper = true →
    (s f.ex).dec.sig.selB = false → c.aluFwdB i = (s f.ex).opB
  address : c.memStall i = false → f.rf = f.ex + 1 → (s f.ex).dec.ctrl.aVal = false →
    c.vAddr i = (s f.ex).addr
  datum : f.ex = f.mm + 1 → (s f.mm).storing = true → c.dataOut chip = (s f.mm).opB
  merged : f.ex = f.mm + 1 → (s f.mm).dec.memT.getLsbD 3 = true → c.mmBData = (s f.mm).opB
  comparandA : c.memStall i = false → c.hazard i = false →
    (s f.rf).dec.sig.pcSel = .branch → c.eqFwdA i = (s f.rf).opA
  comparandB : c.memStall i = false → c.hazard i = false →
    (s f.rf).dec.sig.pcSel = .branch → (s f.rf).dec.readsRt = true → c.eqFwdB i = (s f.rf).opB
  target : c.memStall i = false → c.hazard i = false →
    (s f.rf).dec.sig.pcSel = .jr → c.eqFwdA i = (s f.rf).opA

/-- A cycle without a slip uses the operands of the sequential machine. -/
theorem Follows.operandsExact {chip : Chip} {i : Inputs} {c : Core} {s : Nat → Seq} {f : Flight}
    {answers : Nat → Word} (h : Follows chip s f c)
    (hs : ∀ k, s (k + 1) = (s k).exec chip (answers k))
    (hans : c.memStall i = false → f.ex = f.mm + 1 → answers f.mm = c.mmCop0Val i)
    (hslip : ¬c.Slips f i) : OperandsExact chip s f i c := by
  have hx : c.memStall i = false → f.rf = f.ex + 1 → ExSound c :=
    fun hm => Follows.exSound_of hm hslip
  have hr : c.memStall i = false → c.hazard i = false → RfSound i c :=
    fun hm hz => Follows.rfSound_of hm hz hslip
  exact
    { fetched := h.instr,
      aluA := fun hm hl => h.aluInpA_eq hs hl (hans hm) (hx hm hl),
      aluB := fun hm hl => h.aluFwdB_eq hs hl (hans hm) (hx hm hl),
      address := fun hm hl => h.vAddr_eq hs hl (hans hm) (hx hm hl),
      datum := fun hl hst => by
        have hmm := h.mmLive hl
        have hst' := hst
        simp only [Seq.storing, Bool.and_eq_true, Bool.not_eq_true'] at hst'
        have hd := h.mmB hl (by rw [Seq.datum, hst'.1.1, hst'.1.2]; rfl)
        rw [Core.dataOut, hmm.wrmem, hmm.aVal, hst'.1.1, hst'.1.2, hst'.2]
        exact hd,
      merged := fun hl h3 => by
        obtain ⟨hbus, hw, hwreg, hmux⟩ := (s f.mm).bus_of_merge h3
        have hd : (s f.mm).datum = true := by rw [Seq.datum, hbus, h3, Bool.or_true]; rfl
        exact h.mmBData_eq hl hd hwreg ((s f.mm).not_isSC_of_mem hmux),
      comparandA := fun hm hz hb => (h.eqFwd_eq hs hb (hans hm) (hx hm) (hr hm hz)).1,
      comparandB := fun hm hz hb => (h.eqFwd_eq hs hb (hans hm) (hx hm) (hr hm hz)).2,
      target := fun hm hz hj => h.fwdJump_eq hs hj (hans hm) (hr hm hz) }

-- ---------------------------------------------------------------------------
-- Plain producers
-- ---------------------------------------------------------------------------

namespace Seq

variable (s : Seq)

/-- The instruction uses the register `r`: in the ALU, in an address, as the datum of
a store, to merge a load into, in a branch, or as the target of a jump. -/
def uses (r : Reg) : Bool :=
  s.dec.aRs == r &&
      (readsA s.dec.sig.oper || s.dec.sig.pcSel == .branch || s.dec.sig.pcSel == .jr) ||
    s.dec.aRt == r &&
      (readsB s.dec.sig.oper && !s.dec.sig.selB || s.datum ||
        s.dec.sig.pcSel == .branch && s.dec.readsRt)

/-- The instruction is an ALU instruction other than a conditional move, MFHI, MFLO,
MUL, or one of the loads LB, LBU, LH, LHU, LW, LWL and LWR. -/
def plain : Bool :=
  s.dec.isLoad ||
    !s.dec.move && (s.dec.sig.muxC == .ula || s.dec.sig.muxC == .hi || s.dec.sig.muxC == .lo)

end Seq

/-- The values that the instruction `k` leaves to the next two, which the register
bank cannot bring them yet, come from a plain producer. A link of LL is no plain
value either. -/
structure PlainlyFed (s : Nat → Seq) (k : Nat) : Prop where
  next : ∀ r, (s k).names r = true → (s (k + 1)).uses r = true → (s k).plain = true
  second : ∀ r, (s k).names r = true → (s (k + 1)).names r = false →
    (s (k + 2)).uses r = true → (s k).plain = true
  link : (s k).isLL = true → (s (k + 1)).isSC = false

namespace Follows

variable {chip : Chip} {i : Inputs} {c : Core} {s : Nat → Seq} {f : Flight}

/-- What a plain producer in MEM leaves is where the forwarding looks for it. -/
theorem plain_forwards (hm : MmHolds chip (s f.mm) c.mm) (hp : (s f.mm).plain = true) :
    c.unforwarded = false ∧ c.linkedLoad = false ∧ c.mm.isSC = false ∧ c.mm.move = false := by
  have hsc := (s f.mm).isSC_iff_llbit
  unfold Core.unforwarded Core.linkedLoad
  rw [hm.muxC, hm.isLoad, hm.move, hm.isSC]
  simp only [Seq.plain, Bool.or_eq_true, Bool.and_eq_true, Bool.not_eq_true', beq_iff_eq] at hp
  rcases hp with hload | ⟨hmove, hmux⟩
  · obtain ⟨hmux, hmove⟩ := (s f.mm).mem_of_isLoad hload
    rw [hmux] at hsc ⊢
    rw [hload, hmove]
    refine ⟨rfl, rfl, ?_, rfl⟩
    rw [← Bool.not_eq_true, hsc]
    decide
  · have hne : (s f.mm).dec.sig.muxC ≠ .pc8 ∧ (s f.mm).dec.sig.muxC ≠ .cop0 ∧
        (s f.mm).dec.sig.muxC ≠ .mem ∧ (s f.mm).dec.sig.muxC ≠ .llbit := by
      rcases hmux with (h | h) | h <;> rw [h] <;> decide
    refine ⟨?_, ?_, ?_, hmove⟩
    · rw [hmove, beq_eq_false_iff_ne.mpr hne.1, beq_eq_false_iff_ne.mpr hne.2.1]
      rfl
    · rw [beq_eq_false_iff_ne.mpr hne.2.2.1, Bool.false_and]
    · rw [← Bool.not_eq_true, hsc]
      exact hne.2.2.2

/-- A register that EX uses and MEM writes. -/
theorem fed_ex (h : Follows chip s f c) (hp : ∀ k < f.rf, PlainlyFed s k)
    (hl : f.rf = f.ex + 1) {r : Reg} (hw : c.mmWrites r = true)
    (hu : (s f.ex).uses r = true) :
    c.unforwarded = false ∧ c.linkedLoad = false ∧ c.mm.isSC = false ∧ c.mm.move = false := by
  have hlm := h.mm_live_of_writes hw
  have hnames : (s f.mm).names r = true := by rw [← h.mmWrites_live hlm, hw]
  rw [hlm] at hu
  exact plain_forwards (h.mmLive hlm) ((hp f.mm (by omega)).next r hnames hu)

/-- A register that RF uses, MEM writes, and EX leaves alone. -/
theorem fed_rf (h : Follows chip s f c) (hp : ∀ k < f.rf, PlainlyFed s k) {r : Reg}
    (hw : c.mmWrites r = true) (hx : c.exWrites i r = false) (hu : (s f.rf).uses r = true) :
    c.unforwarded = false ∧ c.linkedLoad = false ∧ c.mm.isSC = false ∧ c.mm.move = false := by
  have hlm := h.mm_live_of_writes hw
  have hnames : (s f.mm).names r = true := by rw [← h.mmWrites_live hlm, hw]
  refine plain_forwards (h.mmLive hlm) ?_
  rcases h.ordered.ex with hidle | hl
  · -- behind a bubble RF holds the next instruction
    rw [hidle, hlm] at hu
    exact (hp f.mm (by omega)).next r hnames hu
  · rw [h.exWrites_live hl, hlm] at hx
    rw [hl, hlm] at hu
    exact (hp f.mm (by omega)).second r hnames hx hu

/-- Plain producers never slip. -/
theorem not_slips (h : Follows chip s f c) (hp : ∀ k < f.rf, PlainlyFed s k) :
    ¬c.Slips f i := by
  have hdec : c.dec i = (s f.rf).dec := h.dec_eq
  rintro ⟨-, ⟨hl, hex | hsc⟩ | ⟨hz, hrf⟩⟩
  · have he := h.exLive hl
    simp only [Core.exSlips, Core.aluSlip, he.oper, he.selB, he.aVal, he.wrmem, he.memT, he.aRs,
      he.aRt, Bool.or_eq_true, Bool.and_eq_true] at hex
    rcases hex with (⟨hA, hw, hs⟩ | ⟨⟨hB, hsel⟩, hw, hs⟩) | ⟨⟨⟨⟨hbus, hd⟩, hw⟩, hmove⟩, -⟩
    · obtain ⟨hu, hll, -⟩ := h.fed_ex hp hl hw (by simp [Seq.uses, hA])
      simp [hu, hll] at hs
    · obtain ⟨hu, hll, -⟩ := h.fed_ex hp hl hw (by simp_all [Seq.uses])
      simp [hu, hll] at hs
    · obtain ⟨-, -, -, hm⟩ := h.fed_ex hp hl hw (by simp_all [Seq.uses, Seq.datum])
      rw [hm] at hmove
      cases hmove
  · have he := h.exLive hl
    simp only [Core.scSlips, Bool.and_eq_true, beq_iff_eq] at hsc
    rcases h.ordered.mm with hidle | hlm
    · rw [(h.mmIdle hidle).exception] at hsc
      cases hsc.1.2
    · have hll : (s f.mm).isLL = true := by
        rw [Seq.isLL, ← (h.mmLive hlm).exception, hsc.1.2]
        rfl
      have hno := (hp f.mm (by omega)).link hll
      rw [← hlm, Seq.isSC, ← he.exception] at hno
      rw [Core.isSC, hno] at hsc
      cases hsc.1.1
  · simp only [Core.rfSlips, Core.branchSlip, hdec, Bool.or_eq_true, Bool.and_eq_true,
      Bool.not_eq_true', beq_iff_eq] at hrf
    rcases hrf with ⟨hb, ⟨⟨hx, hw⟩, hs⟩ | ⟨hrt, ⟨hx, hw⟩, hs⟩⟩ | ⟨⟨hj, hw⟩, hs⟩
    · have := (h.fed_rf hp hw hx (by simp [Seq.uses, hb])).1
      rw [this] at hs
      cases hs
    · have := (h.fed_rf hp hw hx (by simp [Seq.uses, hb, hrt])).1
      rw [this] at hs
      cases hs
    · obtain ⟨hx, -⟩ := h.jump_unstalled hj hz
      obtain ⟨hu, hll, hsc, -⟩ := h.fed_rf hp hw hx (by simp [Seq.uses, hj])
      simp [hu, hll, hsc] at hs

end Follows

-- ---------------------------------------------------------------------------
-- Main results
-- ---------------------------------------------------------------------------

section Runs

variable {chip : Chip} {ins : Nat → Inputs} {c : Core}

/-- Where the producers are plain, a run without exceptions has no slips. -/
theorem no_slips_of_plain (hf : c.Fresh) (n : Nat)
    (hcalm : ∀ m < n, (run chip ins c m).Calm (ins m))
    (hp : ∀ k < (counters chip ins c n).rf, PlainlyFed (program chip ins c) k) :
    ∀ m ≤ n, ¬(run chip ins c m).Slips (counters chip ins c m) (ins m) := by
  intro m
  -- the run up to cycle `m` follows the sequential machine, so that cycle `m` cannot slip
  induction m using Nat.strong_induction_on with
  | _ m ih =>
    intro hm
    have hfollow := follows_run hf m (fun m' hm' => hcalm m' (by omega))
      (fun m' hm' => ih m' hm' (by omega))
    refine hfollow.not_slips fun k hk => hp k (Nat.lt_of_lt_of_le hk ?_)
    exact flight_rf_mono _ _ hm

/-- Where the producers are plain, every operand that the core uses in a run without
exceptions is the one that the instructions before it define, for every pattern of
wait states. -/
theorem forwarding_transparent (hf : c.Fresh) (n : Nat)
    (hcalm : ∀ m < n, (run chip ins c m).Calm (ins m))
    (hp : ∀ k < (counters chip ins c n).rf, PlainlyFed (program chip ins c) k) :
    OperandsExact chip (program chip ins c) (counters chip ins c n) (ins n)
      (run chip ins c n) :=
  (follows_run hf n hcalm fun m hm => no_slips_of_plain hf n hcalm hp m (Nat.le_of_lt hm))
    |>.operandsExact (fun _ => rfl) answers_eq (no_slips_of_plain hf n hcalm hp n (Nat.le_refl n))

end Runs

/-- A store, a load and their uses. -/
def loadUse : Chip where
  undef := 0
  rom a := match a.toNat with
    | 0 => 0x24010008  -- addiu $1, $0, 8
    | 1 => 0xac010004  -- sw    $1, 4($0)
    | 2 => 0x8c020004  -- lw    $2, 4($0)
    | 3 => 0x00411821  -- addu  $3, $2, $1
    | _ => 0           -- nop

/-- Quiet inputs with the data memory ready in the cycles that `ready` tells. -/
def quietInputs (ready : Nat → Bool) (n : Nat) : Inputs :=
  { iWait := true, dWait := ready n, irq := 0, nmi := false, iBusErr := true, dBusErr := true,
    cop0 := fun _ => 0 }

/-- The core after reset with the register `r` holding `r`, and an empty memory. -/
def numbered : Core := .reset (fun r => r.zeroExtend 32) 0 0 (fun _ => 0)

theorem numbered_fresh : numbered.Fresh := Core.reset_fresh _ _ _ _

/-- The sum waits for the load, and the load for the memory. -/
theorem forwarding_transparent_load :
    OperandsExact loadUse (program loadUse (quietInputs (· % 3 != 2)) numbered)
      (counters loadUse (quietInputs (· % 3 != 2)) numbered 7) (quietInputs (· % 3 != 2) 7)
      (run loadUse (quietInputs (· % 3 != 2)) numbered 7) := by
  have hplain : ∀ k < 5, (program loadUse (quietInputs (· % 3 != 2)) numbered k).plain = true ∨
      ∀ r, (program loadUse (quietInputs (· % 3 != 2)) numbered k).names r = false := by
    decide +kernel
  have hll : ∀ k < 5, (program loadUse (quietInputs (· % 3 != 2)) numbered k).isLL = false := by
    decide +kernel
  have hplain' : ∀ k < 5, ∀ r,
      (program loadUse (quietInputs (· % 3 != 2)) numbered k).names r = true →
      (program loadUse (quietInputs (· % 3 != 2)) numbered k).plain = true := by
    intro k hk r hn
    refine (hplain k hk).resolve_right fun hno => ?_
    rw [hno r] at hn
    cases hn
  refine forwarding_transparent numbered_fresh 7 (by decide +kernel) fun k hk => ?_
  have hk5 : k < 5 := hk
  refine ⟨fun r hn _ => hplain' k hk5 r hn, fun r hn _ _ => hplain' k hk5 r hn, fun h => ?_⟩
  rw [hll k hk5] at h
  cases h

section Runs

variable {chip : Chip} {ins : Nat → Inputs} {c : Core}

/-- In every run without exceptions and slips, from a core whose pipeline is empty
behind RF, every operand is the one that the instructions before it define. -/
theorem operands_exact_without_slip (hf : c.Fresh) (n : Nat)
    (hcalm : ∀ m < n, (run chip ins c m).Calm (ins m))
    (hslip : ∀ m ≤ n, ¬(run chip ins c m).Slips (counters chip ins c m) (ins m)) :
    OperandsExact chip (program chip ins c) (counters chip ins c n) (ins n)
      (run chip ins c n) :=
  (follows_run hf n hcalm fun m hm => hslip m (Nat.le_of_lt hm)).operandsExact
    (fun _ => rfl) answers_eq (hslip n (Nat.le_refl n))

end Runs

/-- A move that is made, and a sum of its register with itself. -/
def madeMove : Chip where
  undef := 0
  rom a := match a.toNat with
    | 0 => 0x0040080a  -- movz $1, $2, $0
    | 1 => 0x00212021  -- addu $4, $1, $1
    | _ => 0

theorem operands_exact_made_move :
    OperandsExact madeMove (program madeMove (quietInputs fun _ => true) numbered)
      (counters madeMove (quietInputs fun _ => true) numbered 3) (quietInputs (fun _ => true) 3)
      (run madeMove (quietInputs fun _ => true) numbered 3) :=
  operands_exact_without_slip numbered_fresh 3 (by decide +kernel) (by decide +kernel)

/-- A move that is not made, and a sum of its register with itself. -/
def unmadeMove : Chip where
  undef := 0
  rom a := match a.toNat with
    | 0 => 0x0043080a  -- movz $1, $2, $3
    | 1 => 0x00212021  -- addu $4, $1, $1
    | _ => 0

/-- The sum after a move that is not made adds zeros, and not what the register
holds. -/
theorem operands_not_exact : numbered.Fresh ∧
    (∀ m < 3, (run unmadeMove (quietInputs fun _ => true) numbered m).Calm
      (quietInputs (fun _ => true) m)) ∧
    ¬OperandsExact unmadeMove (program unmadeMove (quietInputs fun _ => true) numbered)
      (counters unmadeMove (quietInputs fun _ => true) numbered 3) (quietInputs (fun _ => true) 3)
      (run unmadeMove (quietInputs fun _ => true) numbered 3) := by
  refine ⟨numbered_fresh, by decide +kernel, fun h => ?_⟩
  have hA := h.aluA (by decide +kernel) (by decide +kernel) (by decide +kernel)
  have hcore : (run unmadeMove (quietInputs fun _ => true) numbered 3).aluInpA
      (quietInputs (fun _ => true) 3) = 0 := by decide +kernel
  have hseq : (program unmadeMove (quietInputs fun _ => true) numbered
      (counters unmadeMove (quietInputs fun _ => true) numbered 3).ex).opA = 1 := by
    decide +kernel
  rw [hcore, hseq] at hA
  exact absurd hA (by decide)

end Xinu.Cpu
