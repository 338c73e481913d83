import XinuCMips.Cpu.Shape

/-!
# Masked interrupts

A request is looked at while an instruction is in EX: `is_interr` marks it, and
the interrupt is taken when it leaves MEM. The requests are collected without
STATUS.IM, and STATUS may be written in between, by the instruction ahead.

* `entered_iff`       — every interrupt taken was accepted some cycles before;
* `permitted_iff`     — what it then finds in STATUS is what the cycle of the
  acceptance left there;
* `interrupts_masked` — **when all interrupts of a run are permitted.**
-/

namespace Xinu.Cpu

namespace Core

variable (i : Inputs) (c : Core)

/-- IP7..IP0 of the instruction in MEM. -/
def pending : BitVec 8 := c.mm.intReq ++ c.cause.swIrq

/-- Some request is pending with its own mask bit set, and interrupts are
enabled. -/
def Permitted : Prop :=
  (∃ n : Fin 8, c.pending.getLsbD n = true ∧ c.status.getLsbD (8 + n) = true) ∧
    c.status.getLsbD statusIE = true ∧ c.status.getLsbD statusEXL = false ∧
    c.status.getLsbD statusERL = false

/-- An interrupt goes from EX to MEM at the end of this cycle. -/
def accepts : Bool := !c.memStall i && c.exIsException i == .exInterr

/-- The instruction in MEM writes STATUS. -/
def writesStatus : Bool := (c.excpSignals i).update && (c.excpSignals i).updateReg == cop0regSTATUS

/-- STATUS as the instruction in MEM leaves it. -/
def statusAfter : Word := if c.writesStatus i then (c.excpSignals i).newStatus else c.status

/-- The requests as the instruction in MEM leaves them. -/
def pendingAfter : BitVec 8 := c.intReq i ++ (c.nextCause i).swIrq

/-- A request is enabled by its mask bit, and the instruction in MEM, if it
writes STATUS, leaves interrupts enabled. -/
def Unmasked : Prop :=
  (∃ n : Fin 8, (c.pendingAfter i).getLsbD n = true ∧ (c.statusAfter i).getLsbD (8 + n) = true) ∧
    (c.writesStatus i = true → (c.statusAfter i).getLsbD statusIE = true ∧
      (c.statusAfter i).getLsbD statusEXL = false ∧ (c.statusAfter i).getLsbD statusERL = false)

instance : Decidable c.Permitted := by
  unfold Permitted
  infer_instance

instance : Decidable (c.Unmasked i) := by
  unfold Unmasked
  infer_instance

variable {i c} {chip : Chip}

/-- An interrupt is taken in the first cycle in MEM that is not stalled. -/
theorem interruptTaken_iff :
    c.interruptTaken i = true ↔ c.mm.exception = .exInterr ∧ c.memStall i = false := by
  have hstall : c.memStall i = false ↔ (!romStall i && !ramStall i c) = true := by
    rw [memStall, Bool.or_eq_false_iff, Bool.and_eq_true, Bool.not_eq_true', Bool.not_eq_true']
    exact and_comm
  rw [hstall]
  constructor
  · intro h
    have hx : c.mm.exception = .exInterr := by
      by_contra hx
      simp only [interruptTaken, excpSignals, faultSignals] at h
      split at h <;> (repeat' split at h) <;> first | exact hx ‹_› | cases h
    refine ⟨hx, ?_⟩
    by_contra hs
    simp only [interruptTaken, excpSignals, hx] at h
    rw [if_neg hs] at h
    cases h
  · rintro ⟨hx, hs⟩
    simp only [interruptTaken, excpSignals, hx]
    rw [if_pos hs]

/-- A stalled interrupt waits in MEM, and writes nothing. -/
theorem stalled_step (h : c.memStall i = true) (hx : c.mm.exception = .exInterr) :
    (c.step chip i).mm = c.mm ∧ (c.step chip i).status = c.status ∧
      (c.step chip i).cause.swIrq = c.cause.swIrq := by
  have hupdate : (c.excpSignals i).update = false := by
    have hs : ¬(!romStall i && !ramStall i c) = true := by
      intro hs
      rw [Bool.and_eq_true, Bool.not_eq_true', Bool.not_eq_true'] at hs
      rw [memStall, hs.1, hs.2] at h
      cases h
    simp only [excpSignals, hx]
    rw [if_neg hs]
    rfl
  refine ⟨if_pos h, ?_, ?_⟩
  · simp only [step]
    rw [hupdate]
    rfl
  · simp only [step, nextCause]
    rw [hupdate]
    rfl

/-- What an accepted interrupt finds in the next cycle. -/
theorem accepted_step (h : c.accepts i = true) :
    (c.step chip i).mm.exception = .exInterr ∧ (c.step chip i).pending = c.pendingAfter i ∧
      (c.step chip i).status = c.statusAfter i := by
  simp only [accepts, Bool.and_eq_true, Bool.not_eq_true', beq_iff_eq] at h
  obtain ⟨hstall, hx⟩ := h
  have hmm : (c.step chip i).mm = c.toMM chip i := if_neg (by rw [hstall]; exact nofun)
  refine ⟨by rw [hmm]; exact hx, ?_, ?_⟩
  · rw [pending, hmm]
    rfl
  · simp only [step, statusAfter, writesStatus]
    rw [hstall, Bool.not_false, Bool.and_true]
    rfl

/-- Only an interrupt with interrupts enabled is accepted. -/
theorem enabled_of_accepts (hs : c.Shaped) (h : c.accepts i = true) :
    c.status.getLsbD statusIE = true ∧ c.status.getLsbD statusEXL = false ∧
      c.status.getLsbD statusERL = false := by
  simp only [accepts, Bool.and_eq_true, beq_iff_eq] at h
  have hi : c.isInterr i = true := by
    by_contra hno
    -- without `is_interr` the priority list leaves an interrupt to the decoder
    have hx : c.ex.exception = .exInterr := by
      have hx := h.2
      simp only [exIsException, memExcpType, if_neg hno] at hx
      split_ifs at hx
      exact hx
    have hown := hs.ex.own
    rw [hx] at hown
    cases hown
  simp only [isInterr, Bool.and_eq_true, Bool.not_eq_true'] at hi
  exact ⟨hi.1.1.2, hi.1.1.1.1.2, hi.1.1.1.2⟩

end Core

-- ---------------------------------------------------------------------------
-- From EX to the handler
-- ---------------------------------------------------------------------------

section Runs

variable (chip : Chip) (ins : Nat → Inputs) (c : Core)

/-- The interrupt in MEM in cycle `m` was accepted in cycle `n`, and waits since. -/
structure Carried (n m : Nat) : Prop where
  before : n < m
  accepted : (run chip ins c n).accepts (ins n) = true
  stalled : ∀ k, n < k → k < m → (run chip ins c k).memStall (ins k) = true

/-- The interrupt accepted in cycle `n` enters the handler in cycle `m`. -/
structure Entered (n m : Nat) : Prop extends Carried chip ins c n m where
  free : (run chip ins c m).memStall (ins m) = false

variable {chip ins c} {n m : Nat}

/-- An interrupt finds in MEM what the cycle of the acceptance has left. -/
theorem Carried.finds (h : Carried chip ins c n m) :
    (run chip ins c m).mm.exception = .exInterr ∧
      (run chip ins c m).pending = (run chip ins c n).pendingAfter (ins n) ∧
      (run chip ins c m).status = (run chip ins c n).statusAfter (ins n) := by
  obtain ⟨hlt, hacc, hstall⟩ := h
  induction m, hlt using Nat.le_induction with
  | base => exact Core.accepted_step hacc
  | succ m hle ih =>
    obtain ⟨hx, hp, hst⟩ := ih fun k hk hkm => hstall k hk (by omega)
    obtain ⟨hmm, hstatus, hsw⟩ :=
      @Core.stalled_step _ _ chip (hstall m (by omega) (by omega)) hx
    refine ⟨?_, ?_, hstatus.trans hst⟩
    · rw [← hx, ← hmm]
      rfl
    · rw [← hp, Core.pending, Core.pending, ← hmm, ← hsw]
      rfl

/-- Every interrupt in MEM was accepted, when the run began without one. -/
theorem carried_of_exInterr (h0 : c.mm.exception ≠ .exInterr)
    (h : (run chip ins c m).mm.exception = .exInterr) : ∃ n, Carried chip ins c n m := by
  induction m with
  | zero => exact absurd h h0
  | succ m ih =>
    by_cases hs : (run chip ins c m).memStall (ins m) = true
    · have hmm : (run chip ins c (m + 1)).mm = (run chip ins c m).mm := if_pos hs
      rw [hmm] at h
      obtain ⟨n, hn⟩ := ih h
      refine ⟨n, ⟨by have := hn.before; omega, hn.accepted, fun k hk hkm => ?_⟩⟩
      rcases Nat.lt_succ_iff_lt_or_eq.mp hkm with hlt | rfl
      · exact hn.stalled k hk hlt
      · exact hs
    · have hmm : (run chip ins c (m + 1)).mm = (run chip ins c m).toMM chip (ins m) := if_neg hs
      rw [hmm] at h
      refine ⟨m, ⟨Nat.lt_succ_self m, ?_, fun k hk hkm => by omega⟩⟩
      simp only [Core.accepts, Bool.and_eq_true, Bool.not_eq_true', beq_iff_eq]
      exact ⟨eq_false_of_ne_true hs, h⟩

/-- The interrupts that are taken are the accepted ones, once MEM is free. -/
theorem entered_iff (h0 : c.mm.exception ≠ .exInterr) :
    (run chip ins c m).interruptTaken (ins m) = true ↔ ∃ n, Entered chip ins c n m := by
  rw [Core.interruptTaken_iff]
  constructor
  · rintro ⟨hx, hfree⟩
    obtain ⟨n, hn⟩ := carried_of_exInterr h0 hx
    exact ⟨n, hn, hfree⟩
  · rintro ⟨n, hn⟩
    exact ⟨hn.finds.1, hn.free⟩

/-- An interrupt is permitted exactly when the cycle of its acceptance leaves a request
that is enabled. -/
theorem permitted_iff (hs : c.Shaped) (h : Carried chip ins c n m) :
    (run chip ins c m).Permitted ↔ (run chip ins c n).Unmasked (ins n) := by
  obtain ⟨_, hp, hst⟩ := h.finds
  unfold Core.Permitted Core.Unmasked
  rw [hp, hst]
  refine and_congr_right fun _ => ⟨fun he _ => he, fun he => ?_⟩
  by_cases hw : (run chip ins c n).writesStatus (ins n) = true
  · exact he hw
  · rw [Core.statusAfter, if_neg hw]
    exact Core.enabled_of_accepts (shaped_run hs n) h.accepted

end Runs

/-- In every run from reset, every interrupt that enters the handler is permitted exactly
when each was accepted with a request that is enabled by its mask bit, and STATUS was
not changed behind it. -/
theorem interrupts_masked (chip : Chip) (ins : Nat → Inputs) (regFile : Reg → Word) (hi lo : Word)
    (mem : BitVec 30 → Word) :
    (∀ m, (run chip ins (Core.reset regFile hi lo mem) m).interruptTaken (ins m) = true →
        (run chip ins (Core.reset regFile hi lo mem) m).Permitted) ↔
      ∀ n m, Entered chip ins (Core.reset regFile hi lo mem) n m →
        (run chip ins (Core.reset regFile hi lo mem) n).Unmasked (ins n) := by
  have hs := Core.reset_shaped regFile hi lo mem
  have h0 : (Core.reset regFile hi lo mem).mm.exception ≠ .exInterr := nofun
  constructor
  · intro h n m he
    exact (permitted_iff hs he.toCarried).mp (h m ((entered_iff h0).mpr ⟨n, he⟩))
  · intro h m ht
    obtain ⟨n, he⟩ := (entered_iff h0).mp ht
    exact (permitted_iff hs he.toCarried).mpr (h n m he)

/-- Interrupts are enabled, with all of them masked. -/
def enableMasked : Chip where
  undef := 0
  rom a := match a.toNat with
    | 0 => 0x34010001  -- ori  $1, $0, 1
    | 3 => 0x40816000  -- mtc0 $1, $12
    | _ => 0

/-- Every interrupt line is asserted in every cycle. -/
def allLines : Nat → Inputs := fun _ =>
  { iWait := true, dWait := true, irq := 0b111111, nmi := false, iBusErr := true, dBusErr := true,
    cop0 := fun _ => 0 }

/-- The handler is entered although STATUS.IM is zero. -/
theorem interrupts_not_masked :
    (run enableMasked allLines (Core.reset (fun _ => 0) 0 0 fun _ => 0) 9).interruptTaken
        (allLines 9) = true ∧
      ¬(run enableMasked allLines (Core.reset (fun _ => 0) 0 0 fun _ => 0) 9).Permitted := by
  decide +kernel

end Xinu.Cpu
