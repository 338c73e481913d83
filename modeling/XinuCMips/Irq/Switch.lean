import XinuCMips.Irq.Handlers
import XinuCMips.Lib.Histories

/-!
# Interrupt masks and the context switch: `intutils.S`, `ctxsw.S`

Kernel code runs between a `disable` and the `restore` of the mask that it gave. A process
that gives up the CPU there goes on behind its call of `ctxsw` later, still between the two.
`ctxsw` was to enable interrupts only for a process that has just been created; the branch
that tells such a process from others is commented out.

* `run_disable`, `run_restore`, `run_ctxsw` — what becomes of `STATUS`;
* `masks_kept_without_slip`               — **when the mask of every process is kept.**
-/

namespace Xinu.Irq

open Mips

-- ---------------------------------------------------------------------------
-- The code
-- ---------------------------------------------------------------------------

/-- `enable`. An `ehb` is a `nop`. -/
def enable : List Instr :=
  [.mfc0 .a1 .STATUS,
   li .a2 STATUS_IE,
   .or .v0 .a1 .a2,
   .mtc0 .v0 .STATUS,
   .nop]

/-- `disable`: the previous status is returned. -/
def disable : List Instr :=
  [.mfc0 .v0 .STATUS,
   li .a0 (~~~STATUS_IE),
   .and .a0 .v0 .a0,
   .mtc0 .a0 .STATUS,
   .nop]

/-- `restore`, with the mask in `a0`. -/
def restore : List Instr :=
  [.mfc0 .a1 .STATUS,
   .nop,
   .or .v0 .a1 .a0,
   .mtc0 .v0 .STATUS,
   .nop]

-- mips.h
def CONTEXT : BitVec 16 := 64
def S0_CON : BitVec 16 := 16
def S1_CON : BitVec 16 := 20
def S2_CON : BitVec 16 := 24
def S3_CON : BitVec 16 := 28
def S4_CON : BitVec 16 := 32
def S5_CON : BitVec 16 := 36
def S6_CON : BitVec 16 := 40
def S7_CON : BitVec 16 := 44
def S8_CON : BitVec 16 := 48
def S9_CON : BitVec 16 := 52

/-- `ctxsw` on the stack of the old process. -/
def saveContext : List Instr :=
  [.addiu .sp .sp (-CONTEXT),
   .sw .ra (CONTEXT - 4) .sp,
   .sw .ra (CONTEXT - 8) .sp,
   .sw .s0 S0_CON .sp,
   .sw .s1 S1_CON .sp,
   .sw .s2 S2_CON .sp,
   .sw .s3 S3_CON .sp,
   .sw .s4 S4_CON .sp,
   .sw .s5 S5_CON .sp,
   .sw .s6 S6_CON .sp,
   .sw .s7 S7_CON .sp,
   .sw .gp S8_CON .sp,
   .sw .fp S9_CON .sp,
   .sw .sp 0 .a0]

/-- `ctxsw` on the stack of the new process. -/
def loadContext : List Instr :=
  [.lw .sp 0 .a1,
   .nop,
   .lw .s0 S0_CON .sp,
   .lw .s1 S1_CON .sp,
   .lw .s2 S2_CON .sp,
   .lw .s3 S3_CON .sp,
   .lw .s4 S4_CON .sp,
   .lw .s5 S5_CON .sp,
   .lw .s6 S6_CON .sp,
   .lw .s7 S7_CON .sp,
   .lw .gp S8_CON .sp,
   .lw .fp S9_CON .sp,
   .lw .a0 CONTEXT .sp,
   .lw .a1 (CONTEXT + 4) .sp,
   .lw .a2 (CONTEXT + 8) .sp,
   .lw .a3 (CONTEXT + 12) .sp,
   .lw .v0 (CONTEXT - 4) .sp,
   .lw .ra (CONTEXT - 8) .sp,
   .addiu .sp .sp CONTEXT]

/-- If this is a newly created process, ensure it starts with interrupts enabled. The branch
around, for a process that was switched out, is not there. -/
def enableNew : List Instr :=
  [.mfc0 .v1 .STATUS,
   .ori .v1 .v1 STATUS_IE,
   .addiu .t0 .zero (~~~STATUS_EXL),
   .and .v1 .v1 .t0,
   .nop,
   .mtc0 .v1 .STATUS]

/-- `ctxsw`, up to its `jr v0`. -/
def ctxsw : List Instr := saveContext ++ loadContext ++ enableNew

/-- From the return of a handler to the `eret`. -/
def leave : List Instr := afterHandler ++ [setStatus] ++ restoreRegs ++ dismiss

/-- `STATUS.IE` and `STATUS.EXL`. -/
def ie (s : Cpu) : Bool := (s.cop0 .STATUS).getLsbD 0
def exl (s : Cpu) : Bool := (s.cop0 .STATUS).getLsbD 1

def setCop0 (s : Cpu) (c : Cop0) (v : Word) : Cpu := { s with cop0 := Function.update s.cop0 c v }

/-- An interrupt is taken: the core enters exception level. -/
def take (s : Cpu) (cause epc : Word) : Cpu :=
  setCop0 (setCop0 (setCop0 s .CAUSE cause) .EPC epc) .STATUS
    (s.cop0 .STATUS ||| STATUS_EXL.setWidth 32)

/-- The core leaves exception level. -/
def eret (s : Cpu) : Cpu := setCop0 s .STATUS (s.cop0 .STATUS &&& ~~~STATUS_EXL.setWidth 32)

-- ---------------------------------------------------------------------------
-- What becomes of `STATUS`
-- ---------------------------------------------------------------------------

variable {s : Cpu}

theorem run_disable (s : Cpu) :
    ie (s.run disable) = false ∧ (s.run disable).gpr .v0 = s.cop0 .STATUS := by
  have hnot : (~~~STATUS_IE).signExtend 32 = ~~~1#32 := by decide
  constructor
  · simp [ie, disable, li, Cpu.exec, Cpu.get, Cpu.set_gpr_of_ne, hnot]
  · simp [disable, li, Cpu.exec, Cpu.set_gpr_of_ne]

/-- `restore` does not disable interrupts. -/
theorem run_restore (s : Cpu) (mask : Word) :
    ie ((s.set .a0 mask).run restore) = (ie s || mask.getLsbD 0) := by
  simp [ie, restore, Cpu.exec, Cpu.get, Cpu.set_gpr_of_ne]

/-- **Interrupts are enabled behind every `ctxsw`.** -/
theorem run_ctxsw (s : Cpu) : ie (s.run ctxsw) = true ∧ exl (s.run ctxsw) = false := by
  have hie : STATUS_IE.setWidth 32 = 1#32 := by decide
  have hexl : (~~~STATUS_EXL).signExtend 32 = ~~~2#32 := by decide
  rw [ctxsw, Cpu.run_append]
  generalize s.run (saveContext ++ loadContext) = t
  constructor
  · simp [ie, enableNew, Cpu.exec, Cpu.get, Cpu.set_gpr_of_ne, hie, hexl]
  · simp [exl, enableNew, Cpu.exec, Cpu.get, Cpu.set_gpr_of_ne, hie, hexl]

/-- The `ori` of `dismiss` enables interrupts. -/
theorem run_leave (s : Cpu) : ie (eret (s.run leave)) = true := by
  have hien : M_StatusIEn[0] = true := by decide
  have hexl : STATUS_EXL[0] = false := by decide
  rw [leave, Cpu.run_append]
  generalize s.run (afterHandler ++ [setStatus] ++ restoreRegs) = t
  simp [ie, eret, setCop0, dismiss, Cpu.exec, Cpu.get, Cpu.set_gpr_of_ne, hien, hexl]

-- ---------------------------------------------------------------------------
-- The processes
-- ---------------------------------------------------------------------------

abbrev Pid := Nat

/-- What a process is in the middle of. -/
inductive Section
  /-- between a `disable`, which returned the mask, and its `restore` -/
  | disabled (mask : Word)
  /-- in the handler of an interrupt -/
  | handler
  deriving DecidableEq

def Section.isDisabled : Section → Bool
  | .disabled _ => true
  | .handler => false

/-- The core and the processes. `sections` are those that each process is in, the innermost
first. `out` is a history variable: `STATUS.IE` at the call of `ctxsw` in which a process
is. -/
structure Procs where
  cpu : Cpu
  currpid : Pid
  sections : Pid → List Section
  out : Pid → Option Bool

/-- How `ctxsw` ends: it returns to a process that had called it with some `IE`, or starts one
that has been created. -/
inductive Switch
  | returned (pid : Pid) (called now : Bool)
  | started (pid : Pid) (now : Bool)
  deriving DecidableEq

inductive MaskAct
  /-- at boot -/
  | enable
  | disable
  | restore
  | ctxsw (new : Pid)
  /-- a process is created in a slot of the process table -/
  | create (pid : Pid)
  /-- the core takes an interrupt -/
  | interrupt (cause epc : Word)
  /-- a handler returns -/
  | leave
  /-- code that has nothing to do with `STATUS` -/
  | code (s : Cpu)

namespace Procs

variable (t : Procs)

def enterSection (e : Section) (s : Cpu) : Procs :=
  { t with
    cpu := s
    sections := Function.update t.sections t.currpid (e :: t.sections t.currpid) }

/-- The innermost section ends. -/
def endSection (s : Cpu) : Procs :=
  { t with
    cpu := s
    sections := Function.update t.sections t.currpid (t.sections t.currpid).tail }

/-- The CPU is given to `new`. -/
def switch (new : Pid) : Option Bool × Procs :=
  let out := Function.update t.out t.currpid (some (ie t.cpu))
  (out new,
    { t with
      cpu := t.cpu.run ctxsw
      currpid := new
      out := Function.update out new none })

def step : MaskAct → Option (Procs × List Switch)
  | .enable =>
    if t.sections t.currpid = [] then some ({ t with cpu := t.cpu.run enable }, []) else none
  | .disable =>
    let s := t.cpu.run disable
    some (t.enterSection (.disabled (s.gpr .v0)) s, [])
  | .restore =>
    match t.sections t.currpid with
    | .disabled mask :: _ => some (t.endSection ((t.cpu.set .a0 mask).run restore), [])
    | _ => none
  | .ctxsw new =>
    let r := t.switch new
    match r.1 with
    | some called => some (r.2, [.returned new called (ie r.2.cpu)])
    | none => some (r.2, [.started new (ie r.2.cpu)])
  | .create pid =>
    if pid = t.currpid then none
    else some ({ t with
      sections := Function.update t.sections pid []
      out := Function.update t.out pid none }, [])
  | .interrupt cause epc =>
    if ie t.cpu = true ∧ exl t.cpu = false then
      match enter (take t.cpu cause epc) with
      | .called _ s => some (t.enterSection .handler s, [])
      | .erets s => some ({ t with cpu := eret s }, [])
      | .aborted => none
    else none
  | .leave =>
    match t.sections t.currpid with
    | .handler :: _ => some (t.endSection (eret (t.cpu.run leave)), [])
    | _ => none
  | .code s =>
    if s.cop0 .STATUS = t.cpu.cop0 .STATUS then some ({ t with cpu := s }, []) else none

end Procs

/-- The machine, from any state in which no process has run yet. -/
def masks : Machine Procs MaskAct Switch where
  start t := t.sections = (fun _ => []) ∧ t.out = fun _ => none
  step t a := t.step a

-- ---------------------------------------------------------------------------
-- What is to hold, and when it does
-- ---------------------------------------------------------------------------

/-- A process is between a `disable` and its `restore`. -/
def inSection (l : List Section) : Bool := l.any Section.isDisabled

/-- A process goes on with the `IE` with which it called `ctxsw`, and a new one starts with
interrupts enabled. -/
def Switch.Ok : Switch → Prop
  | .returned _ called now => now = called
  | .started _ now => now = true

/-- **What is to hold**: `ctxsw` keeps `IE`, and code between a `disable` and its `restore`
runs with interrupts disabled. -/
structure MasksKept (tr : List Switch) (t : Procs) : Prop where
  switches : ∀ e ∈ tr, e.Ok
  disabled : inSection (t.sections t.currpid) = true → ie t.cpu = false

/-- The process that `ctxsw` is to return to did not call it with interrupts disabled. -/
def Careful (t : Procs) : MaskAct → Prop
  | .ctxsw new => (t.switch new).1 ≠ some false
  | _ => True

instance (t : Procs) (a : MaskAct) : Decidable (Careful t a) := by
  cases a <;> unfold Careful <;> infer_instance

-- ---------------------------------------------------------------------------
-- Every run
-- ---------------------------------------------------------------------------

/-- Only the outermost `disable` can return a mask that enables interrupts, and a handler runs
inside of no section. -/
def Nested : List Section → Prop
  | [] => True
  | .disabled mask :: rest => (inSection rest = true → mask.getLsbD 0 = false) ∧ Nested rest
  | .handler :: rest => inSection rest = false ∧ Nested rest

/-- A process that does not run, and `IE` at its `ctxsw`. -/
def Waiting (sections : List Section) : Option Bool → Prop
  | some called => inSection sections = true → called = false
  | none => sections = []

/-- **The invariant.** -/
structure Masked (t : Procs) : Prop where
  nested : ∀ p, Nested (t.sections p)
  disabled : inSection (t.sections t.currpid) = true → ie t.cpu = false
  waiting : ∀ p ≠ t.currpid, Waiting (t.sections p) (t.out p)

variable {t t' : Procs} {a : MaskAct} {es tr : List Switch}

namespace Masked

/-- What the process that runs does to its own sections. -/
theorem own (h : Masked t) {l : List Section} {s : Cpu} (hl : Nested l)
    (hie : inSection l = true → ie s = false) :
    Masked { t with cpu := s, sections := Function.update t.sections t.currpid l } := by
  refine ⟨fun p => ?_, fun hin => ?_, fun p hp => ?_⟩
  · by_cases hcur : p = t.currpid
    · subst hcur
      dsimp only
      rwa [Function.update_self]
    · dsimp only
      rw [Function.update_of_ne hcur]
      exact h.nested p
  · dsimp only at hin
    rw [Function.update_self] at hin
    exact hie hin
  · dsimp only at hp ⊢
    rw [Function.update_of_ne hp]
    exact h.waiting p hp

/-- The process that runs opens no section and ends none. -/
theorem cpu (h : Masked t) {s : Cpu} (hie : inSection (t.sections t.currpid) = true → ie s = false) :
    Masked { t with cpu := s } := ⟨h.nested, hie, h.waiting⟩

/-- **The CPU is given away.** -/
theorem switch (h : Masked t) {new : Pid} (hok : (t.switch new).1 ≠ some false) :
    Masked (t.switch new).2 := by
  have hout : ∀ p, Waiting (t.sections p) (Function.update t.out t.currpid (some (ie t.cpu)) p) := by
    intro p
    by_cases hcur : p = t.currpid
    · subst hcur
      rw [Function.update_self]
      exact h.disabled
    · rw [Function.update_of_ne hcur]
      exact h.waiting p hcur
  refine ⟨h.nested, fun hin => ?_, fun p hp => ?_⟩
  · -- a process in a section called `ctxsw` with interrupts disabled
    exfalso
    have hnew := hout new
    have hin' : inSection (t.sections new) = true := hin
    cases hc : (t.switch new).1 with
    | none =>
      rw [show Function.update t.out t.currpid (some (ie t.cpu)) new = none from hc] at hnew
      rw [show t.sections new = [] from hnew] at hin'
      exact Bool.false_ne_true hin'
    | some called =>
      rw [show Function.update t.out t.currpid (some (ie t.cpu)) new = some called from hc] at hnew
      rw [hc, hnew hin'] at hok
      exact hok rfl
  · show Waiting (t.sections p)
      (Function.update (Function.update t.out t.currpid (some (ie t.cpu))) new none p)
    have hne : p ≠ new := hp
    rw [Function.update_of_ne hne]
    exact hout p

/-- **One step.** -/
theorem step (h : Masked t) (hok : Careful t a) (hst : t.step a = some (t', es)) :
    Masked t' ∧ ∀ e ∈ es, e.Ok := by
  cases a with
  | enable =>
    simp only [Procs.step] at hst
    split at hst
    · rename_i hnil
      cases hst
      refine ⟨h.cpu fun hin => ?_, nofun⟩
      rw [hnil] at hin
      exact absurd hin Bool.false_ne_true
    · cases hst
  | disable =>
    cases hst
    obtain ⟨hie, hmask⟩ := run_disable t.cpu
    refine ⟨h.own ⟨fun hin => ?_, h.nested t.currpid⟩ fun _ => hie, nofun⟩
    -- in a section the status was one with interrupts disabled
    rw [hmask]
    exact h.disabled hin
  | restore =>
    simp only [Procs.step] at hst
    split at hst
    · rename_i mask rest hsec
      cases hst
      have hnest := h.nested t.currpid
      have hdis := h.disabled
      rw [hsec] at hnest hdis
      refine ⟨h.own ?_ fun hin => ?_, nofun⟩
      · rw [hsec]
        exact hnest.2
      · rw [hsec] at hin
        rw [run_restore, hdis rfl, hnest.1 hin]
        rfl
    · cases hst
  | ctxsw new =>
    simp only [Procs.step] at hst
    have hie : ie (t.switch new).2.cpu = true := (run_ctxsw t.cpu).1
    split at hst
    · rename_i called hc
      cases hst
      refine ⟨h.switch hok, fun e he => ?_⟩
      obtain rfl := List.mem_singleton.mp he
      have hcalled : called = true := by
        cases called
        · exact absurd hc hok
        · rfl
      exact hie.trans hcalled.symm
    · cases hst
      refine ⟨h.switch hok, fun e he => ?_⟩
      obtain rfl := List.mem_singleton.mp he
      exact hie
  | create pid =>
    simp only [Procs.step] at hst
    split at hst
    · cases hst
    · rename_i hne
      cases hst
      refine ⟨⟨fun p => ?_, ?_, fun p hp => ?_⟩, nofun⟩
      · by_cases hp : p = pid
        · subst hp
          dsimp only
          rw [Function.update_self]
          trivial
        · dsimp only
          rw [Function.update_of_ne hp]
          exact h.nested p
      · dsimp only
        rw [Function.update_of_ne (Ne.symm hne)]
        exact h.disabled
      · dsimp only at hp ⊢
        by_cases hp' : p = pid
        · subst hp'
          rw [Function.update_self, Function.update_self]
          rfl
        · rw [Function.update_of_ne hp', Function.update_of_ne hp']
          exact h.waiting p hp
  | interrupt cause epc =>
    simp only [Procs.step] at hst
    split at hst
    · rename_i hon
      -- no section is open, or interrupts would be disabled
      have hout : inSection (t.sections t.currpid) = false := by
        by_contra hin
        rw [Bool.not_eq_false] at hin
        rw [h.disabled hin] at hon
        exact Bool.false_ne_true hon.1
      split at hst
      · cases hst
        refine ⟨h.own ⟨hout, h.nested t.currpid⟩ fun hin => ?_, nofun⟩
        exact absurd (hout.symm.trans hin) Bool.false_ne_true
      · cases hst
        refine ⟨h.cpu fun hin => ?_, nofun⟩
        exact absurd (hout.symm.trans hin) Bool.false_ne_true
      · cases hst
    · cases hst
  | leave =>
    simp only [Procs.step] at hst
    split at hst
    · rename_i rest hsec
      cases hst
      have hnest := h.nested t.currpid
      rw [hsec] at hnest
      refine ⟨h.own ?_ fun hin => ?_, nofun⟩
      · rw [hsec]
        exact hnest.2
      · rw [hsec] at hin
        exact absurd (hnest.1.symm.trans hin) Bool.false_ne_true
    · cases hst
  | code s =>
    simp only [Procs.step] at hst
    split at hst
    · rename_i hsame
      cases hst
      refine ⟨h.cpu fun hin => ?_, nofun⟩
      unfold ie
      rw [hsame]
      exact h.disabled hin
    · cases hst

end Masked

/-- A careless switch breaks it at once: the process goes on with interrupts enabled. -/
theorem step_careless {new : Pid} (h : ¬ Careful t (.ctxsw new)) :
    t.step (.ctxsw new) = some ((t.switch new).2, [.returned new false true]) := by
  have hout : (t.switch new).1 = some false := not_not.mp h
  have hie : ie (t.switch new).2.cpu = true := (run_ctxsw t.cpu).1
  simp only [Procs.step]
  rw [hout]
  dsimp only
  rw [hie]

/-- Where no process goes on that had called `ctxsw` with interrupts disabled, every `ctxsw`
keeps `IE`, and code between a `disable` and its `restore` is not interrupted. -/
theorem masks_kept_without_slip (r : masks.Run Careful tr t) : MasksKept tr t := by
  have hinv : (∀ e ∈ tr, e.Ok) ∧ Masked t := by
    refine Machine.Run.invariant (I := fun tr t => (∀ e ∈ tr, e.Ok) ∧ Masked t) r
      (fun t hstart => ?_) fun tr es t t' a hinv hok hst => ?_
    · obtain ⟨hsec, hout⟩ := hstart
      refine ⟨nofun, fun p => ?_, fun hin => ?_, fun p _ => ?_⟩
      · rw [hsec]
        trivial
      · rw [hsec] at hin
        exact absurd hin Bool.false_ne_true
      · rw [hsec, hout]
        rfl
    · obtain ⟨hmasked, hes⟩ := hinv.2.step hok hst
      refine ⟨fun e he => ?_, hmasked⟩
      rcases List.mem_append.mp he with he | he
      · exact hes e he
      · exact hinv.1 e he
  exact ⟨hinv.1, hinv.2.disabled⟩

/-- The null process at the end of its initialization. -/
def nullprocess : Procs where
  cpu := withCop0 0 0x1000f000
  currpid := 0
  sections _ := []
  out _ := none

/-- The null process gives up the CPU outside of all sections and goes on. -/
theorem masks_kept_without_slip_two :
    ∃ t tr, masks.exec Careful nullprocess [] [.enable, .ctxsw 1, .disable, .ctxsw 0] =
      some (t, tr) ∧ tr = [.returned 0 true true, .started 1 true] ∧ MasksKept tr t := by
  have hrun : (masks.exec Careful nullprocess [] [.enable, .ctxsw 1, .disable, .ctxsw 0]).any
      fun r => r.2 = [.returned 0 true true, .started 1 true] := by
    decide +kernel
  obtain ⟨⟨t, tr⟩, hst, htr⟩ := (Option.any_eq_true _ _).mp hrun
  exact ⟨t, tr, hst, of_decide_eq_true htr,
    masks_kept_without_slip (Machine.exec_run (.start ⟨rfl, rfl⟩) hst)⟩

/-- A `wait` that blocks: from its `disable` to the switch to `new`. -/
def waitBlocks (new : Pid) : List MaskAct := [.disable, .ctxsw new]

/-- A `ptrecv` that finds no message, up to the switch in its `wait`. -/
def ptrecvBlocks (new : Pid) : List MaskAct := .disable :: waitBlocks new

/-- A `signal` that lets a process go which has a higher priority. -/
def signalSwitches (new : Pid) : List MaskAct := [.disable, .ctxsw new]

/-- **`ptrecv` goes on with interrupts enabled** behind its `wait`. -/
theorem masks_not_kept : ¬ ∀ tr t, masks.Run (fun _ _ => True) tr t → MasksKept tr t := by
  intro hall
  have hrun : (masks.exec (fun _ _ => True) nullprocess []
      (.enable :: (ptrecvBlocks 1 ++ signalSwitches 0 ++ [.restore]))).any
        fun r => inSection (r.1.sections r.1.currpid) && ie r.1.cpu := by
    decide +kernel
  obtain ⟨⟨t, tr⟩, hst, hval⟩ := (Option.any_eq_true _ _).mp hrun
  obtain ⟨hin, hie⟩ := (Bool.and_eq_true _ _).mp hval
  have hkept := hall tr t (Machine.exec_run (.start ⟨rfl, rfl⟩) hst)
  exact Bool.false_ne_true ((hkept.disabled hin).symm.trans hie)

end Xinu.Irq
