import XinuCMips.Irq.Records

/-!
# Interrupted processes

Interrupts are taken in code of any kind, also on the way back from another one, and a
handler may give the CPU away. C code is anything that respects the calling convention; the
text of `start.S` and of `ctxsw.S` runs instruction by instruction.

`frames` and `out` are history variables: the interrupts that a process has not returned
from, and its call of `ctxsw`.

* `Convention` — what C code leaves alone, and where it has its stack pointer;
* `Preserved`  — what is to hold;
* `Orderly`    — the condition on the interrupts that are taken.
-/

namespace Xinu.Irq

open Mips

-- conf.h
def NPROC : Nat := 16

instance : NeZero NPROC := ⟨by decide⟩

abbrev Proc := Fin NPROC

/-- Where `proctab[p].prstkptr` is: an entry has 60 bytes. -/
def prstkptr (proctab : Word) (p : Proc) : Word := proctab + BitVec.ofNat 32 (60 * p + 4)

theorem prstkptr_injective (proctab : Word) : Function.Injective (prstkptr proctab) := by
  intro p q h
  have hp := p.isLt
  have hq := q.isLt
  have hnum := congrArg BitVec.toNat ((BitVec.add_right_inj _).mp h)
  rw [BitVec.toNat_ofNat, BitVec.toNat_ofNat] at hnum
  unfold NPROC at hp hq
  exact Fin.ext (by omega)

/-- What a process does. -/
inductive Mode
  /-- its own code, or that of a handler -/
  | code
  /-- the text behind the call of a handler, from an instruction on -/
  | leaving (n : Nat)
  /-- `ctxsw` when `k` instructions are executed, on the way to a process that had called it
  in the state `c`, or to a new one -/
  | switching (c : Option Cpu) (k : Nat)

/-- An instruction of the text has an address that is known. -/
def Mode.At (pc : Word) : Mode → Prop
  | .leaving n => pc = textAddr n
  | _ => True

def Mode.isSwitching : Mode → Bool
  | .switching .. => true
  | _ => false

instance (m : Mode) (pc : Word) : Decidable (m.At pc) := by
  unfold Mode.At
  split <;> infer_instance

/-- An interrupt that a process has not returned from. -/
structure Interrupted where
  cpu : Cpu
  pc : Word
  mode : Mode
  /-- where the handler returns to -/
  ret : Word
  /-- the stack pointer at its call -/
  sp : Word

/-- The record on the stack. -/
def Interrupted.base (f : Interrupted) : Word := f.cpu.gpr .sp - 168

/-- Where a process goes on. -/
inductive Resumed
  /-- behind an interrupt at `pc` in the state `c` -/
  | eret (c : Cpu) (pc : Word) (s : Cpu)
  /-- behind a call of `ctxsw` in the state `c` -/
  | ctxsw (c s : Cpu)

structure Contexts where
  cpu : Cpu
  /-- The core has executed an `mtc0` or an `eret`, and takes no interrupt. -/
  held : Bool
  mode : Mode
  currpid : Proc
  /-- the last interrupt first -/
  frames : Proc → List Interrupted
  out : Proc → Option Cpu

inductive ContextAct
  /-- C code -/
  | code (s : Cpu)
  /-- an entry of the process table is set up for a new process, or freed -/
  | create (p : Proc)
  /-- the core takes an interrupt -/
  | interrupt (cause epc : Word)
  /-- a handler returns -/
  | returns
  /-- the next instruction on the way to the `eret` -/
  | leave
  /-- `resched` calls `ctxsw` -/
  | call (new : Proc)
  /-- the next instruction of `ctxsw` -/
  | ctxsw

/-- The instruction of the text that a handler returns to. -/
def returnIndex (ret : Word) : Nat := if ret = uartRet then 26 else 43

namespace Contexts

variable (t : Contexts)

def Interruptible : Prop := ie t.cpu = true ∧ exl t.cpu = false ∧ t.held = false

instance : Decidable t.Interruptible := by
  unfold Interruptible
  infer_instance

def setFrames (fs : List Interrupted) : Proc → List Interrupted :=
  Function.update t.frames t.currpid fs

/-- The entry of an interrupt runs at exception level, up to the call of the handler. -/
def interrupt (cause epc : Word) : Option (Contexts × List Resumed) :=
  match enter (take t.cpu cause epc) with
  | .called ret s =>
    some ({ t with
      cpu := s
      held := false
      mode := .code
      frames := t.setFrames (⟨t.cpu, epc, t.mode, ret, s.gpr .sp⟩ :: t.frames t.currpid) }, [])
  | .erets s => some ({ t with cpu := eret s, held := true }, [.eret t.cpu epc (eret s)])
  | .aborted => none

/-- An instruction of the text. -/
def leave (n : Nat) : Option (Contexts × List Resumed) :=
  match text[n]?, t.frames t.currpid with
  | some (.op i), _ =>
    some ({ t with cpu := t.cpu.exec i, held := i.target0.isSome, mode := .leaving (n + 1) }, [])
  | some (.j m), _ => some ({ t with held := false, mode := .leaving m }, [])
  | some .eret, f :: fs =>
    some ({ t with cpu := eret t.cpu, held := true, mode := f.mode, frames := t.setFrames fs },
      [.eret f.cpu f.pc (eret t.cpu)])
  | _, _ => none

/-- `resched` has made `new` the current process. -/
def call (new : Proc) : Contexts :=
  let out := Function.update t.out t.currpid (some t.cpu)
  { t with
    held := false
    mode := .switching (out new) 0
    currpid := new
    out := Function.update out new none }

/-- An instruction of `ctxsw`. Behind the last one is the jump to `v0`. -/
def switch (c : Option Cpu) (k : Nat) : Option (Contexts × List Resumed) :=
  match Irq.ctxsw[k]? with
  | some i =>
    let t' := { t with cpu := t.cpu.exec i, held := i.target0.isSome }
    if k + 1 = Irq.ctxsw.length then
      some ({ t' with mode := .code }, c.toList.map fun c => .ctxsw c t'.cpu)
    else some ({ t' with mode := .switching c (k + 1) }, [])
  | none => none

/-- The steps of C code. -/
def inCode (r : Option (Contexts × List Resumed)) : Option (Contexts × List Resumed) :=
  match t.mode with
  | .code => r
  | _ => none

def step : ContextAct → Option (Contexts × List Resumed)
  | .code s => t.inCode (some ({ t with cpu := s, held := false }, []))
  | .create p =>
    t.inCode (if p = t.currpid then none
      else some ({ t with
        held := false
        frames := Function.update t.frames p []
        out := Function.update t.out p none }, []))
  | .interrupt cause epc =>
    if t.Interruptible ∧ t.mode.At epc then t.interrupt cause epc else none
  | .returns =>
    t.inCode (match t.frames t.currpid with
      | f :: _ => some ({ t with held := false, mode := .leaving (returnIndex f.ret) }, [])
      | [] => none)
  | .leave =>
    match t.mode with
    | .leaving n => t.leave n
    | _ => none
  | .call new => t.inCode (some (t.call new, []))
  | .ctxsw =>
    match t.mode with
    | .switching c k => t.switch c k
    | _ => none

theorem inCode_eq_some {r : Option (Contexts × List Resumed)} {x : Contexts × List Resumed} :
    t.inCode r = some x ↔ t.mode = .code ∧ r = some x := by
  unfold inCode
  split
  · rename_i hmode
    simp only [hmode, true_and]
  · rename_i hmode
    exact ⟨nofun, fun h => absurd h.1 hmode⟩

end Contexts

/-- The machine, from any state in which no process is interrupted or switched out. -/
def contexts : Machine Contexts ContextAct Resumed where
  start t := t.mode = .code ∧ t.frames = (fun _ => []) ∧ t.out = fun _ => none
  step t a := t.step a

-- ---------------------------------------------------------------------------
-- The calling convention
-- ---------------------------------------------------------------------------

namespace Contexts

variable (proctab : Word) (t : Contexts)

/-- The records and the context of a process. -/
def words (p : Proc) : List Word :=
  (t.frames p).flatMap (fun f => recordWords f.base) ++
    (t.out p).toList.flatMap fun c => contextWords (c.gpr .sp - 64)

/-- The stack below the stack pointer is free. -/
def Free (n : Nat) : Prop :=
  ∀ a ∈ below (t.cpu.gpr .sp) n, ∀ p, a ∉ t.words p ∧ a ≠ prstkptr proctab p

instance (n : Nat) : Decidable (t.Free proctab n) :=
  List.decidableBAll _ _

end Contexts

/-- What C code leaves alone, and where it has its stack pointer. -/
def Convention (proctab : Word) (t : Contexts) : ContextAct → Prop
  | .code s => ∀ p, (∀ a ∈ t.words p, s.mem a = t.cpu.mem a) ∧
      ((t.out p).isSome = true → s.mem (prstkptr proctab p) = t.cpu.mem (prstkptr proctab p))
  | .interrupt _ _ => t.Free proctab 44
  | .returns => ∀ f ∈ (t.frames t.currpid).head?, t.cpu.gpr .sp = f.sp
  | .call new => t.cpu.gpr .a0 = prstkptr proctab t.currpid ∧
      t.cpu.gpr .a1 = prstkptr proctab new ∧ t.Free proctab 16
  | _ => True

instance (proctab : Word) (t : Contexts) : (a : ContextAct) → Decidable (Convention proctab t a)
  | .code s =>
    letI (p : Proc) : Decidable (∀ a ∈ t.words p, s.mem a = t.cpu.mem a) := List.decidableBAll _ _
    inferInstanceAs (Decidable (∀ p, (∀ a ∈ t.words p, s.mem a = t.cpu.mem a) ∧
      ((t.out p).isSome = true → s.mem (prstkptr proctab p) = t.cpu.mem (prstkptr proctab p))))
  | .interrupt _ _ => inferInstanceAs (Decidable (t.Free proctab 44))
  | .returns =>
    inferInstanceAs (Decidable (∀ f ∈ (t.frames t.currpid).head?, t.cpu.gpr .sp = f.sp))
  | .call new =>
    inferInstanceAs (Decidable (t.cpu.gpr .a0 = prstkptr proctab t.currpid ∧
      t.cpu.gpr .a1 = prstkptr proctab new ∧ t.Free proctab 16))
  | .create _ | .leave | .ctxsw => .isTrue trivial

-- ---------------------------------------------------------------------------
-- What is to hold, and when it does
-- ---------------------------------------------------------------------------

/-- A process goes on with the registers that it had, but for `k0` and `k1`; behind `ctxsw`,
with those that a function keeps. -/
def Resumed.Ok : Resumed → Prop
  | .eret c pc s => (∀ r, r ≠ .k0 → r ≠ .k1 → s.get r = c.get r) ∧ s.hi = c.hi ∧ s.lo = c.lo ∧
      s.cop0 .EPC = pc ∧ exl s = false
  | .ctxsw c s => (∀ e ∈ contextRegs, s.gpr e.1 = c.gpr e.1) ∧ s.gpr .v0 = c.gpr .ra ∧
      s.gpr .sp = c.gpr .sp

/-- The record has been popped, and the `eret` is ahead. -/
def Contexts.Popped (t : Contexts) : Prop := ∃ n, t.mode = .leaving n ∧ 84 ≤ n

/-- **What is to hold.** -/
structure Preserved (tr : List Resumed) (t : Contexts) : Prop where
  resumed : ∀ e ∈ tr, e.Ok
  window : t.Popped → ¬t.Interruptible

/-- The dispatch aborts or ends where the record is found again, and `ctxsw` is not
interrupted. -/
def Orderly (t : Contexts) : ContextAct → Prop
  | .interrupt cause epc =>
    (Lands (requests (take t.cpu cause epc)) ∨ Skips (requests (take t.cpu cause epc))) ∧
      t.mode.isSwitching = false
  | _ => True

instance (t : Contexts) (a : ContextAct) : Decidable (Orderly t a) := by
  cases a <;> unfold Orderly <;> infer_instance

end Xinu.Irq
