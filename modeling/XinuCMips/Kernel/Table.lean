import Mathlib.Logic.Function.Basic
import XinuCMips.Heap.Memlist

/-!
# Kernel tables

The state shared by all kernel calls: the process table, the semaphore
table, the scheduler's and the clock's variables, and the heap. The process
queues are a parameter of the state, so that one definition serves both
levels: the code's `queuetab` (`Kernel QTab`) and the lists of process ids
that it represents (`Kernel Lists`).

A call that reaches `resched` may be switched out there. What is left of it
is kept on the `frames` of its process and is run when that process is next
current; an entry of `frames` is the rest of one C function, with the
arguments it still uses.

`trace` is a history variable: the calls add to it what they did, and none
of them reads it.
-/

namespace Xinu

/-! ## Constants -/

def NPROC : Int := 16
def NSEM : Int := 32
def NQENT : Int := NPROC + 4 + NSEM + NSEM
def NULLPROC : Int := 0
def EMPTY : Int := -1
def MAXKEY : Int := 0x7FFFFFFF
def MINKEY : Int := -0x80000000
def QUANTUM : Nat := 2
def MINSTK : Nat := 400
def CLKTICKS_PER_SEC : Nat := 4
def TIMEOUT : Int := -3

/-- Queue ids handed out by `newqueue` during `sysinit`: one for each
semaphore, then the ready list, then the sleep queue. -/
def semqueue (s : Int) : Int := NPROC + 2 * s
def readylist : Int := NPROC + 2 * NSEM
def sleepq : Int := NPROC + 2 * NSEM + 2

/-- Truncation to a signed 32-bit value. -/
def int32 (x : Int) : Int := x.bmod (2 ^ 32)

/-- Truncation to a signed 16-bit value, for priorities. -/
def pri16 (x : Int) : Int := x.bmod (2 ^ 16)

/-! ## Table entries -/

inductive PrState where
  | free | curr | ready | recv | sleep | susp | wait | rectim
  deriving DecidableEq, Repr

structure Procent where
  prstate : PrState
  prprio : Int
  prstkbase : Nat
  prstklen : Nat
  prhasmsg : Bool
  prsem : Int
  prparent : Int
  prmsg : Int
  deriving Repr

inductive SemState where
  | free | used
  deriving DecidableEq, Repr

structure Sentry where
  sstate : SemState
  squeue : Int
  scount : Int
  deriving Repr

structure QEntry where
  qkey : Int
  qnext : Int
  qprev : Int
  deriving Repr

/-- `queuetab`. -/
abbrev QTab := Int → QEntry

/-- The rest of a C function after a call that may switch processes. -/
inductive Frame where
  /-- `restore(mask); return v;` -/
  | ret (v : Int)
  /-- `kill` after its `send`; `birth` tells which incarnation was meant -/
  | killRest (pid : Int) (birth : Nat)
  /-- `kill` after the `resched` of a process that killed itself -/
  | killUnsleep (pid : Int)
  | suspendRest (pid : Int)
  | receiveRest
  | recvtimeRest
  /-- `clkhandler` after `wakeup` -/
  | clkRest
  deriving DecidableEq, Repr

/-- What the history variable records. -/
inductive Event where
  | readied (pid : Int)
  | semcreated (sem count : Int)
  | semreset (sem count : Int)
  | semdeleted (sem : Int)
  | acquired (sem : Int)
  | waited (sem pid : Int)
  | signalled (sem : Int)
  | released (sem pid : Int)
  | drained (sem pid : Int)
  | cancelled (sem pid : Int)
  | slept (pid delay : Int)
  | ticked
  | woken (pid : Int)
  | unslept (pid : Int)
  | sent (pid msg : Int)
  | received (pid msg : Int)
  | created (pid : Int)
  | stkfreed (pid : Int) (res : Int)
  deriving DecidableEq, Repr

/-- Why the machine stopped: `xdone` halts it after the last user process;
a process id from an empty ready list leads outside the process table. -/
inductive Halt where
  | xdone | wild
  deriving DecidableEq, Repr

/-! ## The kernel state -/

structure Kernel (Q : Type) where
  queuetab : Q
  proctab : Int → Procent
  semtab : Int → Sentry
  prcount : Int
  currpid : Int
  nextpid : Int
  nextsem : Int
  /-- `Defer.ndefers` -/
  ndefers : Int
  /-- `Defer.attempt` -/
  attempt : Bool
  preempt : Nat
  clkticks : Nat
  clktime : Nat
  bounds : HeapBounds
  mem : Mem
  /-- the rest of the calls each process is in, innermost first -/
  frames : Int → List Frame
  /-- the value the last call of each process returned -/
  v0 : Int → Int
  halted : Option Halt
  trace : List Event

variable {Q Q' : Type}

namespace Kernel

/-- The same state over another representation of the queues. -/
def withQueues (k : Kernel Q) (q : Q') : Kernel Q' where
  queuetab := q
  proctab := k.proctab
  semtab := k.semtab
  prcount := k.prcount
  currpid := k.currpid
  nextpid := k.nextpid
  nextsem := k.nextsem
  ndefers := k.ndefers
  attempt := k.attempt
  preempt := k.preempt
  clkticks := k.clkticks
  clktime := k.clktime
  bounds := k.bounds
  mem := k.mem
  frames := k.frames
  v0 := k.v0
  halted := k.halted
  trace := k.trace

def setProc (k : Kernel Q) (p : Int) (f : Procent → Procent) : Kernel Q :=
  { k with proctab := Function.update k.proctab p (f (k.proctab p)) }

def setState (k : Kernel Q) (p : Int) (st : PrState) : Kernel Q :=
  k.setProc p fun e => { e with prstate := st }

def setSem (k : Kernel Q) (s : Int) (f : Sentry → Sentry) : Kernel Q :=
  { k with semtab := Function.update k.semtab s (f (k.semtab s)) }

def setCount (k : Kernel Q) (s c : Int) : Kernel Q :=
  k.setSem s fun e => { e with scount := c }

def log (k : Kernel Q) (e : Event) : Kernel Q := { k with trace := e :: k.trace }

/-- The current process is about to reschedule; `f` is what it does next. -/
def push (k : Kernel Q) (f : Frame) : Kernel Q :=
  { k with frames := Function.update k.frames k.currpid (f :: k.frames k.currpid) }

/-- The current process resumes the call on top of its frames. -/
def pop (k : Kernel Q) : Kernel Q :=
  { k with frames := Function.update k.frames k.currpid (k.frames k.currpid).tail }

/-- The current process returns `v` from a call. -/
def ret (k : Kernel Q) (v : Int) : Kernel Q :=
  { k with v0 := Function.update k.v0 k.currpid v }

/-- How often a process was created in a slot. -/
def births (k : Kernel Q) (p : Int) : Nat := k.trace.count (.created p)

end Kernel

def isbadpid (k : Kernel Q) (x : Int) : Prop :=
  x < 0 ∨ NPROC ≤ x ∨ (k.proctab x).prstate = .free

def isbadqid (x : Int) : Prop := x < 0 ∨ NQENT - 1 ≤ x

def isbadsem (x : Int) : Prop := x < 0 ∨ NSEM ≤ x

instance (k : Kernel Q) (x : Int) : Decidable (isbadpid k x) := by
  unfold isbadpid
  infer_instance

instance (x : Int) : Decidable (isbadqid x) := by
  unfold isbadqid
  infer_instance

instance (x : Int) : Decidable (isbadsem x) := by
  unfold isbadsem
  infer_instance

end Xinu
