import XinuCMips.Kernel.Calls
import XinuCMips.Kernel.QueueLists

/-!
# What a kernel call can do

The abstract kernel is the kernel over lists of process ids. A call is a
short sequence of *acts*, each of which moves at most one process, changes
one semaphore, or touches only fields that no property reads (`tidy`). `Act`
lists them once; every invariant of the kernel is proved by going through
this list.

A step of the machine is a *segment* (`Seg`): either it leaves the schedule
as good as it found it, or it ends with a `resched`.
-/

namespace Xinu

/-- The kernel over lists of process ids. -/
abbrev AKernel := Kernel Lists

namespace Kernel

variable {Q : Type}

/-- The queue that a process is on, by its state. -/
def place (k : Kernel Q) (p : Int) : Option Int :=
  match (k.proctab p).prstate with
  | .ready => some readylist
  | .sleep | .rectim => some sleepq
  | .wait => some (k.semtab (k.proctab p).prsem).squeue
  | _ => none

def onLists (a : AKernel) (f : Lists → Lists) : AKernel := { a with queuetab := f a.queuetab }

/-! ## Moves -/

/-- A process that is on no queue becomes ready. -/
def makeReady (a : AKernel) (p : Int) : AKernel :=
  ((a.setState p .ready).onLists (·.insert p readylist (a.proctab p).prprio)).log (.readied p)

/-- A ready process becomes current. -/
def switchTo (a : AKernel) (p : Int) : AKernel :=
  { ({ a.onLists (·.remove p) with currpid := p }).setState p .curr with preempt := QUANTUM }

/-- No process is ready. -/
def lost (a : AKernel) : AKernel := { a with currpid := EMPTY, halted := some .wild }

def enterWait (a : AKernel) (s : Int) : AKernel :=
  let a := a.setCount s (int32 ((a.semtab s).scount - 1))
  let a := a.setProc a.currpid fun e => { e with prstate := .wait, prsem := s }
  (a.onLists fun ls => ls.set (a.semtab s).squeue (ls.on (a.semtab s).squeue ++ [a.currpid])).log
    (.waited s a.currpid)

def enterRecv (a : AKernel) : AKernel := (a.setState a.currpid .recv).push .receiveRest

def enterSleep (a : AKernel) (st : PrState) (d : Int) : AKernel :=
  ((a.onLists (·.insertd a.currpid sleepq d)).log (.slept a.currpid d)).setState a.currpid st

def enterRectim (a : AKernel) (d : Int) : AKernel := (a.enterSleep .rectim d).push .recvtimeRest

/-- A process at the head of the sleep queue becomes ready. -/
def wake (a : AKernel) (p : Int) : AKernel :=
  ((a.onLists (·.remove p)).log (.woken p)).makeReady p

/-- Up to `n` processes whose time has come become ready. -/
def wakeDue : Nat → AKernel → AKernel
  | 0, a => a
  | n + 1, a =>
    match a.queuetab.on sleepq with
    | [] => a
    | p :: _ => if a.queuetab.key p ≤ 0 then wakeDue n (a.wake p) else a

/-- A clock tick for the sleep queue. -/
def tick (a : AKernel) : AKernel :=
  wakeDue NQENT.toNat ((a.log .ticked).onLists fun ls => ls.addHead (ls.on sleepq) (-1))

/-- A process leaves the sleep queue before its time. -/
def leaveSleep (a : AKernel) (p : Int) : AKernel := (a.onLists (·.unsleep p)).log (.unslept p)

/-- A message for `p`, which becomes ready if it waits for one. -/
def deposit (a : AKernel) (p m : Int) : AKernel :=
  let b := (a.setProc p fun e => { e with prmsg := m, prhasmsg := true }).log (.sent p m)
  match (a.proctab p).prstate with
  | .recv => b.makeReady p
  | .rectim => (b.leaveSleep p).makeReady p
  | _ => b

/-- The current process takes its message. -/
def collect (a : AKernel) : AKernel :=
  (a.setProc a.currpid fun e => { e with prhasmsg := false }).log
    (.received a.currpid (a.proctab a.currpid).prmsg)

/-! ## Semaphores -/

/-- The first process waiting for `s` becomes ready. -/
def releaseFirst (a : AKernel) (s : Int) (e : Int → Event) : AKernel :=
  match a.queuetab.on (a.semtab s).squeue with
  | [] => a.log (e EMPTY)
  | p :: _ => ((a.onLists (·.remove p)).log (e p)).makeReady p

/-- One unit for a semaphore. -/
def unit (a : AKernel) (s : Int) : AKernel :=
  let b := (a.setCount s (int32 ((a.semtab s).scount + 1))).log (.signalled s)
  if (a.semtab s).scount < 0 then b.releaseFirst s (.released s) else b

/-- The first `n` processes waiting for `s` become ready. -/
def drain (s : Int) : Nat → AKernel → AKernel
  | 0, a => a
  | n + 1, a => drain s n (a.releaseFirst s (.drained s))

/-! ## Birth and death -/

def birth (a : AKernel) (p : Int) (prio : Int) (saddr ssize : Nat) (m : Mem) : AKernel :=
  let a := { a with mem := m, prcount := a.prcount + 1 }
  let a := a.setProc p fun e =>
    { e with
      prstate := .susp
      prprio := prio
      prstkbase := saddr
      prstklen := ssize
      prparent := a.currpid
      prhasmsg := false }
  { a with frames := Function.update a.frames p [] }.log (.created p)

/-- A kill begins: the process is no longer counted. -/
def killBegin (a : AKernel) (p : Int) : AKernel :=
  { a with prcount := a.prcount - 1 }.push (.killRest p (a.births p))

/-- The killed process's stack goes back to the heap. -/
def freeStk (a : AKernel) (p : Int) : AKernel :=
  let e := a.proctab p
  let r := freestk a.bounds e.prstkbase e.prstklen a.mem
  { a with mem := r.2 }.log (.stkfreed p r.1)

/-- A process leaves the queue it is on, because it is killed. -/
def leave (a : AKernel) (p : Int) : AKernel :=
  match (a.proctab p).prstate with
  | .ready => a.onLists (·.remove p)
  | .sleep | .rectim => a.leaveSleep p
  | .wait =>
    let s := (a.proctab p).prsem
    ((a.setCount s (int32 ((a.semtab s).scount + 1))).onLists (·.remove p)).log (.cancelled s p)
  | _ => a

/-- The end of a kill of another process. -/
def killed (a : AKernel) (p : Int) : AKernel := ((a.pop.freeStk p).leave p).setState p .free

/-- The end of a kill of the current process. -/
def exit (a : AKernel) (p : Int) : AKernel :=
  ((a.pop.freeStk p).setState p .free).push (.killUnsleep p)

/-! ## The process table after a move -/

attribute [local simp] deposit leave wakeDue releaseFirst drain

variable (a : AKernel)

theorem setState_proctab (p : Int) (st : PrState) :
    (a.setState p st).proctab = Function.update a.proctab p { a.proctab p with prstate := st } := rfl

theorem makeReady_proctab (p : Int) :
    (a.makeReady p).proctab = Function.update a.proctab p { a.proctab p with prstate := .ready } :=
  rfl

theorem switchTo_proctab (p : Int) :
    (a.switchTo p).proctab = Function.update a.proctab p { a.proctab p with prstate := .curr } := rfl

theorem enterWait_proctab (s : Int) :
    (a.enterWait s).proctab = Function.update a.proctab a.currpid
      { a.proctab a.currpid with prstate := .wait, prsem := s } := rfl

theorem collect_proctab :
    a.collect.proctab = Function.update a.proctab a.currpid
      { a.proctab a.currpid with prhasmsg := false } := rfl

theorem birth_proctab (p prio : Int) (saddr ssize : Nat) (m : Mem) :
    (a.birth p prio saddr ssize m).proctab = Function.update a.proctab p
      { a.proctab p with
        prstate := .susp
        prprio := prio
        prstkbase := saddr
        prstklen := ssize
        prparent := a.currpid
        prhasmsg := false } := rfl

theorem deposit_proctab (p m : Int) :
    (a.deposit p m).proctab = Function.update a.proctab p
      { a.proctab p with
        prmsg := m
        prhasmsg := true
        prstate := match (a.proctab p).prstate with
          | .recv | .rectim => .ready
          | st => st } := by
  unfold deposit
  cases hst : (a.proctab p).prstate <;>
    simp [makeReady, leaveSleep, onLists, log, setState, setProc, hst]

theorem deposit_proctab_self (p m : Int) :
    (a.deposit p m).proctab p =
      { a.proctab p with
        prmsg := m
        prhasmsg := true
        prstate := match (a.proctab p).prstate with
          | .recv | .rectim => .ready
          | st => st } := by
  rewrite [deposit_proctab, Function.update_self]
  rfl

theorem leave_proctab (p : Int) : (a.leave p).proctab = a.proctab := by
  unfold leave
  split <;> rfl

theorem killed_proctab (p : Int) :
    (a.killed p).proctab = Function.update a.proctab p { a.proctab p with prstate := .free } := by
  unfold killed
  rw [setState_proctab, leave_proctab]
  rfl

theorem exit_proctab (p : Int) :
    (a.exit p).proctab = Function.update a.proctab p { a.proctab p with prstate := .free } := rfl

/-! ## The frames after a move -/

theorem deposit_frames (p m : Int) : (a.deposit p m).frames = a.frames := by
  unfold deposit
  split <;> rfl

theorem leave_frames (p : Int) : (a.leave p).frames = a.frames := by
  unfold leave
  split <;> rfl

theorem killed_frames (p : Int) : (a.killed p).frames = a.pop.frames := leave_frames _ p

theorem releaseFirst_frames (s : Int) (e : Int → Event) :
    (a.releaseFirst s e).frames = a.frames := by
  unfold releaseFirst
  split <;> rfl

theorem wakeDue_nil (h : a.queuetab.on sleepq = []) : ∀ n, a.wakeDue n = a
  | 0 => rfl
  | n + 1 => by
    unfold wakeDue
    rw [h]

theorem wakeDue_due {n : Nat} {p : Int} {l : List Int} (h : a.queuetab.on sleepq = p :: l)
    (hkey : a.queuetab.key p ≤ 0) : a.wakeDue (n + 1) = (a.wake p).wakeDue n := by
  conv_lhs => unfold wakeDue
  rw [h]
  exact if_pos hkey

theorem wakeDue_early {p : Int} {l : List Int} (h : a.queuetab.on sleepq = p :: l)
    (hkey : 0 < a.queuetab.key p) : ∀ n, a.wakeDue n = a
  | 0 => rfl
  | n + 1 => by
    unfold wakeDue
    rw [h]
    exact if_neg (not_le.mpr hkey)

theorem wakeDue_frames : ∀ (n : Nat) (a : AKernel), (wakeDue n a).frames = a.frames
  | 0, _ => rfl
  | n + 1, a => by
    unfold wakeDue
    split
    · rfl
    · split
      · exact wakeDue_frames n _
      · rfl

theorem drain_frames (s : Int) : ∀ (n : Nat) (a : AKernel), (a.drain s n).frames = a.frames
  | 0, _ => rfl
  | n + 1, a => (drain_frames s n _).trans (releaseFirst_frames a s _)

theorem releaseFirst_nil {s : Int} (h : a.queuetab.on (a.semtab s).squeue = []) (e : Int → Event) :
    a.releaseFirst s e = a.log (e EMPTY) := by
  unfold releaseFirst
  rw [h]

theorem releaseFirst_cons {s p : Int} {l : List Int}
    (h : a.queuetab.on (a.semtab s).squeue = p :: l) (e : Int → Event) :
    a.releaseFirst s e = ((a.onLists (·.remove p)).log (e p)).makeReady p := by
  unfold releaseFirst
  rw [h]

theorem releaseFirst_semtab (s : Int) (e : Int → Event) :
    (a.releaseFirst s e).semtab = a.semtab := by
  unfold releaseFirst
  split <;> rfl

end Kernel

/-! ## The list of acts -/

/-- Frames that a property depends on. -/
def Frame.Vital : Frame → Prop
  | .killRest _ _ | .killUnsleep _ | .receiveRest | .recvtimeRest => True
  | _ => False

instance : DecidablePred Frame.Vital := fun f => by
  cases f <;> unfold Frame.Vital <;> infer_instance

/-- The calls a process is in whose rest a property depends on. -/
def Kernel.vital {Q : Type} (k : Kernel Q) (p : Int) : List Frame :=
  (k.frames p).filter fun f => f.Vital

/-- The process is not inside a call that matters. -/
def Idle (a : AKernel) (p : Int) : Prop := a.vital p = []

/-- What an act may do that not every input does. -/
inductive Deed where
  /-- the current process waits for another -/
  | block
  /-- the current process waits for some ticks -/
  | sleep (delay : Int)
  | tick
  /-- a priority is changed -/
  | chprio (pid : Int)
  /-- a kill begins -/
  | kill (pid : Int)
  /-- a kill ends -/
  | bury (pid : Int)

/-- The deeds that are allowed, and in which state. -/
abbrev Guard := AKernel → Deed → Prop

/-- Only bookkeeping: counters, return values, deferral and frames that do
not matter may differ. -/
structure Tidy (a b : AKernel) : Prop where
  queuetab : b.queuetab = a.queuetab
  proctab : b.proctab = a.proctab
  semtab : b.semtab = a.semtab
  prcount : b.prcount = a.prcount
  currpid : b.currpid = a.currpid
  bounds : b.bounds = a.bounds
  mem : b.mem = a.mem
  halted : b.halted = a.halted
  trace : b.trace = a.trace
  nextsem : 0 ≤ a.nextsem ∧ a.nextsem < NSEM → 0 ≤ b.nextsem ∧ b.nextsem < NSEM
  frames : ∀ p, b.vital p = a.vital p

/-- The current process is running in its own right. -/
def Runs (a : AKernel) : Prop := IsPid a.currpid ∧ (a.proctab a.currpid).prstate = .curr

inductive Act (G : Guard) : AKernel → AKernel → Prop
  | tidy {a b} : Tidy a b → Act G a b
  | requeue {a} : Runs a → Act G a (a.makeReady a.currpid)
  | switchTo {a p l} : (a.proctab a.currpid).prstate ≠ .curr → a.queuetab.on readylist = p :: l →
      Act G a (a.switchTo p)
  | lost {a} : (a.proctab a.currpid).prstate ≠ .curr → a.queuetab.on readylist = [] →
      Act G a a.lost
  | enterWait {a s} : G a .block → Runs a → IsSem s → (a.semtab s).sstate = .used →
      int32 ((a.semtab s).scount - 1) < 0 → Act G a (a.enterWait s)
  | enterRecv {a} : G a .block → Runs a → Idle a a.currpid →
      (a.proctab a.currpid).prhasmsg = false → Act G a a.enterRecv
  | enterSleep {a d} : G a (.sleep d) → Runs a → Act G a (a.enterSleep .sleep d)
  | enterRectim {a d} : G a (.sleep d) → Runs a → Idle a a.currpid →
      (a.proctab a.currpid).prhasmsg = false → Act G a (a.enterRectim d)
  | enterSusp {a} : Runs a → a.currpid ≠ NULLPROC → Act G a (a.setState a.currpid .susp)
  | suspend {a p} : IsPid p → p ≠ NULLPROC → (a.proctab p).prstate = .ready →
      Act G a ((a.onLists (·.remove p)).setState p .susp)
  | resume {a p} : IsPid p → (a.proctab p).prstate = .susp → Act G a (a.makeReady p)
  | tick {a} : G a .tick → Act G a a.tick
  | deposit {a p m} : IsPid p → (a.proctab p).prstate ≠ .free → (a.proctab p).prhasmsg = false →
      Act G a (a.deposit p m)
  | collect {a} : Runs a → Idle a a.currpid → (a.proctab a.currpid).prhasmsg = true →
      Act G a a.collect
  | receiveRest {a fs} : Runs a → a.frames a.currpid = .receiveRest :: fs → Act G a a.pop.collect
  | recvtimeRest {a fs} : Runs a → a.frames a.currpid = .recvtimeRest :: fs → Act G a a.pop
  | countDown {a s} : IsSem s → (a.semtab s).sstate = .used →
      0 ≤ int32 ((a.semtab s).scount - 1) →
      Act G a ((a.setCount s (int32 ((a.semtab s).scount - 1))).log (.acquired s))
  | unit {a s} : IsSem s → (a.semtab s).sstate = .used → Act G a (a.unit s)
  | semcreate {a s c} : IsSem s → (a.semtab s).sstate = .free → 0 ≤ c →
      Act G a ((a.setSem s fun e => { e with sstate := .used, scount := c }).log (.semcreated s c))
  | semreset {a s c} : IsSem s → (a.semtab s).sstate = .used → 0 ≤ c →
      Act G a (((a.drain s (a.queuetab.on (a.semtab s).squeue).length).setCount s c).log
        (.semreset s c))
  | semdelete {a s c} : IsSem s → (a.semtab s).sstate = .used → -2 ^ 31 ≤ c →
      Act G a (((a.drain s (-(a.semtab s).scount).toNat).setSem s
        fun e => { e with sstate := .free, scount := c }).log (.semdeleted s))
  | chprio {a p v} : G a (.chprio p) → IsPid p → MINKEY < v →
      Act G a (a.setProc p fun e => { e with prprio := v })
  | create {a p prio saddr ssize m} : IsPid p → (a.proctab p).prstate = .free → 0 < prio →
      MINKEY < prio → ssize < 2 ^ 32 → 0 < ssize →
      getstk a.bounds ssize a.mem = (some saddr, m) → Act G a (a.birth p prio saddr ssize m)
  | killBegin {a p} : G a (.kill p) → Runs a → Idle a a.currpid → IsPid p → p ≠ NULLPROC →
      (a.proctab p).prstate ≠ .free → Act G a (a.killBegin p)
  | xdone {a p} : IsPid p → p ≠ NULLPROC → (a.proctab p).prstate ≠ .free →
      Act G a { a with prcount := a.prcount - 1, halted := some .xdone }
  | killed {a p b fs} : G a (.bury p) → Runs a → a.frames a.currpid = .killRest p b :: fs →
      (a.proctab p).prstate ≠ .curr → Act G a (a.killed p)
  | exit {a p b fs} : G a (.bury p) → Runs a → a.frames a.currpid = .killRest p b :: fs →
      (a.proctab p).prstate = .curr → Act G a (a.exit p)

/-- The history only grows. -/
theorem releaseFirst_trace (a : AKernel) (s : Int) (e : Int → Event) :
    a.trace <:+ (a.releaseFirst s e).trace := by
  unfold Kernel.releaseFirst
  split
  · exact List.suffix_cons _ _
  · exact (List.suffix_cons _ _).trans (List.suffix_cons _ _)

theorem drain_trace (s : Int) : ∀ (n : Nat) (a : AKernel), a.trace <:+ (a.drain s n).trace
  | 0, _ => List.suffix_rfl
  | n + 1, a => (releaseFirst_trace a s _).trans (drain_trace s n _)

theorem wakeDue_trace : ∀ (n : Nat) (a : AKernel), a.trace <:+ (a.wakeDue n).trace
  | 0, _ => List.suffix_rfl
  | n + 1, a => by
    unfold Kernel.wakeDue
    split
    · exact List.suffix_rfl
    · split
      · rename_i p _ _ _
        have hwake : a.trace <:+ (a.wake p).trace :=
          (List.suffix_cons (.woken p) _).trans (List.suffix_cons _ _)
        exact hwake.trans (wakeDue_trace n _)
      · exact List.suffix_rfl

theorem leave_trace (a : AKernel) (p : Int) : a.trace <:+ (a.leave p).trace := by
  unfold Kernel.leave
  split
  · exact List.suffix_rfl
  · exact List.suffix_cons _ _
  · exact List.suffix_cons _ _
  · exact List.suffix_cons _ _
  · exact List.suffix_rfl

theorem Act.trace {G : Guard} {a b : AKernel} (h : Act G a b) : a.trace <:+ b.trace := by
  cases h with
  | tidy ht =>
    rewrite [ht.trace]
    exact List.suffix_rfl
  | tick _ =>
    exact (List.suffix_cons .ticked a.trace).trans
      (wakeDue_trace _ ((a.log .ticked).onLists fun ls => ls.addHead (ls.on sleepq) (-1)))
  | deposit _ _ _ =>
    unfold Kernel.deposit
    split
    · exact (List.suffix_cons _ _).trans (List.suffix_cons _ _)
    · exact ((List.suffix_cons _ _).trans (List.suffix_cons _ _)).trans (List.suffix_cons _ _)
    · exact List.suffix_cons _ _
  | @unit s _ _ =>
    unfold Kernel.unit
    split
    · exact (List.suffix_cons (.signalled s) a.trace).trans
        (releaseFirst_trace ((a.setCount s (int32 ((a.semtab s).scount + 1))).log (.signalled s)) s _)
    · exact List.suffix_cons _ _
  | semreset _ _ _ => exact (drain_trace _ _ _).trans (List.suffix_cons _ _)
  | semdelete _ _ _ => exact (drain_trace _ _ _).trans (List.suffix_cons _ _)
  | @killed p _ _ _ _ _ _ =>
    have hstk : a.trace <:+ (a.pop.freeStk p).trace := List.suffix_cons _ _
    exact hstk.trans (leave_trace _ p)
  | switchTo _ _ => exact List.suffix_rfl
  | lost _ _ => exact List.suffix_rfl
  | enterRecv _ _ _ _ => exact List.suffix_rfl
  | enterSusp _ _ => exact List.suffix_rfl
  | suspend _ _ _ => exact List.suffix_rfl
  | recvtimeRest _ _ => exact List.suffix_rfl
  | chprio _ _ _ => exact List.suffix_rfl
  | killBegin _ _ _ _ _ _ => exact List.suffix_rfl
  | xdone _ _ _ => exact List.suffix_rfl
  | _ => exact List.suffix_cons _ _

/-- Several acts. -/
abbrev Acts (G : Guard) : AKernel → AKernel → Prop := Relation.ReflTransGen (Act G)

theorem Acts.trace {G : Guard} {a b : AKernel} (h : Acts G a b) : a.trace <:+ b.trace := by
  induction h with
  | refl => exact List.suffix_rfl
  | tail _ hact ih => exact ih.trans hact.trace

end Xinu
