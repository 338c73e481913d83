import XinuCMips.Kernel.Queue

/-!
# Kernel calls

Each call is a function on the kernel state that runs up to its own
`resched`, or to its end if it makes none. Before a `resched` the rest of the
call is pushed on the frames of the current process. `disable` and `restore`
do not appear: between its `disable` and its `resched` a call is not
interrupted.

`step` is one step of the machine: the current process makes a call or
continues the one it is in, or the clock ticks.
-/

namespace Xinu

/-! ## Scheduling -/

/-- The end of `resched`: switch to the first ready process. -/
def switch (k : Kernel QTab) : Kernel QTab :=
  let r := dequeue readylist k.queuetab
  let k := { k with queuetab := r.2, currpid := r.1 }
  -- `proctab[EMPTY]` is not an entry of the table
  if r.1 = EMPTY then { k with halted := some .wild }
  else { k.setState r.1 .curr with preempt := QUANTUM }

/-- `resched`: reschedule to the highest priority eligible process. -/
def resched (k : Kernel QTab) : Kernel QTab :=
  if 0 < k.ndefers then { k with attempt := true }
  else
    let ptold := k.proctab k.currpid
    if ptold.prstate = .curr then
      if firstkey k.queuetab readylist < ptold.prprio then k
      else
        let k := k.setState k.currpid .ready
        switch ((insert k.currpid readylist ptold.prprio k).2.log (.readied k.currpid))
    else switch k

/-- `ready`: make a process eligible for CPU service. -/
def ready (pid : Int) (resch : Bool) (k : Kernel QTab) : Kernel QTab :=
  if isbadpid k pid then k
  else
    let k := k.setState pid .ready
    let k := (insert pid readylist (k.proctab pid).prprio k).2.log (.readied pid)
    if resch then resched k else k

/-- `sched_cntl`: `DEFER_START` is `1`, `DEFER_STOP` is `2`. -/
def sched_cntl (deferral : Int) (k : Kernel QTab) : Kernel QTab :=
  if deferral = 1 then
    let k := if k.ndefers = 0 then { k with attempt := false } else k
    { k with ndefers := int32 (k.ndefers + 1) }.ret OK
  else if deferral = 2 then
    if k.ndefers ≤ 0 then k.ret SYSERR
    else
      let k := { k with ndefers := k.ndefers - 1 }
      if k.ndefers = 0 ∧ k.attempt = true then resched (k.push (.ret OK)) else k.ret OK
  else k.ret SYSERR

def yield (k : Kernel QTab) : Kernel QTab := resched (k.push (.ret OK))

/-! ## Processes -/

/-- `newpid`: a free slot of the process table, searched from `nextpid`. -/
def newpid : Nat → Kernel QTab → Option Int × Kernel QTab
  | 0, k => (none, k)
  | n + 1, k =>
    let nextpid := k.nextpid % NPROC
    if (k.proctab nextpid).prstate = .free then (some nextpid, { k with nextpid := nextpid + 1 })
    else newpid n { k with nextpid := nextpid + 1 }

/-- `create`: a new process, suspended. -/
def create (ssize : Nat) (priority : Int) (k : Kernel QTab) : Kernel QTab :=
  let ssize := uint32 ssize
  let priority := pri16 priority
  if ssize < MINSTK ∨ priority ≤ 0 then k.ret SYSERR
  else
    match newpid NPROC.toNat k with
    | (none, k) => k.ret SYSERR
    | (some pid, k) =>
      match getstk k.bounds ssize k.mem with
      | (none, m) => { k with mem := m }.ret SYSERR
      | (some saddr, m) =>
        let k := { k with mem := m, prcount := k.prcount + 1 }
        let k := k.setProc pid fun e =>
          { e with
            prstate := .susp
            prprio := priority
            prstkbase := saddr
            prstklen := ssize
            prparent := k.currpid
            prhasmsg := false }
        { k with frames := Function.update k.frames pid [] }.log (.created pid) |>.ret pid

/-- `resume`: unsuspend a process, making it ready. -/
def resume (pid : Int) (k : Kernel QTab) : Kernel QTab :=
  if isbadpid k pid then k.ret SYSERR
  else if (k.proctab pid).prstate ≠ .susp then k.ret SYSERR
  else ready pid true (k.push (.ret (k.proctab pid).prprio))

/-- `suspend` after its `resched`. -/
def suspendRest (pid : Int) (k : Kernel QTab) : Kernel QTab := k.ret (k.proctab pid).prprio

/-- `suspend`: place a current or ready process in hibernation. -/
def suspend (pid : Int) (k : Kernel QTab) : Kernel QTab :=
  if isbadpid k pid ∨ pid = NULLPROC then k.ret SYSERR
  else if (k.proctab pid).prstate ≠ .curr ∧ (k.proctab pid).prstate ≠ .ready then k.ret SYSERR
  else if (k.proctab pid).prstate = .ready then
    suspendRest pid ({ k with queuetab := getitem pid k.queuetab }.setState pid .susp)
  else resched ((k.setState pid .susp).push (.suspendRest pid))

def chprio (pid newprio : Int) (k : Kernel QTab) : Kernel QTab :=
  if isbadpid k pid then k.ret SYSERR
  else
    let oldprio := (k.proctab pid).prprio
    (k.setProc pid fun e => { e with prprio := pri16 newprio }).ret oldprio

/-! ## Semaphores -/

/-- `newsem`: a free slot of the semaphore table, searched from `nextsem`. -/
def newsem : Nat → Kernel QTab → Option Int × Kernel QTab
  | 0, k => (none, k)
  | n + 1, k =>
    let sem := k.nextsem
    let k := { k with nextsem := if NSEM ≤ sem + 1 then 0 else sem + 1 }
    if (k.semtab sem).sstate = .free then
      (some sem, k.setSem sem fun e => { e with sstate := .used })
    else newsem n k

def semcreate (count : Int) (k : Kernel QTab) : Kernel QTab :=
  if count < 0 then k.ret SYSERR
  else
    match newsem NSEM.toNat k with
    | (none, k) => k.ret SYSERR
    | (some sem, k) => ((k.setCount sem count).log (.semcreated sem count)).ret sem

def wait (sem : Int) (k : Kernel QTab) : Kernel QTab :=
  if isbadsem sem ∨ (k.semtab sem).sstate = .free then k.ret SYSERR
  else
    let k := k.setCount sem (int32 ((k.semtab sem).scount - 1))
    if (k.semtab sem).scount < 0 then
      let k := k.setProc k.currpid fun e => { e with prstate := .wait, prsem := sem }
      let k := (enqueue k.currpid (k.semtab sem).squeue k).2.log (.waited sem k.currpid)
      resched (k.push (.ret OK))
    else (k.log (.acquired sem)).ret OK

/-- One unit for a semaphore whose count was `count`: `scount++`, and if a
process waits, its removal from the queue. -/
def signalUnit (sem : Int) (k : Kernel QTab) : Option Int × Kernel QTab :=
  let count := (k.semtab sem).scount
  let k := (k.setCount sem (int32 (count + 1))).log (.signalled sem)
  if count < 0 then
    let r := dequeue (k.semtab sem).squeue k.queuetab
    (some r.1, { k with queuetab := r.2 }.log (.released sem r.1))
  else (none, k)

def signal (sem : Int) (k : Kernel QTab) : Kernel QTab :=
  if isbadsem sem ∨ (k.semtab sem).sstate = .free then k.ret SYSERR
  else
    match signalUnit sem k with
    | (some pid, k) => ready pid true (k.push (.ret OK))
    | (none, k) => k.ret OK

/-- The loop of `signaln`. -/
def signalnLoop (sem : Int) : Nat → Kernel QTab → Kernel QTab
  | 0, k => k
  | n + 1, k =>
    match signalUnit sem k with
    | (some pid, k) => signalnLoop sem n (ready pid false k)
    | (none, k) => signalnLoop sem n k

def signaln (sem count : Int) (k : Kernel QTab) : Kernel QTab :=
  if isbadsem sem ∨ count < 0 ∨ (k.semtab sem).sstate = .free then k.ret SYSERR
  else resched ((signalnLoop sem count.toNat k).push (.ret OK))

/-- `ready(getfirst(semptr->squeue), RESCHED_NO)`. -/
def drainFirst (sem : Int) (k : Kernel QTab) : Int × Kernel QTab :=
  let r := getfirst (k.semtab sem).squeue k.queuetab
  (r.1, ready r.1 false ({ k with queuetab := r.2 }.log (.drained sem r.1)))

/-- The loop of `semdelete`: `while (semptr->scount++ < 0)`. -/
def semdeleteLoop (sem : Int) : Nat → Kernel QTab → Kernel QTab
  | 0, k => k
  | n + 1, k =>
    let count := (k.semtab sem).scount
    let k := k.setCount sem (int32 (count + 1))
    if count < 0 then semdeleteLoop sem n (drainFirst sem k).2 else k

def semdelete (sem : Int) (k : Kernel QTab) : Kernel QTab :=
  if isbadsem sem ∨ (k.semtab sem).sstate = .free then k.ret SYSERR
  else
    let k := k.setSem sem fun e => { e with sstate := .free }
    let k := (semdeleteLoop sem ((-(k.semtab sem).scount).toNat + 1) k).log (.semdeleted sem)
    resched (k.push (.ret OK))

/-- The loop of `semreset`: free all waiting processes. -/
def semresetLoop (sem : Int) : Nat → Kernel QTab → Kernel QTab
  | 0, k => k
  | n + 1, k =>
    if isempty k.queuetab (k.semtab sem).squeue then k
    else semresetLoop sem n (drainFirst sem k).2

def semreset (sem count : Int) (k : Kernel QTab) : Kernel QTab :=
  if count < 0 ∨ isbadsem sem ∨ (k.semtab sem).sstate = .free then k.ret SYSERR
  else
    let k := semresetLoop sem NQENT.toNat k
    let k := (k.setCount sem count).log (.semreset sem count)
    resched (k.push (.ret OK))

/-! ## Messages -/

def send (pid msg : Int) (k : Kernel QTab) : Kernel QTab :=
  if isbadpid k pid then k.ret SYSERR
  else if (k.proctab pid).prhasmsg = true then k.ret SYSERR
  else
    let k := (k.setProc pid fun e => { e with prmsg := msg, prhasmsg := true }).log (.sent pid msg)
    if (k.proctab pid).prstate = .recv then ready pid true (k.push (.ret OK))
    else if (k.proctab pid).prstate = .rectim then
      ready pid true ((unsleep pid k).2.push (.ret OK))
    else k.ret OK

/-- Retrieve the message of the current process and return it. -/
def takeMsg (k : Kernel QTab) : Kernel QTab :=
  let msg := (k.proctab k.currpid).prmsg
  let k := k.setProc k.currpid fun e => { e with prhasmsg := false }
  (k.log (.received k.currpid msg)).ret msg

/-- `receive`: wait for a message and return it to the caller. -/
def receive (k : Kernel QTab) : Kernel QTab :=
  if (k.proctab k.currpid).prhasmsg = false then
    resched ((k.setState k.currpid .recv).push .receiveRest)
  else takeMsg k

/-- `recvtime` after its `resched`. -/
def recvtimeRest (k : Kernel QTab) : Kernel QTab :=
  if (k.proctab k.currpid).prhasmsg = true then takeMsg k else k.ret TIMEOUT

/-- `recvtime`: wait for a message, at most `maxwait` ticks. -/
def recvtime (maxwait : Int) (k : Kernel QTab) : Kernel QTab :=
  if maxwait < 0 then k.ret SYSERR
  else if (k.proctab k.currpid).prhasmsg = false then
    let r := insertd k.currpid sleepq maxwait k
    if r.1 = SYSERR then k.ret SYSERR
    else
      let k := r.2.log (.slept k.currpid maxwait)
      resched ((k.setState k.currpid .rectim).push .recvtimeRest)
  else recvtimeRest k

/-- `recvclr`: clear the incoming message, if any. -/
def recvclr (k : Kernel QTab) : Kernel QTab :=
  if (k.proctab k.currpid).prhasmsg = true then takeMsg k else k.ret OK

/-! ## Clock -/

def sleepms (delay : Nat) (k : Kernel QTab) : Kernel QTab :=
  if delay = 0 then yield (k.push (.ret OK))
  else
    let r := insertd k.currpid sleepq (int32 delay) k
    if r.1 = SYSERR then k.ret SYSERR
    else
      let k := r.2.log (.slept k.currpid (int32 delay))
      resched ((k.setState k.currpid .sleep).push (.ret OK))

/-- The loop of `wakeup`. -/
def wakeupLoop : Nat → Kernel QTab → Kernel QTab
  | 0, k => k
  | n + 1, k =>
    if nonempty k.queuetab sleepq ∧ firstkey k.queuetab sleepq ≤ 0 then
      let r := dequeue sleepq k.queuetab
      wakeupLoop n (ready r.1 false ({ k with queuetab := r.2 }.log (.woken r.1)))
    else k

/-- `wakeup`: awaken all processes that have no more time to sleep. -/
def wakeup (k : Kernel QTab) : Kernel QTab := resched (wakeupLoop NQENT.toNat k)

/-- `clkhandler` after the sleep queue: should the process be preempted? -/
def clkRest (k : Kernel QTab) : Kernel QTab :=
  if usub k.preempt 1 = 0 then resched { k with preempt := QUANTUM }
  else { k with preempt := usub k.preempt 1 }

/-- `clkhandler`: record clock ticks and seconds. -/
def countTick (k : Kernel QTab) : Kernel QTab :=
  if uint32 (k.clkticks + 1) = CLKTICKS_PER_SEC then
    { k with clktime := uint32 (k.clktime + 1), clkticks := 0 }
  else { k with clkticks := uint32 (k.clkticks + 1) }

def clkhandler (k : Kernel QTab) : Kernel QTab :=
  let k := (countTick k).log .ticked
  if nonempty k.queuetab sleepq then
    let first := firstid k.queuetab sleepq
    let t := setKey k.queuetab first (int32 ((k.queuetab first).qkey - 1))
    let k := { k with queuetab := t }
    if firstkey t sleepq ≤ 0 then wakeup (k.push .clkRest) else clkRest k
  else clkRest k

/-! ## Death of a process -/

def xdone (k : Kernel QTab) : Kernel QTab := { k with halted := some .xdone }

/-- `kill`: from `case PR_SLEEP` on. -/
def killUnsleep (pid : Int) (k : Kernel QTab) : Kernel QTab :=
  ((unsleep pid k).2.setState pid .free).ret OK

/-- `kill` after its `send`. The devices that `close` is called for have
nothing to close. -/
def killRest (pid : Int) (k : Kernel QTab) : Kernel QTab :=
  let e := k.proctab pid
  let r := freestk k.bounds e.prstkbase e.prstklen k.mem
  let k := { k with mem := r.2 }.log (.stkfreed pid r.1)
  match e.prstate with
  | .curr => resched ((k.setState pid .free).push (.killUnsleep pid))
  | .sleep | .rectim => killUnsleep pid k
  | .wait =>
    let k := k.setCount e.prsem (int32 ((k.semtab e.prsem).scount + 1))
    let k := { k with queuetab := getitem pid k.queuetab }.log (.cancelled e.prsem pid)
    (k.setState pid .free).ret OK
  | .ready => ({ k with queuetab := getitem pid k.queuetab }.setState pid .free).ret OK
  | _ => (k.setState pid .free).ret OK

/-- `kill`: the victim's parent is sent a message first. -/
def kill (pid : Int) (k : Kernel QTab) : Kernel QTab :=
  if isbadpid k pid ∨ pid = NULLPROC then k.ret SYSERR
  else
    let k := { k with prcount := k.prcount - 1 }
    if k.prcount ≤ 1 then xdone k
    else send (k.proctab pid).prparent pid (k.push (.killRest pid (k.births pid)))

/-! ## The machine -/

inductive Call where
  | create (ssize : Nat) (priority : Int)
  | resume (pid : Int)
  | suspend (pid : Int)
  | kill (pid : Int)
  | chprio (pid newprio : Int)
  | semcreate (count : Int)
  | wait (sem : Int)
  | signal (sem : Int)
  | signaln (sem count : Int)
  | semreset (sem count : Int)
  | semdelete (sem : Int)
  | send (pid msg : Int)
  | receive
  | recvtime (maxwait : Int)
  | recvclr
  | sleepms (delay : Nat)
  | yield
  | sched_cntl (deferral : Int)
  deriving DecidableEq, Repr

def exec : Call → Kernel QTab → Kernel QTab
  | .create ssize priority => create ssize priority
  | .resume pid => resume pid
  | .suspend pid => suspend pid
  | .kill pid => kill pid
  | .chprio pid newprio => chprio pid newprio
  | .semcreate count => semcreate count
  | .wait sem => wait sem
  | .signal sem => signal sem
  | .signaln sem count => signaln sem count
  | .semreset sem count => semreset sem count
  | .semdelete sem => semdelete sem
  | .send pid msg => send pid msg
  | .receive => receive
  | .recvtime maxwait => recvtime maxwait
  | .recvclr => recvclr
  | .sleepms delay => sleepms delay
  | .yield => yield
  | .sched_cntl deferral => sched_cntl deferral

/-- The rest of a call, run when its process is current again. -/
def runFrame : Frame → Kernel QTab → Kernel QTab
  | .ret v => fun k => k.ret v
  | .killRest pid _ => killRest pid
  | .killUnsleep pid => killUnsleep pid
  | .suspendRest pid => suspendRest pid
  | .receiveRest => takeMsg
  | .recvtimeRest => recvtimeRest
  | .clkRest => clkRest

inductive Input where
  /-- the current process, in its own code, makes a call -/
  | call (c : Call)
  /-- the current process runs on in the call it is in -/
  | cont
  /-- a clock interrupt -/
  | tick
  deriving DecidableEq, Repr

def step (k : Kernel QTab) : Input → Kernel QTab
  | .call c => exec c k
  | .cont =>
    match k.frames k.currpid with
    | [] => k
    | f :: _ => runFrame f k.pop
  | .tick => clkhandler k

/-- The inputs that a state can take. A tick may come between any two steps:
in the process's own code, and after a switch that ended in a call. -/
def Enabled (k : Kernel QTab) : Input → Prop
  | .call _ => k.halted = none ∧ k.frames k.currpid = []
  | .cont => k.halted = none ∧ k.frames k.currpid ≠ []
  | .tick => k.halted = none

instance (k : Kernel QTab) (i : Input) : Decidable (Enabled k i) := by
  cases i <;> unfold Enabled <;> infer_instance

/-! ## The state that `sysinit` leaves -/

/-- `newqueue`: the empty queue at `q`. -/
def newqueue (t : QTab) (q : Int) : QTab :=
  let t := setNext t (queuehead q) (queuetail q)
  let t := setPrev t (queuehead q) EMPTY
  let t := setKey t (queuehead q) MAXKEY
  let t := setNext t (queuetail q) EMPTY
  let t := setPrev t (queuetail q) (queuehead q)
  setKey t (queuetail q) MINKEY

/-- The queue ids in the order in which `sysinit` allocates them. -/
def queueIds : List Int := (List.range (NSEM.toNat + 2)).map fun i : Nat => semqueue i

def sysinit (B : HeapBounds) (m : Mem) : Kernel QTab where
  queuetab := queueIds.foldl newqueue fun _ => ⟨MINKEY, EMPTY, EMPTY⟩
  proctab p :=
    { prstate := if p = NULLPROC then .curr else .free
      prprio := 0
      prstkbase := if p = NULLPROC then B.minheap else 0
      prstklen := 8192
      prhasmsg := false
      prsem := 0
      prparent := 0
      prmsg := 0 }
  semtab s := { sstate := .free, squeue := semqueue s, scount := 0 }
  prcount := 1
  currpid := NULLPROC
  nextpid := 1
  nextsem := 0
  ndefers := 0
  attempt := false
  preempt := QUANTUM + 1
  clkticks := 0
  clktime := 0
  bounds := B
  mem := initMemlist B m
  frames _ := []
  v0 _ := 0
  halted := none
  trace := []

/-- The states of all runs that start at `sysinit` and in which every input
satisfies `ok` in the state it is taken in. -/
inductive Reaches (ok : Kernel QTab → Input → Prop) : Kernel QTab → Prop
  | init (B : HeapBounds) (m : Mem) : Reaches ok (sysinit B m)
  | step {k : Kernel QTab} {i : Input} :
      Reaches ok k → Enabled k i → ok k i → Reaches ok (step k i)

end Xinu
