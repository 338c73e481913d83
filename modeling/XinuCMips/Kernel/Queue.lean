import XinuCMips.Kernel.Table

/-!
# Process queues: `queue.c`, `getitem.c`, `insert.c`, `insertd.c`, `unsleep.c`

`queuetab` has one node for each process and a head and a tail node for each
queue; queue `q` has its head at `q` and its tail at `q + 1`. A process is on
at most one queue, so its own node is enough to link it anywhere.

The loops walk a queue and are given `NQENT` steps, more than a queue has
nodes.
-/

namespace Xinu

variable {Q : Type}

/-! ## Fields of `queuetab` -/

def setNext (t : QTab) (i v : Int) : QTab := Function.update t i { t i with qnext := v }
def setPrev (t : QTab) (i v : Int) : QTab := Function.update t i { t i with qprev := v }
def setKey (t : QTab) (i v : Int) : QTab := Function.update t i { t i with qkey := v }

def queuehead (q : Int) : Int := q
def queuetail (q : Int) : Int := q + 1
def firstid (t : QTab) (q : Int) : Int := (t (queuehead q)).qnext
def firstkey (t : QTab) (q : Int) : Int := (t (firstid t q)).qkey
def isempty (t : QTab) (q : Int) : Prop := NPROC ≤ firstid t q
def nonempty (t : QTab) (q : Int) : Prop := firstid t q < NPROC

instance (t : QTab) (q : Int) : Decidable (isempty t q) := by
  unfold isempty
  infer_instance

instance (t : QTab) (q : Int) : Decidable (nonempty t q) := by
  unfold nonempty
  infer_instance

/-- The four stores that put a node between two neighbours. -/
def linkBetween (pid prev next : Int) (t : QTab) : QTab :=
  let t := setNext t pid next
  let t := setPrev t pid prev
  let t := setNext t prev pid
  setPrev t next pid

/-! ## `queue.c` and `getitem.c` -/

/-- `getitem`: remove a process from an arbitrary point in a queue. -/
def getitem (pid : Int) (t : QTab) : QTab :=
  let next := (t pid).qnext
  let prev := (t pid).qprev
  let t := setNext t prev next
  setPrev t next prev

/-- `getfirst`: remove the process at the front of a queue. -/
def getfirst (q : Int) (t : QTab) : Int × QTab :=
  if isempty t q then (EMPTY, t)
  else
    let pid := (t (queuehead q)).qnext
    (pid, getitem pid t)

/-- `dequeue`: remove and return the first process of a queue. -/
def dequeue (q : Int) (t : QTab) : Int × QTab :=
  if isbadqid q then (SYSERR, t)
  else if isempty t q then (EMPTY, t)
  else
    let r := getfirst q t
    (r.1, setNext (setPrev r.2 r.1 EMPTY) r.1 EMPTY)

/-- `enqueue`: insert a process at the tail of a queue. -/
def enqueue (pid q : Int) (k : Kernel QTab) : Int × Kernel QTab :=
  if isbadqid q ∨ isbadpid k pid then (SYSERR, k)
  else
    let tail := queuetail q
    let prev := (k.queuetab tail).qprev
    (pid, { k with queuetab := linkBetween pid prev tail k.queuetab })

/-! ## Ordered insertion -/

/-- The search of `insert`: past all keys that are at least `key`. -/
def insertLoop (t : QTab) (key : Int) : Nat → Int → Int
  | 0, curr => curr
  | n + 1, curr =>
    if key ≤ (t curr).qkey then insertLoop t key n (t curr).qnext else curr

/-- `insert`: insert a process into a queue in descending key order. -/
def insert (pid q key : Int) (k : Kernel QTab) : Int × Kernel QTab :=
  if isbadqid q ∨ isbadpid k pid then (SYSERR, k)
  else
    let curr := insertLoop k.queuetab key NQENT.toNat (firstid k.queuetab q)
    let prev := (k.queuetab curr).qprev
    (OK, { k with queuetab := linkBetween pid prev curr (setKey k.queuetab pid key) })

/-- The search of `insertd`; the key becomes relative to the nodes passed. -/
def insertdLoop (t : QTab) (q : Int) : Nat → Int → Int → Int → Int × Int × Int
  | 0, key, prev, next => (key, prev, next)
  | n + 1, key, prev, next =>
    if next ≠ queuetail q ∧ (t next).qkey ≤ key then
      insertdLoop t q n (int32 (key - (t next).qkey)) next (t next).qnext
    else (key, prev, next)

/-- `insertd`: insert a process in a delta list. -/
def insertd (pid q key : Int) (k : Kernel QTab) : Int × Kernel QTab :=
  if isbadqid q ∨ isbadpid k pid then (SYSERR, k)
  else
    let t := k.queuetab
    let (key, prev, next) :=
      insertdLoop t q NQENT.toNat key (queuehead q) (t (queuehead q)).qnext
    let t := linkBetween pid prev next (setKey t pid key)
    let t := if next ≠ queuetail q then setKey t next (int32 ((t next).qkey - key)) else t
    (OK, { k with queuetab := t })

/-- `unsleep`: remove a process from the sleep queue before its time. -/
def unsleep (pid : Int) (k : Kernel QTab) : Int × Kernel QTab :=
  if isbadpid k pid then (SYSERR, k)
  else if (k.proctab pid).prstate ≠ .sleep ∧ (k.proctab pid).prstate ≠ .rectim then (SYSERR, k)
  else
    let t := k.queuetab
    let pidnext := (t pid).qnext
    let t :=
      if pidnext < NPROC then setKey t pidnext (int32 ((t pidnext).qkey + (t pid).qkey)) else t
    (OK, { k with queuetab := getitem pid t }.log (.unslept pid))

end Xinu
