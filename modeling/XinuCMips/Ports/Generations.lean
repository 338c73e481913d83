import XinuCMips.Lib.Histories
import XinuCMips.Ports.Capacity
import XinuCMips.Ports.Semaphores

/-!
# The generations of a port

A generation begins when a port is created or has been reset, and ends when it is reset
or deleted. What is sent in one is received in it, disposed of at its end, or still
queued.

`gen` counts how often `ptseq` has moved, and `since` keeps the counts of the moment at
which a process blocked. Both look on only: `ptsend` and `ptrecv` compare the 32 bits of
`ptseq`, which come round.

* `Conserved` — what holds in every state that is reached;
* `Answers`   — what the next step of a process does.
-/

namespace Xinu.Ports

-- ---------------------------------------------------------------------------
-- Runs
-- ---------------------------------------------------------------------------

structure System where
  tab : PortTable
  gen : Nat → Nat
  since : Pid → Nat → Nat

namespace System

/-- A process has left the CPU with the outcome `o` and the tables `t`. -/
def advance (pid : Pid) (o : Outcome) (t : PortTable) (q : System) : System :=
  let gen := fun port =>
    if (t.porttab port).ptseq = (q.tab.porttab port).ptseq then q.gen port else q.gen port + 1
  { tab := t
    gen
    since := if o = .blocked then Function.update q.since pid gen else q.since }

/-- After `ptinit`. Semaphores may be in use, and nothing waits on a free one. -/
structure Started (nodes : Nat) (q : System) : Prop where
  tables : q.tab = { ptinit nodes false with semtab := q.tab.semtab, nextsem := q.tab.nextsem }
  free : ∀ x, (q.tab.semtab x).used = false → (q.tab.semtab x).squeue = []
  nextsem : 0 ≤ q.tab.nextsem ∧ q.tab.nextsem < NSEM
  gen : ∀ port, q.gen port = 0
  since : ∀ pid port, q.since pid port = 0

end System

def machine (nodes : Nat) : Machine System (Pid × Act) (Pid × Act × Outcome) where
  start := System.Started nodes
  step q a := (step nodes a.1 a.2 q.tab).map fun r =>
    (q.advance a.1 r.1 r.2, [(a.1, a.2, r.1)])

/-- Counts are below 65536, and no process is kept from running until the number of its
generation comes round. -/
def Allowed (q : System) (a : Pid × Act) : Prop :=
  match a.2 with
  | .create count => count < 2 ^ 16
  | .resume => ∀ c ∈ q.tab.calls a.1, q.gen c.portid - q.since a.1 c.portid < 2 ^ 32
  | _ => True

-- ---------------------------------------------------------------------------
-- What a history says
-- ---------------------------------------------------------------------------

structure Generation where
  sent : List Msg := []
  received : List Msg := []
  disposed : List Msg := []
  deriving DecidableEq, Repr

/-- The generation with one more event of its port. -/
def Generation.next (g : Generation) : Event → Generation
  | .opened _ => g
  | .sent _ msg => { g with sent := g.sent ++ [msg] }
  | .received _ msg => { g with received := g.received ++ [msg] }
  | .disposed _ msg => { g with disposed := g.disposed ++ [msg] }

def Event.portid : Event → Nat
  | .opened port | .sent port _ | .received port _ | .disposed port _ => port

/-- The last generation of a port, and those before. -/
def generations (port : Nat) : List Event → Generation × List Generation
  | [] => ({}, [])
  | e :: tr =>
    let (g, gs) := generations port tr
    if e.portid = port then
      if e = .opened port then ({}, g :: gs) else (g.next e, gs)
    else (g, gs)

namespace PortTable

/-- The nodes of a list, `n` at most. -/
def walk (s : PortTable) : Nat → Option Node → List Node
  | n + 1, some node => node :: walk s n (s.ptnext node)
  | _, _ => []

/-- The messages that are queued in a port. -/
def queue (nodes port : Nat) (s : PortTable) : List Msg :=
  if (s.porttab port).ptstate = .alloc then
    (s.walk nodes (s.porttab port).pthead).map s.ptmsg
  else []

end PortTable

-- ---------------------------------------------------------------------------
-- What is to hold
-- ---------------------------------------------------------------------------

/-- A call that waits on a port, and the number of the generation that it goes by. -/
inductive Role where
  | send | recv
  deriving DecidableEq, Repr

def Call.waits : Call → Option ((Nat × Role) × Int)
  | .send port seq _ => some ((port, .send), seq)
  | .recv port seq => some ((port, .recv), seq)
  | .clear .. | .cleared .. => none

/-- What the process waits for. -/
def PortTable.waiting (s : PortTable) (pid : Pid) : Option ((Nat × Role) × Int) :=
  (s.calls pid).bind Call.waits

/-- A process in the middle of a reset or deletion that has not released the receivers. -/
def PortTable.Clearing (port : Nat) (s : PortTable) : Prop :=
  ∃ pid newstate, s.calls pid = some (.clear port newstate)

/-- No message is lost, made up, or moved, and no port holds more than it may. -/
structure Conserved (nodes : Nat) (q : System) : Prop where
  past : ∀ port, ∀ g ∈ (generations port q.tab.trace).2, g.sent = g.received ++ g.disposed
  last : ∀ port, (generations port q.tab.trace).1.sent =
    (generations port q.tab.trace).1.received ++ (generations port q.tab.trace).1.disposed ++
      q.tab.queue nodes port
  undisturbed : ∀ port, (q.tab.porttab port).ptstate = .alloc →
    (generations port q.tab.trace).1.disposed = []
  capacity : ∀ port, (q.tab.queue nodes port).length ≤ (q.tab.porttab port).ptmaxcnt
  /-- `ptfree` runs out when all nodes are in ports. -/
  halted : q.tab.halted = true →
    ((List.range NPORTS).map fun port => (q.tab.queue nodes port).length).sum = nodes
  /-- A process that waited for a generation that is gone may go on. -/
  released : ∀ pid k seq, q.tab.waiting pid = some (k, seq) → q.since pid k.1 ≠ q.gen k.1 →
    q.tab.ready pid = true ∨ q.tab.Clearing k.1

/-- A receiver finds a message behind its wait, and a process that waited for a generation
that is gone leaves the port alone. -/
structure Answers (q : System) (pid : Pid) (a : Act) (o : Outcome) (t : PortTable) : Prop where
  finds : (∃ port, a = .recv port) ∨
    (a = .resume ∧ ∃ port seq, q.tab.waiting pid = some ((port, .recv), seq)) → o ≠ .halted
  refused : ∀ k seq, a = .resume → q.tab.waiting pid = some (k, seq) →
    q.since pid k.1 ≠ q.gen k.1 → o = .ret SYSERR ∧ t = q.tab.setCall pid none

end Xinu.Ports
