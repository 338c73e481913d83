import XinuCMips.Kernel.Priorities

/-!
# Deferred rescheduling

A section runs from a `DEFER_START` of `sched_cntl` to the `DEFER_STOP` that
matches it, and sections nest. `Watch` is the kernel together with what a
reader of the run knows of its sections: how deep they are nested and whether
one of the calls in them came to its `resched`.

* `Attempts`       — the call comes to its `resched`;
* `Brief`          — the calls that a section is made around;
* `Keeps`          — such a call inside a section only notes the attempt;
* `Deferred`       — what is promised of a step;
* `sections_defer` — **every step of every run keeps the promise**, as long as
  the nesting is counted in an `int32` and priorities change only to ones that
  fit.
-/

namespace Xinu.Deferral

variable {k k' k₁ k₂ : Kernel QTab}

/-! ## Moves -/

/-- A step of the machine, or a call of `ready` for a process that is on no
queue. -/
inductive Move where
  | input (i : Input)
  | ready (pid : Int) (resch : Bool)
  deriving DecidableEq, Repr

/-- `sched_cntl(DEFER_START)` -/
def start : Move := .input (.call (.sched_cntl 1))

/-- `sched_cntl(DEFER_STOP)` -/
def stop : Move := .input (.call (.sched_cntl 2))

/-- `ready`, called by a process in its own code. -/
def readyCall (pid : Int) (resch : Bool) (k : Kernel QTab) : Kernel QTab :=
  if isbadpid k pid then k.ret SYSERR else ready pid resch (k.push (.ret OK))

def move (k : Kernel QTab) : Move → Kernel QTab
  | .input i => step k i
  | .ready pid resch => readyCall pid resch k

def Able (k : Kernel QTab) : Move → Prop
  | .input i => Enabled k i
  | .ready _ _ => k.halted = none ∧ k.frames k.currpid = []

instance (k : Kernel QTab) (m : Move) : Decidable (Able k m) := by
  cases m <;> unfold Able <;> infer_instance

/-- The call comes to its `resched`. -/
def Attempts (k : Kernel QTab) : Move → Prop
  | .input (.call (.resume pid)) => ¬ isbadpid k pid ∧ (k.proctab pid).prstate = .susp
  | .input (.call (.signal sem)) =>
    (¬ isbadsem sem ∧ (k.semtab sem).sstate ≠ .free) ∧ (k.semtab sem).scount < 0 ∧
      ¬ isbadpid k (dequeue (k.semtab sem).squeue k.queuetab).1
  | .input (.call (.send pid _)) =>
    ¬ isbadpid k pid ∧ (k.proctab pid).prhasmsg = false ∧
      ((k.proctab pid).prstate = .recv ∨ (k.proctab pid).prstate = .rectim)
  | .ready pid resch => ¬ isbadpid k pid ∧ resch = true
  | _ => False

instance (k : Kernel QTab) (m : Move) : Decidable (Attempts k m) := by
  unfold Attempts
  split <;> infer_instance

/-- The call makes a process ready and does not ask for rescheduling. -/
def Unasked (k : Kernel QTab) : Move → Prop
  | .ready pid resch => ¬ isbadpid k pid ∧ resch = false
  | _ => False

instance (k : Kernel QTab) (m : Move) : Decidable (Unasked k m) := by
  cases m <;> unfold Unasked <;> infer_instance

/-! ## The sections of a run -/

/-- The kernel, and what a reader of the run knows of its sections. -/
structure Watch where
  kernel : Kernel QTab
  /-- the sections that are open -/
  depth : Nat
  /-- since the outermost `DEFER_START` a call came to its `resched` -/
  attempted : Bool
  /-- a process was made ready unasked, and no section rescheduled since -/
  unasked : Bool

namespace Watch

/-- The outermost section ends. -/
def Ends (w : Watch) (m : Move) : Prop := m = stop ∧ w.depth = 1

instance (w : Watch) (m : Move) : Decidable (w.Ends m) := by
  unfold Ends
  infer_instance

def step (w : Watch) (m : Move) : Watch where
  kernel := move w.kernel m
  depth := if m = start then w.depth + 1 else if m = stop then w.depth - 1 else w.depth
  attempted :=
    if m = start ∧ w.depth = 0 then false else w.attempted || decide (Attempts w.kernel m)
  unasked :=
    if w.Ends m ∧ w.attempted = true then false else w.unasked || decide (Unasked w.kernel m)

end Watch

/-- The calls that a section is made around. Interrupts are disabled there. -/
def Brief : Move → Prop
  | .input (.call (.resume _)) | .input (.call (.signal _)) | .input (.call (.send _ _))
  | .input (.call (.sched_cntl _)) | .input .cont | .ready _ _ => True
  | _ => False

instance (m : Move) : Decidable (Brief m) := by
  unfold Brief
  split <;> infer_instance

/-- The uses that the sections are made for: any call outside them, and brief
ones inside. `ready` is called for a process that is suspended. -/
def Proper (w : Watch) (m : Move) : Prop :=
  (0 < w.depth → Brief m) ∧
    ∀ p b, m = .ready p b → ¬ isbadpid w.kernel p → (w.kernel.proctab p).prstate = .susp

/-- The nesting is counted in an `int32`, and priorities change only to ones
that fit. -/
def Counted (w : Watch) (m : Move) : Prop :=
  (m = start → w.depth < 2 ^ 31 - 1) ∧
    ∀ p v, m = .input (.call (.chprio p v)) → ¬ isbadpid w.kernel p → Fits w.kernel p (pri16 v)

/-- The runs from `sysinit` whose moves all satisfy `ok`. -/
inductive Watched (ok : Watch → Move → Prop) : Watch → Prop
  | init (B : HeapBounds) (m : Mem) : Watched ok ⟨sysinit B m, 0, false, false⟩
  | step {w : Watch} {m : Move} :
      Watched ok w → Able w.kernel m → ok w m → Watched ok (w.step m)

/-- What is promised of the step `m` from `w`. -/
structure Deferred (w : Watch) (m : Move) : Prop where
  /-- no context switch while rescheduling is deferred -/
  stays : 0 < w.kernel.ndefers → ¬ w.Ends m →
    (w.step m).kernel.currpid = w.kernel.currpid ∧
      (w.step m).kernel.preempt = w.kernel.preempt ∧
      ((w.step m).kernel.proctab w.kernel.currpid).prstate = .curr
  /-- it is deferred exactly inside the sections -/
  inside : 0 < w.kernel.ndefers ↔ 0 < w.depth
  /-- the end of the outermost section makes up for the attempts in it -/
  resched : w.Ends m → w.attempted = true →
    (w.step m).kernel = Xinu.resched ({ w.kernel with ndefers := 0 }.push (.ret OK))
  /-- and does not reschedule if there were none -/
  calm : w.Ends m → w.attempted = false →
    (w.step m).kernel = { w.kernel with ndefers := 0 }.ret OK
  /-- after it the running process has the highest priority -/
  highest : w.Ends m → w.attempted = true ∨ w.unasked = false →
    ∀ p, IsPid p → ((w.step m).kernel.proctab p).prstate = .ready →
      ((w.step m).kernel.proctab p).prprio ≤
        ((w.step m).kernel.proctab (w.step m).kernel.currpid).prprio
  /-- the end of a section inside another is only counted -/
  nested : m = stop → 1 < w.depth →
    (w.step m).kernel = { w.kernel with ndefers := w.kernel.ndefers - 1 }.ret OK
  /-- a `DEFER_STOP` that matches none returns `SYSERR` and changes nothing -/
  unmatched : m = stop → w.depth = 0 → (w.step m).kernel = w.kernel.ret SYSERR

/-! ## Calls inside a section -/

/-- From `k` to `k'` the current process runs on, and `b` tells whether it
came to a `resched`. -/
structure Keeps (k k' : Kernel QTab) (b : Bool) : Prop where
  currpid : k'.currpid = k.currpid
  preempt : k'.preempt = k.preempt
  ndefers : k'.ndefers = k.ndefers
  halted : k'.halted = k.halted
  attempt : k'.attempt = (k.attempt || b)
  /-- what is left to do in a call is to return -/
  frames : ∃ l, k'.frames k.currpid = l ++ k.frames k.currpid ∧ ∀ f ∈ l, ∃ v, f = .ret v

theorem Keeps.trans {b c : Bool} (h : Keeps k k₁ b) (h₁ : Keeps k₁ k₂ c) :
    Keeps k k₂ (b || c) where
  currpid := h₁.currpid.trans h.currpid
  preempt := h₁.preempt.trans h.preempt
  ndefers := h₁.ndefers.trans h.ndefers
  halted := h₁.halted.trans h.halted
  attempt := by rw [h₁.attempt, h.attempt, Bool.or_assoc]
  frames := by
    obtain ⟨l, hl, hret⟩ := h.frames
    obtain ⟨l₁, hl₁, hret₁⟩ := h₁.frames
    rw [h.currpid, hl] at hl₁
    refine ⟨l₁ ++ l, by rw [hl₁, List.append_assoc], fun f hf => ?_⟩
    rcases List.mem_append.mp hf with hf | hf
    · exact hret₁ f hf
    · exact hret f hf

/-- Nothing that matters to a section differs. -/
theorem Keeps.of_eq (hc : k'.currpid = k.currpid) (hp : k'.preempt = k.preempt)
    (hd : k'.ndefers = k.ndefers) (hh : k'.halted = k.halted) (ha : k'.attempt = k.attempt)
    (hf : k'.frames = k.frames) : Keeps k k' false where
  currpid := hc
  preempt := hp
  ndefers := hd
  halted := hh
  attempt := by rw [ha, Bool.or_false]
  frames := ⟨[], by rw [hf]; rfl, fun f hmem => absurd hmem List.not_mem_nil⟩

theorem keeps_ret (k : Kernel QTab) (v : Int) : Keeps k (k.ret v) false :=
  .of_eq rfl rfl rfl rfl rfl rfl

theorem keeps_push (k : Kernel QTab) (v : Int) : Keeps k (k.push (.ret v)) false where
  currpid := rfl
  preempt := rfl
  ndefers := rfl
  halted := rfl
  attempt := (Bool.or_false _).symm
  frames := by
    refine ⟨[.ret v], ?_, fun f hf => ⟨v, List.mem_singleton.mp hf⟩⟩
    exact Function.update_self k.currpid (.ret v :: k.frames k.currpid) k.frames

theorem keeps_insert (pid q key : Int) (k : Kernel QTab) :
    Keeps k (insert pid q key k).2 false := by
  unfold insert
  split
  · exact .of_eq rfl rfl rfl rfl rfl rfl
  · exact .of_eq rfl rfl rfl rfl rfl rfl

theorem keeps_unsleep (pid : Int) (k : Kernel QTab) : Keeps k (unsleep pid k).2 false := by
  unfold unsleep
  split
  · exact .of_eq rfl rfl rfl rfl rfl rfl
  · split
    · exact .of_eq rfl rfl rfl rfl rfl rfl
    · exact .of_eq rfl rfl rfl rfl rfl rfl

theorem resched_deferred (hd : 0 < k.ndefers) : resched k = { k with attempt := true } := if_pos hd

theorem keeps_resched (hd : 0 < k.ndefers) : Keeps k (resched k) true := by
  rw [resched_deferred hd]
  exact ⟨rfl, rfl, rfl, rfl, (Bool.or_true _).symm, [], rfl, fun f hf => absurd hf List.not_mem_nil⟩

theorem unsleep_procs (pid : Int) (k : Kernel QTab) : (unsleep pid k).2.proctab = k.proctab := by
  unfold unsleep
  split
  · rfl
  · split
    · rfl
    · rfl

/-- Inside a section `ready` only notes that it would have rescheduled. -/
theorem keeps_ready {pid : Int} (hd : 0 < k.ndefers) (b : Bool) (hbad : ¬ isbadpid k pid) :
    Keeps k (ready pid b k) b := by
  unfold ready
  rw [if_neg hbad]
  set k₁ := k.setState pid .ready with hk₁
  have hset : Keeps k k₁ false := .of_eq rfl rfl rfl rfl rfl rfl
  set k₂ := (insert pid readylist (k₁.proctab pid).prprio k₁).2.log (.readied pid) with hk₂
  have hins : Keeps k k₂ false :=
    (hset.trans (keeps_insert _ _ _ k₁)).trans (@Keeps.of_eq _ k₂ rfl rfl rfl rfl rfl rfl)
  cases b with
  | false => exact hins
  | true => exact hins.trans (keeps_resched (by rw [hins.ndefers]; exact hd))

theorem not_bad_congr {pid : Int} (hp : (k'.proctab pid).prstate = (k.proctab pid).prstate)
    (h : ¬ isbadpid k pid) : ¬ isbadpid k' pid := by
  unfold isbadpid at *
  rw [hp]
  exact h

/-- The end of a call that makes a process ready. -/
theorem keeps_wake {pid : Int} (hd : 0 < k.ndefers) (b : Bool) (hbad : ¬ isbadpid k pid) (v : Int) :
    Keeps k (ready pid b (k.push (.ret v))) b := by
  have hbad' : ¬ isbadpid (k.push (.ret v)) pid := not_bad_congr rfl hbad
  exact (keeps_push k v).trans (@keeps_ready (k.push (.ret v)) pid hd b hbad')

theorem keeps_readyCall {pid : Int} (hd : 0 < k.ndefers) (b : Bool) :
    Keeps k (readyCall pid b k) (decide (Attempts k (.ready pid b))) := by
  unfold readyCall
  by_cases hbad : isbadpid k pid
  · rw [if_pos hbad, decide_eq_false fun h => h.1 hbad]
    exact keeps_ret k _
  · rw [if_neg hbad]
    have hb : decide (Attempts k (.ready pid b)) = b := by
      cases b with
      | false => exact decide_eq_false fun h => Bool.false_ne_true h.2
      | true => exact decide_eq_true ⟨hbad, rfl⟩
    rw [hb]
    exact keeps_wake hd b hbad OK

theorem keeps_resume (hd : 0 < k.ndefers) (pid : Int) :
    Keeps k (resume pid k) (decide (Attempts k (.input (.call (.resume pid))))) := by
  unfold resume
  by_cases hbad : isbadpid k pid
  · rw [if_pos hbad, decide_eq_false fun h => h.1 hbad]
    exact keeps_ret k _
  rw [if_neg hbad]
  by_cases hst : (k.proctab pid).prstate = .susp
  · rw [if_neg (not_not.mpr hst), decide_eq_true ⟨hbad, hst⟩]
    exact keeps_wake hd true hbad _
  · rw [if_pos hst, decide_eq_false fun h => hst h.2]
    exact keeps_ret k _

theorem keeps_send (hd : 0 < k.ndefers) (pid msg : Int) :
    Keeps k (send pid msg k) (decide (Attempts k (.input (.call (.send pid msg))))) := by
  unfold send
  by_cases hbad : isbadpid k pid
  · rw [if_pos hbad, decide_eq_false fun h => h.1 hbad]
    exact keeps_ret k _
  rw [if_neg hbad]
  by_cases hmsg : (k.proctab pid).prhasmsg = true
  · rw [if_pos hmsg, decide_eq_false fun h => Bool.false_ne_true (h.2.1.symm.trans hmsg)]
    exact keeps_ret k _
  rw [if_neg hmsg]
  set k₁ := (k.setProc pid fun e => { e with prmsg := msg, prhasmsg := true }).log (.sent pid msg)
    with hk₁
  have hset : Keeps k k₁ false := .of_eq rfl rfl rfl rfl rfl rfl
  have hst : (k₁.proctab pid).prstate = (k.proctab pid).prstate := by
    simp [hk₁, Kernel.log, Kernel.setProc]
  have hbad₁ : ¬ isbadpid k₁ pid := not_bad_congr hst hbad
  simp only [hst]
  by_cases hrecv : (k.proctab pid).prstate = .recv
  · rw [if_pos hrecv, decide_eq_true ⟨hbad, by simpa using hmsg, Or.inl hrecv⟩]
    exact hset.trans (@keeps_wake k₁ pid hd true hbad₁ OK)
  rw [if_neg hrecv]
  by_cases htim : (k.proctab pid).prstate = .rectim
  · rw [if_pos htim, decide_eq_true ⟨hbad, by simpa using hmsg, Or.inr htim⟩]
    have hun := keeps_unsleep pid k₁
    have hd₂ : 0 < (unsleep pid k₁).2.ndefers := by
      rw [hun.ndefers]
      exact hd
    have hbad₂ : ¬ isbadpid (unsleep pid k₁).2 pid :=
      not_bad_congr (congrArg (fun t => (t pid).prstate) (unsleep_procs pid k₁)) hbad₁
    exact hset.trans (hun.trans (keeps_wake hd₂ true hbad₂ OK))
  · rw [if_neg htim, decide_eq_false fun h => h.2.2.elim hrecv htim]
    exact hset.trans (keeps_ret k₁ OK)

/-- Who is released by a unit for a semaphore is read off its queue. -/
theorem signalUnit_fst (sem : Int) (k : Kernel QTab) :
    (signalUnit sem k).1 = if (k.semtab sem).scount < 0 then
      some (dequeue (k.semtab sem).squeue k.queuetab).1 else none := by
  unfold signalUnit
  dsimp only
  split
  · show some (dequeue ((k.setCount sem _).semtab sem).squeue k.queuetab).1 = _
    rw [setCount_squeue']
  · rfl

theorem signalUnit_keeps (sem : Int) (k : Kernel QTab) :
    Keeps k (signalUnit sem k).2 false ∧ (signalUnit sem k).2.proctab = k.proctab := by
  unfold signalUnit
  dsimp only
  split
  · exact ⟨.of_eq rfl rfl rfl rfl rfl rfl, rfl⟩
  · exact ⟨.of_eq rfl rfl rfl rfl rfl rfl, rfl⟩

theorem keeps_signal (hd : 0 < k.ndefers) (sem : Int) :
    Keeps k (signal sem k) (decide (Attempts k (.input (.call (.signal sem))))) := by
  unfold signal
  by_cases hbad : isbadsem sem ∨ (k.semtab sem).sstate = .free
  · rw [if_pos hbad, decide_eq_false fun h => hbad.elim h.1.1 h.1.2]
    exact keeps_ret k _
  rw [if_neg hbad]
  rw [not_or] at hbad
  have hfst := signalUnit_fst sem k
  obtain ⟨hunit, hproc⟩ := signalUnit_keeps sem k
  rcases hsig : signalUnit sem k with ⟨o, k₁⟩
  rw [hsig] at hfst hunit hproc
  by_cases hneg : (k.semtab sem).scount < 0
  · -- a process is released
    rw [if_pos hneg] at hfst
    obtain rfl : o = _ := hfst
    have hbad_iff : ∀ p, isbadpid k₁ p ↔ isbadpid k p := fun p => by
      unfold isbadpid
      rw [show k₁.proctab = k.proctab from hproc]
    by_cases hp : isbadpid k (dequeue (k.semtab sem).squeue k.queuetab).1
    · rw [decide_eq_false fun h => h.2.2 hp]
      have hnone : ready (dequeue (k.semtab sem).squeue k.queuetab).1 true (k₁.push (.ret OK)) =
          k₁.push (.ret OK) := if_pos ((hbad_iff _).mpr hp)
      show Keeps k (ready _ true (k₁.push (.ret OK))) false
      rw [hnone]
      exact hunit.trans (keeps_push k₁ OK)
    · rw [decide_eq_true ⟨hbad, hneg, hp⟩]
      have hd₁ : 0 < k₁.ndefers := by
        rw [hunit.ndefers]
        exact hd
      exact hunit.trans (keeps_wake hd₁ true (fun h => hp ((hbad_iff _).mp h)) OK)
  · rw [if_neg hneg] at hfst
    obtain rfl : o = none := hfst
    rw [decide_eq_false fun h => hneg h.2.1]
    exact hunit.trans (keeps_ret k₁ OK)

/-! ## A move inside a section -/

/-- An unknown request to `sched_cntl` is refused. -/
theorem sched_cntl_other {d : Int} (hstart : Move.input (.call (.sched_cntl d)) ≠ start)
    (hstop : Move.input (.call (.sched_cntl d)) ≠ stop) :
    move k (.input (.call (.sched_cntl d))) = k.ret SYSERR := by
  have hd1 : d ≠ 1 := fun h => hstart (by rw [h]; rfl)
  have hd2 : d ≠ 2 := fun h => hstop (by rw [h]; rfl)
  exact (if_neg hd1).trans (if_neg hd2)

/-- The rest of a call, when it is only to return. -/
theorem step_cont {v : Int} {fs : List Frame} (h : k.frames k.currpid = .ret v :: fs) :
    step k .cont = k.pop.ret v := by
  simp only [step, h]
  rfl

/-- **A brief move inside a section keeps the current process running**, and
notes whether it came to a `resched`. -/
theorem brief_keeps {m : Move} (hd : 0 < k.ndefers) (hable : Able k m) (hbrief : Brief m)
    (hret : ∀ f ∈ k.frames k.currpid, ∃ v, f = .ret v) (hstart : m ≠ start) (hstop : m ≠ stop) :
    (move k m).currpid = k.currpid ∧ (move k m).preempt = k.preempt ∧
      (move k m).ndefers = k.ndefers ∧ (move k m).halted = k.halted ∧
      (move k m).attempt = (k.attempt || decide (Attempts k m)) ∧
      ∀ f ∈ (move k m).frames k.currpid, ∃ v, f = .ret v := by
  have hkeeps : ∀ {k' b}, Keeps k k' b → k'.currpid = k.currpid ∧ k'.preempt = k.preempt ∧
      k'.ndefers = k.ndefers ∧ k'.halted = k.halted ∧ k'.attempt = (k.attempt || b) ∧
      ∀ f ∈ k'.frames k.currpid, ∃ v, f = .ret v := by
    intro k' b h
    refine ⟨h.currpid, h.preempt, h.ndefers, h.halted, h.attempt, fun f hf => ?_⟩
    obtain ⟨l, hl, hl'⟩ := h.frames
    rw [hl] at hf
    exact (List.mem_append.mp hf).elim (hl' f) (hret f)
  unfold Brief at hbrief
  split at hbrief
  · exact hkeeps (keeps_resume hd _)
  · exact hkeeps (keeps_signal hd _)
  · exact hkeeps (keeps_send hd _ _)
  · rename_i d
    have hnot : ¬ Attempts k (.input (.call (.sched_cntl d))) := id
    rw [sched_cntl_other hstart hstop, decide_eq_false hnot]
    exact hkeeps (keeps_ret k SYSERR)
  · -- a call returns
    rcases hf : k.frames k.currpid with _ | ⟨f, fs⟩
    · exact absurd hf hable.2
    · obtain ⟨v, rfl⟩ := hret f (by rw [hf]; exact List.mem_cons_self)
      have hcont : move k (.input .cont) = k.pop.ret v := step_cont hf
      rw [hcont, decide_eq_false fun h : Attempts k (.input .cont) => h]
      refine ⟨rfl, rfl, rfl, rfl, (Bool.or_false _).symm, fun g hg => hret g ?_⟩
      have hpop : (k.pop.ret v).frames k.currpid = (k.frames k.currpid).tail := by
        simp [Kernel.pop, Kernel.ret]
      rw [hpop] at hg
      exact List.mem_of_mem_tail hg
  · exact hkeeps (keeps_readyCall hd _)
  · exact absurd hbrief id

/-- The guard that allows no deed: no call in a section needs one. -/
abbrev noDeed : Guard := fun _ _ => False

/-! ## `sched_cntl` -/

theorem start_first (h : k.ndefers = 0) :
    move k start = { k with attempt := false, ndefers := 1 }.ret OK := by
  show sched_cntl 1 k = _
  unfold sched_cntl
  rw [if_pos rfl, if_pos h]
  simp only [h]
  rfl

theorem start_again (h : k.ndefers ≠ 0) :
    move k start = { k with ndefers := int32 (k.ndefers + 1) }.ret OK := by
  show sched_cntl 1 k = _
  unfold sched_cntl
  rw [if_pos rfl, if_neg h]

theorem stop_none (h : k.ndefers ≤ 0) : move k stop = k.ret SYSERR := by
  show sched_cntl 2 k = _
  unfold sched_cntl
  rw [if_neg (by decide), if_pos rfl, if_pos h]

theorem stop_inner (h : 1 < k.ndefers) :
    move k stop = { k with ndefers := k.ndefers - 1 }.ret OK := by
  have hne : ¬ (k.ndefers - 1 = 0 ∧ k.attempt = true) := fun hand => by omega
  show sched_cntl 2 k = _
  unfold sched_cntl
  rw [if_neg (by decide), if_pos rfl, if_neg (by omega)]
  exact if_neg hne

theorem stop_attempted (h : k.ndefers = 1) (ha : k.attempt = true) :
    move k stop = resched ({ k with ndefers := 0 }.push (.ret OK)) := by
  show sched_cntl 2 k = _
  unfold sched_cntl
  rw [if_neg (by decide), if_pos rfl, if_neg (by omega)]
  simp only [h, ha]
  rfl

theorem stop_calm (h : k.ndefers = 1) (ha : k.attempt = false) :
    move k stop = { k with ndefers := 0 }.ret OK := by
  show sched_cntl 2 k = _
  unfold sched_cntl
  rw [if_neg (by decide), if_pos rfl, if_neg (by omega)]
  simp only [h, ha]
  rfl

/-! ## The invariant of a run -/

/-- `Defer` counts the sections and notes the attempts. -/
structure Counts (w : Watch) : Prop where
  depth : w.kernel.ndefers = w.depth
  attempt : 0 < w.depth → w.kernel.attempt = w.attempted
  /-- inside a section every call is at its return -/
  returning : 0 < w.depth →
    ∀ f ∈ w.kernel.frames w.kernel.currpid, ∃ v, f = .ret v

/-- What holds between any two moves. -/
structure Inv (w : Watch) (ls : Lists) : Prop extends Counts w where
  good : Good w.kernel ls
  ranked : Ranked (w.kernel.withQueues ls)
  /-- the right process runs, unless one was made ready unasked -/
  settled : w.unasked = false → Settled (w.kernel.withQueues ls)

theorem Inv.runs {w : Watch} {ls : Lists} {m : Move} (h : Inv w ls) (hable : Able w.kernel m) :
    w.kernel.halted = none ∧ Runs (w.kernel.withQueues ls) := by
  have hhalt : w.kernel.halted = none := by
    cases m with
    | ready pid resch => exact hable.1
    | input i =>
      cases i with
      | call c => exact hable.1
      | cont => exact hable.1
      | tick => exact hable
  exact ⟨hhalt, h.good.runs hhalt⟩

/-- The lists after a move, and whether they are as a `resched` leaves them. -/
def Leads (w : Watch) (ls : Lists) (k' : Kernel QTab) : Prop :=
  ∃ ls', Good k' ls' ∧ Ranked (k'.withQueues ls') ∧
    (Settled (w.kernel.withQueues ls) → Settled (k'.withQueues ls'))

theorem Inv.seg {w : Watch} {ls : Lists} {G : Guard} (h : Inv w ls)
    (hr : Runs (w.kernel.withQueues ls)) (hG : ∀ a p, ¬ G a (.chprio p))
    (hseg : Refines (Seg G) w.kernel k' ls) : Leads w ls k' := by
  obtain ⟨ls', hl', hseg'⟩ := hseg
  exact ⟨ls', h.good.seg hr hl' hseg', hseg'.acts.ranked hG h.good.base h.ranked,
    fun hset => (hseg'.ranked hG h.good.base h.ranked hset).2⟩

/-- A call of `ready` without a request to reschedule. -/
theorem Inv.unasked {w : Watch} {ls : Lists} (h : Inv w ls) (hr : Runs (w.kernel.withQueues ls))
    {pid : Int} (hbad : ¬ isbadpid w.kernel pid) (hst : (w.kernel.proctab pid).prstate = .susp) :
    ∃ ls', Good (readyCall pid false w.kernel) ls' ∧
      Ranked ((readyCall pid false w.kernel).withQueues ls') := by
  unfold readyCall
  rw [if_neg hbad]
  have hp := (isPid_of_not_bad hbad).1
  obtain ⟨hag, hacts, hruns⟩ := @makeReady_susp noDeed w.kernel ls pid OK h.good.base hr hp hst
  have hlive : ((w.kernel.push (.ret OK)).proctab pid).prstate ≠ .free := by
    rw [show ((w.kernel.push (.ret OK)).proctab pid).prstate = .susp from hst]
    decide
  have hlinked : Linked (w.kernel.push (.ret OK)).queuetab ls := h.good.linked
  obtain ⟨ls', hl, heq, -⟩ := ready_refines hlinked hag hp hlive
  rw [← heq] at hacts hruns
  exact ⟨ls', ⟨hl, hacts.base h.good.base, fun _ => hruns⟩,
    hacts.ranked (fun _ _ hg => hg) h.good.base h.ranked⟩

/-- The segments of the calls inside a section. -/
theorem brief_seg {ls : Lists} {m : Move} (hg : Good k ls) (hr : Runs (k.withQueues ls))
    (hbrief : Brief m) (hready : ∀ p b, m = .ready p b → ¬ isbadpid k p →
      (k.proctab p).prstate = .susp ∧ b = true)
    (hret : ∀ f ∈ k.frames k.currpid, ∃ v, f = .ret v)
    (hmax : m = start → k.ndefers < 2 ^ 31 - 1) : Refines (Seg noDeed) k (move k m) ls := by
  unfold Brief at hbrief
  split at hbrief
  · exact resume_seg hg.linked hg.base hr
  · exact signal_seg hg.linked hg.base hr
  · exact send_seg hg.linked hg.base hr
  · exact sched_cntl_seg hg.linked hg.base hr fun hd => hmax (by rw [hd]; rfl)
  · show Refines (Seg noDeed) k (step k .cont) ls
    rcases hf : k.frames k.currpid with _ | ⟨f, fs⟩
    · have hstuck : step k .cont = k := by simp only [step, hf]
      rw [hstuck]
      exact ⟨ls, hg.linked, .calm .refl id id⟩
    · obtain ⟨v, rfl⟩ := hret f (by rw [hf]; exact List.mem_cons_self)
      rw [step_cont hf]
      have hpop : Act noDeed (k.withQueues ls) (k.pop.withQueues ls) :=
        .tidy (tidy_pop (show (k.withQueues ls).frames k.currpid = .ret v :: fs from hf)
          (by simp [Frame.Vital]))
      exact (@seg_ret noDeed k.pop ls hg.linked v).after (.single hpop) id id
  · rename_i pid b
    show Refines (Seg noDeed) k (readyCall pid b k) ls
    unfold readyCall
    by_cases hbad : isbadpid k pid
    · rw [if_pos hbad]
      exact seg_ret hg.linked _
    · rw [if_neg hbad]
      obtain ⟨hst, rfl⟩ := hready pid b rfl hbad
      exact seg_susp hg.linked hg.base hr (isPid_of_not_bad hbad).1 hst
  · exact absurd hbrief id

/-- **A move leads from lists to lists**, and from a schedule that is right to
one that is. -/
theorem Inv.leads {w : Watch} {ls : Lists} {m : Move} (h : Inv w ls) (hable : Able w.kernel m)
    (hproper : Proper w m) (hcount : Counted w m) :
    ∃ ls', Good (move w.kernel m) ls' ∧ Ranked ((move w.kernel m).withQueues ls') ∧
      (¬ Unasked w.kernel m → Settled (w.kernel.withQueues ls) →
        Settled ((move w.kernel m).withQueues ls')) := by
  obtain ⟨hhalt, hr⟩ := h.runs hable
  have hleads : ∀ {k'}, Leads w ls k' → ∃ ls', Good k' ls' ∧ Ranked (k'.withQueues ls') ∧
      (¬ Unasked w.kernel m → Settled (w.kernel.withQueues ls) → Settled (k'.withQueues ls')) :=
    fun ⟨ls', hg', hrank', hset'⟩ => ⟨ls', hg', hrank', fun _ => hset'⟩
  by_cases hun : Unasked w.kernel m
  · -- only `ready` is called so
    cases m with
    | input i => exact absurd hun id
    | ready pid b =>
      obtain ⟨hbad, rfl⟩ := hun
      obtain ⟨ls', hg', hrank'⟩ := h.unasked hr hbad (hproper.2 pid false rfl hbad)
      exact ⟨ls', hg', hrank', fun hno => absurd ⟨hbad, rfl⟩ hno⟩
  have hready : ∀ p b, m = .ready p b → ¬ isbadpid w.kernel p →
      (w.kernel.proctab p).prstate = .susp ∧ b = true := by
    rintro p b rfl hbad
    refine ⟨hproper.2 p b rfl hbad, ?_⟩
    cases b with
    | false => exact absurd ⟨hbad, rfl⟩ hun
    | true => rfl
  have hmax : m = start → w.kernel.ndefers < 2 ^ 31 - 1 := fun hs => by
    have hlt := hcount.1 hs
    rw [h.depth]
    omega
  by_cases hd : 0 < w.depth
  · exact hleads (h.seg hr (fun _ _ hg => hg)
      (brief_seg h.good hr (hproper.1 hd) hready (h.returning hd) hmax))
  · have h0 : w.kernel.ndefers = 0 := by
      rw [h.depth]
      omega
    cases m with
    | ready pid b =>
      refine hleads (h.seg hr (fun _ _ hg => hg) (@brief_seg _ ls (.ready pid b) h.good hr trivial
        hready ?_ hmax))
      intro f hf
      rw [hable.2] at hf
      exact absurd hf List.not_mem_nil
    | input i =>
      by_cases hch : ∃ p v, i = .call (.chprio p v)
      · obtain ⟨p, v, rfl⟩ := hch
        obtain ⟨hg', hrank', hset'⟩ := chprio_kept h.good h.ranked hhalt (hcount.2 p v rfl)
        exact ⟨ls, hg', hrank', fun _ => hset'⟩
      · have hdis : Disciplined w.kernel i := ⟨fun _ => by omega, by omega⟩
        refine hleads (h.seg hr (fun _ p hdo => ?_)
          (step_seg h.good.linked h.good.base hr hable hdis))
        obtain ⟨hdo, -⟩ := hdo
        cases hdo with
        | chprio => exact hch ⟨_, _, rfl⟩

/-! ## One move -/

variable {w : Watch} {ls : Lists} {m : Move}

theorem depth_start : (w.step start).depth = w.depth + 1 := by
  show (if start = start then w.depth + 1 else if start = stop then w.depth - 1 else w.depth) = _
  rw [if_pos rfl]

theorem depth_stop : (w.step stop).depth = w.depth - 1 := by
  show (if stop = start then w.depth + 1 else if stop = stop then w.depth - 1 else w.depth) = _
  rw [if_neg (by decide), if_pos rfl]

theorem depth_other (hstart : m ≠ start) (hstop : m ≠ stop) : (w.step m).depth = w.depth := by
  unfold Watch.step
  exact (if_neg hstart).trans (if_neg hstop)

theorem attempted_first (h0 : w.depth = 0) : (w.step start).attempted = false := by
  unfold Watch.step
  exact if_pos ⟨rfl, h0⟩

theorem attempted_later (h : ¬ (m = start ∧ w.depth = 0)) :
    (w.step m).attempted = (w.attempted || decide (Attempts w.kernel m)) := by
  unfold Watch.step
  exact if_neg h

/-- `sched_cntl` is no attempt. -/
theorem attempted_sched {d : Int} (h : ¬ (d = 1 ∧ w.depth = 0)) :
    (w.step (.input (.call (.sched_cntl d)))).attempted = w.attempted := by
  have hnot : ¬ Attempts w.kernel (.input (.call (.sched_cntl d))) := id
  have hd : ¬ (Move.input (.call (.sched_cntl d)) = start ∧ w.depth = 0) := fun hand => by
    have hd1 : d = 1 := by simpa [start] using hand.1
    exact h ⟨hd1, hand.2⟩
  rw [attempted_later hd, decide_eq_false hnot, Bool.or_false]

/-- No move but `sched_cntl` changes how often rescheduling is deferred. -/
theorem Counts.move_ndefers (h : Counts w) (hable : Able w.kernel m) (hproper : Proper w m)
    (hstart : m ≠ start) (hstop : m ≠ stop) : (move w.kernel m).ndefers = w.kernel.ndefers := by
  by_cases hd : 0 < w.depth
  · have hpos : 0 < w.kernel.ndefers := by
      rw [h.depth]
      omega
    exact (brief_keeps hpos hable (hproper.1 hd) (h.returning hd) hstart hstop).2.2.1
  · cases m with
    | ready pid b =>
      show (readyCall pid b w.kernel).ndefers = _
      unfold readyCall
      split
      · rfl
      · exact ready_ndefers pid b _
    | input i =>
      by_cases hsc : ∃ d, i = .call (.sched_cntl d)
      · obtain ⟨d, rfl⟩ := hsc
        rw [sched_cntl_other hstart hstop]
        rfl
      · exact step_ndefers fun d hi => hsc ⟨d, hi⟩

theorem Counts.start (h : Counts w) (hable : Able w.kernel start) (hlt : w.depth < 2 ^ 31 - 1) :
    Counts (w.step start) := by
  have hdep := h.depth
  by_cases h0 : w.depth = 0
  · -- the outermost section begins
    have hk : (w.step Deferral.start).kernel =
        ({ w.kernel with attempt := false, ndefers := 1 } : Kernel QTab).ret OK :=
      start_first (by rw [hdep, h0]; rfl)
    refine ⟨?_, fun _ => ?_, fun _ f hf => ?_⟩
    · rw [hk, depth_start, h0]
      rfl
    · rw [hk, attempted_first h0]
      rfl
    · rw [hk] at hf
      have hmem : f ∈ w.kernel.frames w.kernel.currpid := hf
      rw [hable.2] at hmem
      exact absurd hmem List.not_mem_nil
  · have hk : (w.step Deferral.start).kernel =
        ({ w.kernel with ndefers := int32 (w.kernel.ndefers + 1) } : Kernel QTab).ret OK :=
      start_again (by rw [hdep]; omega)
    refine ⟨?_, fun _ => ?_, fun _ f hf => ?_⟩
    · rw [hk, depth_start]
      show int32 (w.kernel.ndefers + 1) = _
      rw [hdep, int32_eq (by omega) (by omega)]
      rfl
    · rw [hk, show (w.step Deferral.start).attempted = w.attempted from
        attempted_sched fun hand => h0 hand.2]
      exact h.attempt (by omega)
    · rw [hk] at hf
      exact h.returning (by omega) f hf

theorem Counts.stop (h : Counts w) : Counts (w.step stop) := by
  have hdep := h.depth
  by_cases h1 : w.depth ≤ 1
  · -- no section is left
    have h0 : (w.step Deferral.stop).depth = 0 := by
      rw [depth_stop]
      omega
    refine ⟨?_, fun hpos => by omega, fun hpos => by omega⟩
    rw [h0]
    show (move w.kernel Deferral.stop).ndefers = 0
    by_cases hnone : w.depth = 0
    · rw [stop_none (by rw [hdep, hnone]; rfl)]
      exact hdep.trans (by rw [hnone]; rfl)
    · have hd1 : w.kernel.ndefers = 1 := by
        rw [hdep]
        omega
      cases hatt : w.kernel.attempt with
      | true =>
        rw [stop_attempted hd1 hatt, resched_ndefers]
        rfl
      | false =>
        rw [stop_calm hd1 hatt]
        rfl
  · have hk : (w.step Deferral.stop).kernel =
        ({ w.kernel with ndefers := w.kernel.ndefers - 1 } : Kernel QTab).ret OK :=
      stop_inner (by rw [hdep]; omega)
    refine ⟨?_, fun _ => ?_, fun _ f hf => ?_⟩
    · rw [hk, depth_stop]
      show w.kernel.ndefers - 1 = _
      rw [hdep]
      omega
    · rw [hk, show (w.step Deferral.stop).attempted = w.attempted from
        attempted_sched fun hand => absurd hand.1 (by decide)]
      exact h.attempt (by omega)
    · rw [hk] at hf
      exact h.returning (by omega) f hf

/-- **`Defer` counts the sections of every run.** -/
theorem Counts.step (h : Counts w) (hable : Able w.kernel m) (hproper : Proper w m)
    (hcount : Counted w m) : Counts (w.step m) := by
  by_cases hstart : m = Deferral.start
  · subst hstart
    exact h.start hable (hcount.1 rfl)
  by_cases hstop : m = Deferral.stop
  · subst hstop
    exact h.stop
  have hdepth := @depth_other w m hstart hstop
  have hinside := fun hpos : 0 < w.depth => brief_keeps (by rw [h.depth]; omega) hable
    (hproper.1 hpos) (h.returning hpos) hstart hstop
  refine ⟨?_, fun hpos => ?_, fun hpos f hf => ?_⟩
  · rw [hdepth, ← h.depth]
    exact h.move_ndefers hable hproper hstart hstop
  · rw [hdepth] at hpos
    obtain ⟨-, -, -, -, hnote, -⟩ := hinside hpos
    rw [attempted_later fun hand => hstart hand.1, ← h.attempt hpos]
    exact hnote
  · rw [hdepth] at hpos
    obtain ⟨hcur, -, -, -, -, hret⟩ := hinside hpos
    rw [show (w.step m).kernel.currpid = w.kernel.currpid from hcur] at hf
    exact hret f hf

/-- The end of the outermost section, after an attempt, leaves the right
process running. -/
theorem Inv.resched (h : Inv w ls) (hr : Runs (w.kernel.withQueues ls))
    (h1 : w.kernel.ndefers = 1) (ha : w.kernel.attempt = true) :
    ∃ ls', Good (move w.kernel stop) ls' ∧ Ranked ((move w.kernel stop).withQueues ls') ∧
      Settled ((move w.kernel stop).withQueues ls') := by
  rw [stop_attempted h1 ha]
  set k₁ := ({ w.kernel with ndefers := 0 } : Kernel QTab).push (.ret OK) with hk₁
  have hbook : Tidy (w.kernel.withQueues ls)
      (({ w.kernel with ndefers := 0 } : Kernel QTab).withQueues ls) :=
    ⟨rfl, rfl, rfl, rfl, rfl, rfl, rfl, rfl, rfl, id, fun _ => rfl⟩
  have hacts : Acts noDeed (w.kernel.withQueues ls) (k₁.withQueues ls) :=
    .tail (.single (.tidy hbook)) (.tidy (tidy_push _ (by simp [Frame.Vital])))
  have hb₁ := hacts.base h.good.base
  have hl₁ : Linked k₁.queuetab ls := h.good.linked
  obtain ⟨ls', hl, hres⟩ := resched_refines hl₁ hb₁.agree hr.1 fun _ => hr
  have hseg : Seg noDeed (w.kernel.withQueues ls) ((Xinu.resched k₁).withQueues ls') :=
    .resched hacts hres
  have hG : ∀ (a : AKernel) (p : Int), ¬ noDeed a (.chprio p) := fun _ _ hg => hg
  exact ⟨ls', h.good.seg hr hl hseg, hseg.acts.ranked hG h.good.base h.ranked,
    hres.settled (hacts.ranked hG h.good.base h.ranked) hb₁⟩

/-- **Every move keeps the invariant.** -/
theorem Inv.step (h : Inv w ls) (hable : Able w.kernel m) (hproper : Proper w m)
    (hcount : Counted w m) : ∃ ls', Inv (w.step m) ls' := by
  have hcounts := h.toCounts.step hable hproper hcount
  by_cases hend : w.Ends m ∧ w.attempted = true
  · -- the outermost section ends and reschedules
    obtain ⟨⟨rfl, h1⟩, hatt⟩ := hend
    have hd1 : w.kernel.ndefers = 1 := by
      rw [h.depth, h1]
      rfl
    obtain ⟨ls', hg', hrank', hset'⟩ := h.resched (h.runs hable).2 hd1
      ((h.attempt (by omega)).trans hatt)
    exact ⟨ls', hcounts, hg', hrank', fun _ => hset'⟩
  · obtain ⟨ls', hg', hrank', hset'⟩ := h.leads hable hproper hcount
    refine ⟨ls', hcounts, hg', hrank', fun hu => ?_⟩
    have hor : (w.unasked || decide (Unasked w.kernel m)) = false := by
      rw [← hu]
      exact (if_neg hend).symm
    obtain ⟨hu0, hun⟩ := Bool.or_eq_false_iff.mp hor
    exact hset' (of_decide_eq_false hun) (h.settled hu0)

theorem inv_init (B : HeapBounds) (mem : Mem) : Inv ⟨sysinit B mem, 0, false, false⟩ noProcs := by
  have hpl := sysinit_placed B mem
  exact ⟨⟨rfl, fun h => absurd h (lt_irrefl 0), fun h => absurd h (lt_irrefl 0)⟩, hpl.good,
    hpl.ranked, fun _ => hpl.settled⟩

theorem watched_inv (h : Watched (fun w m => Proper w m ∧ Counted w m) w) : ∃ ls, Inv w ls := by
  induction h with
  | init B mem => exact ⟨noProcs, inv_init B mem⟩
  | step _ hable hok ih =>
    obtain ⟨ls, hinv⟩ := ih
    exact hinv.step hable hok.1 hok.2

/-! ## The promise -/

/-- A move inside a section leaves the processor to the current process. -/
theorem Inv.stays (h : Inv w ls) (hable : Able w.kernel m) (hproper : Proper w m)
    (hcount : Counted w m) (hpos : 0 < w.kernel.ndefers) (hend : ¬ w.Ends m) :
    (w.step m).kernel.currpid = w.kernel.currpid ∧
      (w.step m).kernel.preempt = w.kernel.preempt ∧
      ((w.step m).kernel.proctab w.kernel.currpid).prstate = .curr := by
  obtain ⟨hhalt, hr⟩ := h.runs hable
  have hdep := h.depth
  by_cases hstart : m = start
  · subst hstart
    rw [show (w.step start).kernel = _ from start_again hpos.ne']
    exact ⟨rfl, rfl, hr.2⟩
  by_cases hstop : m = stop
  · subst hstop
    have hne : w.depth ≠ 1 := fun h1 => hend ⟨rfl, h1⟩
    rw [show (w.step stop).kernel = _ from stop_inner (by omega)]
    exact ⟨rfl, rfl, hr.2⟩
  obtain ⟨hcur, hpre, -, hhalt', -, -⟩ := brief_keeps hpos hable
    (hproper.1 (by omega)) (h.returning (by omega)) hstart hstop
  obtain ⟨ls', hinv'⟩ := h.step hable hproper hcount
  have hr' : Runs ((w.step m).kernel.withQueues ls') := hinv'.good.runs (hhalt'.trans hhalt)
  have hst : ((w.step m).kernel.proctab (w.step m).kernel.currpid).prstate = .curr := hr'.2
  rw [show (w.step m).kernel.currpid = w.kernel.currpid from hcur] at hst
  exact ⟨hcur, hpre, hst⟩

/-- After the outermost section the running process has the highest priority. -/
theorem Inv.highest (h : Inv w ls) (hable : Able w.kernel m) (hproper : Proper w m)
    (hcount : Counted w m) (hend : w.Ends m) (hwhy : w.attempted = true ∨ w.unasked = false) :
    ∀ p, IsPid p → ((w.step m).kernel.proctab p).prstate = .ready →
      ((w.step m).kernel.proctab p).prprio ≤
        ((w.step m).kernel.proctab (w.step m).kernel.currpid).prprio := by
  intro p hp hst
  obtain ⟨ls', hinv'⟩ := h.step hable hproper hcount
  have hun : (w.step m).unasked = false := by
    show (if w.Ends m ∧ w.attempted = true then false
      else w.unasked || decide (Unasked w.kernel m)) = false
    by_cases hatt : w.attempted = true
    · exact if_pos ⟨hend, hatt⟩
    · rw [if_neg fun hand => hatt hand.2, hwhy.resolve_left hatt, hend.1]
      exact decide_eq_false id
  have hzero : (w.step m).kernel.ndefers = 0 := by
    rw [hinv'.depth, hend.1, depth_stop, hend.2]
    rfl
  have hmem : p ∈ ls'.on readylist := (hinv'.good.ready_iff hp).mpr hst
  rcases hinv'.settled hun with ⟨hpos, -⟩ | hle
  · rw [show ((w.step m).kernel.withQueues ls').ndefers = 0 from hzero] at hpos
    exact absurd hpos (lt_irrefl 0)
  · exact hle p hmem

/-- **Deferral keeps its promise**: in every run whose sections hold only
`ready`, `signal`, `send` and `resume`, however they are nested, no context
switch happens while rescheduling is deferred; the end of the outermost
section reschedules exactly if a call inside came to its `resched`, and leaves
the process with the highest priority running; and a `DEFER_STOP` too many is
refused. -/
theorem sections_defer : ∀ w, Watched (fun w m => Proper w m ∧ Counted w m) w →
    ∀ m, Able w.kernel m → Proper w m → Counted w m → Deferred w m := by
  intro w hw m hable hproper hcount
  obtain ⟨ls, h⟩ := watched_inv hw
  have hdep := h.depth
  refine ⟨h.stays hable hproper hcount, by omega, ?_, ?_, h.highest hable hproper hcount, ?_, ?_⟩
  · rintro ⟨rfl, h1⟩ hatt
    exact stop_attempted (by rw [hdep, h1]; rfl) ((h.attempt (by omega)).trans hatt)
  · rintro ⟨rfl, h1⟩ hatt
    exact stop_calm (by rw [hdep, h1]; rfl) ((h.attempt (by omega)).trans hatt)
  · rintro rfl h1
    exact stop_inner (by omega)
  · rintro rfl h0
    exact stop_none (by rw [hdep, h0]; rfl)

/-! ## Runs given by a list -/

/-- A move that `Proper` and `Counted` do not look at outside sections. -/
def Plain : Move → Prop
  | .ready _ _ | .input (.call (.chprio _ _)) => False
  | _ => True

instance (m : Move) : Decidable (Plain m) := by
  unfold Plain
  split <;> infer_instance

theorem proper_plain (h : Plain m) (hbrief : 0 < w.depth → Brief m) : Proper w m := by
  refine ⟨hbrief, fun p b hm => ?_⟩
  rw [hm] at h
  exact absurd h id

theorem counted_plain (h : Plain m) (hlt : m = start → w.depth < 2 ^ 31 - 1) : Counted w m := by
  refine ⟨hlt, fun p v hm => ?_⟩
  rw [hm] at h
  exact absurd h id

/-- The moves of a list can be made one after the other. -/
def Makes : Watch → List Move → Prop
  | _, [] => True
  | w, m :: ms =>
    (Able w.kernel m ∧ Plain m ∧ (0 < w.depth → Brief m) ∧ w.depth < 2 ^ 31 - 1) ∧
      Makes (w.step m) ms

instance decidableMakes : ∀ (w : Watch) (ms : List Move), Decidable (Makes w ms)
  | _, [] => instDecidableTrue
  | w, m :: ms =>
    have := decidableMakes (w.step m) ms
    inferInstanceAs (Decidable ((Able w.kernel m ∧ Plain m ∧ (0 < w.depth → Brief m) ∧
      w.depth < 2 ^ 31 - 1) ∧ Makes (w.step m) ms))

theorem Watched.makes : ∀ {ms : List Move} {w : Watch},
    Watched (fun w m => Proper w m ∧ Counted w m) w → Makes w ms →
      Watched (fun w m => Proper w m ∧ Counted w m) (ms.foldl Watch.step w)
  | [], _, h, _ => h
  | m :: ms, w, h, ⟨⟨hable, hplain, hbrief, hlt⟩, hms⟩ =>
    @Watched.makes ms _ (.step h hable
      ⟨proper_plain hplain hbrief, counted_plain hplain fun _ => hlt⟩) hms

theorem Watched.mono {ok ok' : Watch → Move → Prop} (hok : ∀ w m, ok w m → ok' w m)
    (h : Watched ok w) : Watched ok' w := by
  induction h with
  | init B mem => exact .init B mem
  | step _ hable hi ih => exact .step ih hable (hok _ _ hi)

/-- The null process readies a process in a section inside a section, and the
end of the outer one switches to it. -/
theorem sections_defer_boot :
    let w := [.input (.call (.create 1024 20)), start, start, .input (.call (.resume 1)),
      .input .cont, stop].foldl Watch.step ⟨bootKernel, 0, false, false⟩
    (w.kernel.currpid = 0 ∧ (w.step stop).kernel.currpid = 1) ∧ Deferred w stop := by
  refine ⟨by decide +kernel, sections_defer _ (Watched.makes (.init _ _) (by decide +kernel)) stop
    (by decide +kernel) (proper_plain trivial fun _ => trivial)
    (counted_plain trivial fun h => absurd h (by decide))⟩

/-! ## Too many sections -/

/-- `n` more sections begin. -/
theorem starts (n : Nat) : ∀ {w : Watch}, Watched Proper w → w.kernel.halted = none →
    w.kernel.frames w.kernel.currpid = [] → 0 < w.kernel.ndefers → 0 < w.depth →
    w.kernel.ndefers + n ≤ 2 ^ 31 - 1 →
    ∃ w', Watched Proper w' ∧ w'.kernel.halted = none ∧
      w'.kernel.frames w'.kernel.currpid = [] ∧ w'.kernel.ndefers = w.kernel.ndefers + n ∧
      w'.depth = w.depth + n ∧ w'.attempted = w.attempted := by
  induction n with
  | zero => exact fun hw hh hf _ _ _ => ⟨_, hw, hh, hf, by simp, rfl, rfl⟩
  | succ n ih =>
    intro w hw hh hf hpos hdep hle
    have hk : (w.step start).kernel =
        ({ w.kernel with ndefers := int32 (w.kernel.ndefers + 1) } : Kernel QTab).ret OK :=
      start_again hpos.ne'
    have hnd : (w.step start).kernel.ndefers = w.kernel.ndefers + 1 := by
      rw [hk]
      exact int32_eq (by omega) (by omega)
    have hsame : (w.step start).attempted = w.attempted :=
      attempted_sched fun hand => absurd hand.2 hdep.ne'
    obtain ⟨w', hw', hh', hf', hn', hd', ha'⟩ := ih (w := w.step start)
      (.step hw ⟨hh, hf⟩ (proper_plain trivial fun _ => trivial)) (by rw [hk]; exact hh)
      (by rw [hk]; exact hf) (by omega) (by rw [depth_start]; omega) (by omega)
    refine ⟨w', hw', hh', hf', ?_, ?_, ha'.trans hsame⟩
    · rw [hn', hnd]
      push_cast
      omega
    · rw [hd', depth_start]
      omega

/-- `n` sections end where `Defer.ndefers` has turned negative. -/
theorem stops (n : Nat) : ∀ {w : Watch}, Watched Proper w → w.kernel.halted = none →
    w.kernel.frames w.kernel.currpid = [] → w.kernel.ndefers < 0 → w.depth = n + 1 →
    ∃ w', Watched Proper w' ∧ w'.kernel.halted = none ∧
      w'.kernel.frames w'.kernel.currpid = [] ∧ w'.kernel.ndefers < 0 ∧ w'.depth = 1 ∧
      w'.attempted = w.attempted := by
  induction n with
  | zero => exact fun hw hh hf hneg hd => ⟨_, hw, hh, hf, hneg, hd, rfl⟩
  | succ n ih =>
    intro w hw hh hf hneg hd
    have hk : (w.step stop).kernel = w.kernel.ret SYSERR := stop_none hneg.le
    have hsame : (w.step stop).attempted = w.attempted :=
      attempted_sched fun hand => absurd hand.1 (by decide)
    obtain ⟨w', hw', hh', hf', hn', hd', ha'⟩ := ih (w := w.step stop)
      (.step hw ⟨hh, hf⟩ (proper_plain trivial fun _ => trivial)) (by rw [hk]; exact hh)
      (by rw [hk]; exact hf) (by rw [hk]; exact hneg) (by rw [depth_stop]; omega)
    exact ⟨w', hw', hh', hf', hn', hd', ha'.trans hsame⟩

/-- With 2³¹ sections open `Defer.ndefers` is negative. A process was made
ready inside, and the end of the outermost section does not reschedule. -/
theorem sections_not_defer : ¬ ∀ w, Watched Proper w →
    ∀ m, Able w.kernel m → Proper w m → Deferred w m := by
  intro h
  set w₀ := [.input (.call (.create 1024 20)), start, .input (.call (.resume 1)),
    .input .cont].foldl Watch.step ⟨bootKernel, 0, false, false⟩ with hw₀
  have hreach : Watched Proper w₀ :=
    (Watched.makes (.init _ _) (by decide +kernel)).mono fun _ _ hok => hok.1
  have h0 : w₀.kernel.halted = none ∧ w₀.kernel.frames w₀.kernel.currpid = [] ∧
      w₀.kernel.ndefers = 1 ∧ w₀.depth = 1 ∧ w₀.attempted = true := by decide +kernel
  obtain ⟨hh₀, hf₀, hn₀, hd₀, ha₀⟩ := h0
  -- as many sections as `Defer.ndefers` can count, and one more
  obtain ⟨w₁, hw₁, hh₁, hf₁, hn₁, hd₁, ha₁⟩ := starts (2 ^ 31 - 2) hreach hh₀ hf₀ (by omega)
    (by omega) (by rw [hn₀]; norm_num)
  have hk₂ : (w₁.step start).kernel =
      ({ w₁.kernel with ndefers := int32 (w₁.kernel.ndefers + 1) } : Kernel QTab).ret OK :=
    start_again (by rw [hn₁, hn₀]; norm_num)
  have hn₂ : (w₁.step start).kernel.ndefers = -2 ^ 31 := by
    rw [hk₂]
    show int32 (w₁.kernel.ndefers + 1) = _
    rw [hn₁, hn₀]
    decide
  have ha₂ : (w₁.step start).attempted = w₁.attempted :=
    attempted_sched fun hand => by omega
  obtain ⟨w, hw, hh, hf, hneg, hd, ha⟩ := stops (2 ^ 31 - 1) (w := w₁.step start)
    (.step hw₁ ⟨hh₁, hf₁⟩ (proper_plain trivial fun _ => trivial)) (by rw [hk₂]; exact hh₁)
    (by rw [hk₂]; exact hf₁) (by rw [hn₂]; norm_num) (by rw [depth_start]; omega)
  have hatt : w.attempted = true := by rw [ha, ha₂, ha₁, ha₀]
  have hresched := (h w hw stop ⟨hh, hf⟩ (proper_plain trivial fun _ => trivial)).resched
    ⟨rfl, hd⟩ hatt
  have hzero : (w.step stop).kernel.ndefers = 0 := by
    rw [hresched, resched_ndefers]
    rfl
  have hk : (w.step stop).kernel = w.kernel.ret SYSERR := stop_none hneg.le
  rw [hk] at hzero
  exact absurd hzero hneg.ne

end Xinu.Deferral
