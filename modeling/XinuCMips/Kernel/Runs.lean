import XinuCMips.Kernel.Steps
import XinuCMips.Kernel.Defers

/-!
# Runs of the kernel

Every state of every run holds lists in `queuetab` that agree with the
process table. An invariant of the abstract kernel that every move preserves
is therefore an invariant of the machine (`Reaches.invariant`).

* `sysinit_good`        — after `sysinit` all queues are empty;
* `step_good`           — every step keeps the lists and moves them;
* `NoDefer.disciplined` — without `sched_cntl` rescheduling is never deferred;
* `queues_agree`        — **the queues hold exactly the processes whose state
  says so.**
-/

namespace Xinu

open DoubleLinks

variable {k : Kernel QTab} {ls : Lists}

/-! ## The state after `sysinit` -/

/-- Every queue is empty. -/
def noProcs : Lists := ⟨fun _ => [], fun _ => MINKEY⟩

theorem newqueue_eq (t : QTab) (q : Int) :
    newqueue t q =
      Function.update (Function.update t q ⟨MAXKEY, q + 1, EMPTY⟩) (q + 1) ⟨MINKEY, EMPTY, q⟩ := by
  funext i
  by_cases h1 : i = q + 1
  · subst h1
    simp [newqueue, setNext, setPrev, setKey, queuehead, queuetail]
  · by_cases h0 : i = q
    · subst h0
      simp [newqueue, setNext, setPrev, setKey, queuehead, queuetail]
    · simp [newqueue, setNext, setPrev, setKey, queuehead, queuetail, h0, h1]

/-- Queue ids are two apart, so no `newqueue` touches the nodes of another. -/
theorem foldl_newqueue {i : Int} (hi : i % 2 = 0) : ∀ {l : List Int} (t : QTab),
    (∀ q ∈ l, q % 2 = 0) →
      l.foldl newqueue t i = (if i ∈ l then ⟨MAXKEY, i + 1, EMPTY⟩ else t i) ∧
      l.foldl newqueue t (i + 1) = if i ∈ l then ⟨MINKEY, EMPTY, i⟩ else t (i + 1)
  | [], t, _ => by simp
  | q :: l, t, hl => by
    have hq := hl q (by simp)
    have ih := @foldl_newqueue i hi l (newqueue t q) fun r hr => hl r (by simp [hr])
    rw [List.foldl_cons, ih.1, ih.2, newqueue_eq]
    by_cases hm : i ∈ l
    · simp [hm]
    · by_cases hiq : i = q
      · subst hiq
        simp [hm]
      · have h1 : i ≠ q + 1 := by omega
        have h2 : i + 1 ≠ q := by omega
        have h3 : i + 1 ≠ q + 1 := by omega
        simp [hm, hiq, h1, h2]

theorem mem_queueIds {q : Int} (h : IsQueue q) : q ∈ queueIds := by
  obtain ⟨i, h0, h1, rfl⟩ := h
  refine List.mem_map.mpr ⟨i.toNat, List.mem_range.mpr ?_, by rw [Int.toNat_of_nonneg h0]⟩
  unfold NSEM at *
  omega

theorem queueIds_even : ∀ q ∈ queueIds, q % 2 = 0 := by
  intro q hq
  obtain ⟨i, -, rfl⟩ := List.mem_map.mp hq
  unfold semqueue NPROC
  omega

theorem queueIds_not_pid : ∀ q ∈ queueIds, NPROC ≤ q := by
  intro q hq
  obtain ⟨i, -, rfl⟩ := List.mem_map.mp hq
  unfold semqueue
  omega

theorem foldl_newqueue_pid {p : Int} (hp : p < NPROC) : ∀ {l : List Int} (t : QTab),
    (∀ q ∈ l, NPROC ≤ q) → l.foldl newqueue t p = t p
  | [], _, _ => rfl
  | q :: l, t, hl => by
    have hq := hl q (by simp)
    have h0 : p ≠ q := by omega
    have h1 : p ≠ q + 1 := by omega
    rw [List.foldl_cons, @foldl_newqueue_pid p hp l _ fun r hr => hl r (by simp [hr]), newqueue_eq]
    simp [h0, h1]

theorem sysinit_linked (B : HeapBounds) (m : Mem) : Linked (sysinit B m).queuetab noProcs where
  links q hq := by
    have h := @foldl_newqueue q hq.bounds.2.2 queueIds (fun _ => ⟨MINKEY, EMPTY, EMPTY⟩) queueIds_even
    rw [if_pos (mem_queueIds hq), if_pos (mem_queueIds hq)] at h
    simp [noProcs, sysinit, h.1, h.2]
  tails q hq := by
    have h := @foldl_newqueue q hq.bounds.2.2 queueIds (fun _ => ⟨MINKEY, EMPTY, EMPTY⟩) queueIds_even
    rw [if_pos (mem_queueIds hq), if_pos (mem_queueIds hq)] at h
    simp [sysinit, h.2]
  keys p hp := by
    have h := @foldl_newqueue_pid p hp.2 queueIds (fun _ => ⟨MINKEY, EMPTY, EMPTY⟩) queueIds_not_pid
    simp [sysinit, h, noProcs]
  pids q _ p hp := absurd hp (by simp [noProcs])
  nodup _ _ := by simp [noProcs]
  disjoint q r p _ _ hp _ := absurd hp (by simp [noProcs])

/-- The kernel over lists when `sysinit` has finished. -/
def sysinitLists (B : HeapBounds) (m : Mem) : AKernel := (sysinit B m).withQueues noProcs

theorem sysinit_vital (B : HeapBounds) (m : Mem) (p : Int) : (sysinitLists B m).vital p = [] := rfl

theorem sysinit_base (B : HeapBounds) (m : Mem) : Base (sysinitLists B m) where
  agree :=
    { placed := fun q _ p _ => by
        by_cases hp : p = NULLPROC <;>
          simp [sysinitLists, sysinit, noProcs, Kernel.withQueues, Kernel.place, hp]
      off := fun q _ => by simp [sysinitLists, Kernel.withQueues, noProcs]
      nodup := fun q _ => by simp [sysinitLists, Kernel.withQueues, noProcs]
      squeue := fun _ => rfl
      waits := fun p _ _ hst => by
        by_cases hp : p = NULLPROC <;>
          simp [sysinitLists, sysinit, Kernel.withQueues, hp] at hst
      curr := fun p _ _ hst => by
        by_cases hp : p = NULLPROC
        · exact hp
        · simp [sysinitLists, sysinit, Kernel.withQueues, hp] at hst
      prio := fun _ _ => show MINKEY < 0 by decide }
  frames :=
    { gone := fun p _ _ x hmem => absurd hmem (by rw [sysinit_vital]; simp)
      victims := fun p x b hmem => absurd hmem (by rw [sysinit_vital]; simp)
      one := fun p => by rw [sysinit_vital]; simp }
  counts _ := show -2 ^ 31 ≤ (0 : Int) by decide
  nextsem := show (0 : Int) ≤ 0 ∧ (0 : Int) < NSEM by decide

/-! ## Good states -/

/-- `queuetab` holds lists that agree with the process states, and unless the
machine has halted a process is running. -/
structure Good (k : Kernel QTab) (ls : Lists) : Prop where
  linked : Linked k.queuetab ls
  base : Base (k.withQueues ls)
  runs : k.halted = none → Runs (k.withQueues ls)

theorem sysinit_good (B : HeapBounds) (m : Mem) : Good (sysinit B m) noProcs :=
  ⟨sysinit_linked B m, sysinit_base B m, fun _ =>
    ⟨show 0 ≤ NULLPROC ∧ NULLPROC < NPROC by decide, rfl⟩⟩

/-- A segment leads from a good state to a good one. -/
theorem Good.seg {G : Guard} {k' : Kernel QTab} {ls' : Lists} (h : Good k ls)
    (hr : Runs (k.withQueues ls)) (hl : Linked k'.queuetab ls')
    (hseg : Seg G (k.withQueues ls) (k'.withQueues ls')) : Good k' ls' := by
  refine ⟨hl, hseg.acts.base h.base, fun hh => ?_⟩
  rcases hseg.runs h.base hr with hr' | hwild
  · exact hr'
  · rw [show k'.halted = some .wild from hwild] at hh
    simp at hh

/-- **Every step moves the lists.** -/
theorem step_good {i : Input} (h : Good k ls) (hen : Enabled k i) (hdis : Disciplined k i) :
    ∃ ls', Good (step k i) ls' ∧
      Seg (Doing k ls i) (k.withQueues ls) ((step k i).withQueues ls') := by
  have hr := h.runs (by cases i <;> first | exact hen.1 | exact hen)
  obtain ⟨ls', hl, hseg⟩ := step_seg h.linked h.base hr hen hdis
  exact ⟨ls', h.seg hr hl hseg, hseg⟩

/-- **Invariants of the lists are invariants of the machine.** The step may
use that its state is good and that its input was allowed. -/
theorem Reaches.invariant {ok : Kernel QTab → Input → Prop} {I : AKernel → Prop}
    (hok : ∀ k i, ok k i → Disciplined k i) (hinit : ∀ B m, I (sysinitLists B m))
    (hstep : ∀ k i ls b, Good k ls → Enabled k i → ok k i →
      Seg (Doing k ls i) (k.withQueues ls) b → I (k.withQueues ls) → I b)
    (h : Reaches ok k) : ∃ ls, Good k ls ∧ I (k.withQueues ls) := by
  induction h with
  | init B m => exact ⟨noProcs, sysinit_good B m, hinit B m⟩
  | step _ hen hi ih =>
    obtain ⟨ls, hg, hI⟩ := ih
    obtain ⟨ls', hg', hseg⟩ := step_good hg hen (hok _ _ hi)
    exact ⟨ls', hg', hstep _ _ ls _ hg hen hi hseg hI⟩

theorem Reaches.good (h : Reaches Disciplined k) : ∃ ls, Good k ls := by
  obtain ⟨ls, hg, -⟩ := @Reaches.invariant k Disciplined (fun _ => True) (fun _ _ h => h)
    (fun _ _ => trivial) (fun _ _ _ _ _ _ _ _ _ => trivial) h
  exact ⟨ls, hg⟩

/-! ## Queues and process states -/

theorem Reaches.mono {ok ok' : Kernel QTab → Input → Prop} (hok : ∀ k i, ok k i → ok' k i)
    (h : Reaches ok k) : Reaches ok' k := by
  induction h with
  | init B m => exact .init B m
  | step _ hen hi ih => exact .step ih hen (hok _ _ hi)

/-- The inputs of a list can be taken one after the other. -/
def Takes : Kernel QTab → List Input → Prop
  | _, [] => True
  | k, i :: is => Enabled k i ∧ Takes (step k i) is

instance decidableTakes : ∀ (k : Kernel QTab) (is : List Input), Decidable (Takes k is)
  | _, [] => instDecidableTrue
  | k, i :: is =>
    have := decidableTakes (step k i) is
    inferInstanceAs (Decidable (Enabled k i ∧ Takes (step k i) is))

theorem Reaches.takes {ok : Kernel QTab → Input → Prop} : ∀ {is : List Input} {k : Kernel QTab},
    Reaches ok k → Takes k is → (∀ k, ∀ i ∈ is, ok k i) → Reaches ok (is.foldl Xinu.step k)
  | [], _, h, _, _ => h
  | i :: is, k, h, ht, hok =>
    @Reaches.takes ok is _ (.step h ht.1 (hok k i List.mem_cons_self)) ht.2
      fun k j hj => hok k j (List.mem_cons_of_mem i hj)

/-- Without `sched_cntl` every step finds rescheduling not deferred. -/
theorem Reaches.disciplined {ok : Kernel QTab → Input → Prop} (hok : ∀ k i, ok k i → NoDefer k i)
    (h : Reaches ok k) : Reaches (fun k i => ok k i ∧ Disciplined k i) k ∧ k.ndefers = 0 := by
  induction h with
  | init B m => exact ⟨.init B m, rfl⟩
  | step _ hen hi ih =>
    obtain ⟨hreach, h0⟩ := ih
    refine ⟨.step hreach hen ⟨hi, fun _ => by omega, by omega⟩, ?_⟩
    rw [step_ndefers (hok _ _ hi)]
    exact h0

/-- A run without `sched_cntl` never defers rescheduling. -/
theorem NoDefer.disciplined (h : Reaches NoDefer k) : Reaches Disciplined k ∧ k.ndefers = 0 := by
  obtain ⟨hreach, h0⟩ := h.disciplined fun _ _ hi => hi
  exact ⟨hreach.mono fun _ _ hi => hi.2, h0⟩

/-- The queues of `queuetab` as the lists `on`, and the states that put a
process on each of them. -/
structure QueuesAgree (k : Kernel QTab) (on : Int → List Int) : Prop where
  /-- from its head to its tail a queue is linked both ways -/
  linked : ∀ q, IsQueue q →
    Links (fun i => (k.queuetab i).qnext) (fun i => (k.queuetab i).qprev)
      (queuehead q :: (on q ++ [queuetail q]))
  /-- and passes no node twice -/
  nodup : ∀ q, IsQueue q → (queuehead q :: (on q ++ [queuetail q])).Nodup
  pids : ∀ q, IsQueue q → ∀ p ∈ on q, IsPid p
  once : ∀ p q r, IsQueue q → IsQueue r → p ∈ on q → p ∈ on r → q = r
  squeue : ∀ s, IsSem s → IsQueue (k.semtab s).squeue
  ready : ∀ p, IsPid p → (p ∈ on readylist ↔ (k.proctab p).prstate = .ready)
  asleep : ∀ p, IsPid p →
    (p ∈ on sleepq ↔ (k.proctab p).prstate = .sleep ∨ (k.proctab p).prstate = .rectim)
  waiting : ∀ p s, IsPid p → IsSem s →
    (p ∈ on (k.semtab s).squeue ↔ (k.proctab p).prstate = .wait ∧ (k.proctab p).prsem = s)
  waits : ∀ p, IsPid p → (k.proctab p).prstate = .wait → IsSem (k.proctab p).prsem
  off : ∀ p, IsPid p → (k.proctab p).prstate ∈ [.curr, .susp, .recv, .free] →
    ∀ q, IsQueue q → p ∉ on q

theorem Good.queuesAgree (h : Good k ls) : QueuesAgree k ls.on where
  linked := h.linked.links
  nodup _ hq := h.linked.nodes_nodup hq
  pids := h.linked.pids
  once p q r := h.linked.disjoint q r p
  squeue _ hs := isQueue_squeue h.base.agree hs
  ready p hp := by
    have hpl := h.base.agree.placed readylist isQueue_readylist p hp.ne_empty
    rw [show p ∈ ls.on readylist ↔ _ from hpl, and_iff_right hp]
    unfold Kernel.place
    show _ ↔ ((k.withQueues ls).proctab p).prstate = .ready
    cases hst : ((k.withQueues ls).proctab p).prstate with
    | wait =>
      have hs := h.base.agree.waits p hp hp.ne_empty hst
      rw [h.base.agree.squeue]
      simpa using semqueue_ne_readylist hs
    | _ => simp [readylist_ne_sleepq.symm]
  asleep p hp := by
    have hpl := h.base.agree.placed sleepq isQueue_sleepq p hp.ne_empty
    rw [show p ∈ ls.on sleepq ↔ _ from hpl, and_iff_right hp]
    unfold Kernel.place
    show _ ↔ ((k.withQueues ls).proctab p).prstate = .sleep ∨
      ((k.withQueues ls).proctab p).prstate = .rectim
    cases hst : ((k.withQueues ls).proctab p).prstate with
    | wait =>
      have hs := h.base.agree.waits p hp hp.ne_empty hst
      rw [h.base.agree.squeue]
      simpa using semqueue_ne_sleepq hs
    | _ => simp [readylist_ne_sleepq]
  waiting p s hp hs := by
    have hsq : ∀ r, (k.semtab r).squeue = semqueue r := h.base.agree.squeue
    have hpl := h.base.agree.placed (semqueue s) (isQueue_semqueue hs) p hp.ne_empty
    rw [hsq, show p ∈ ls.on (semqueue s) ↔ _ from hpl, and_iff_right hp]
    unfold Kernel.place
    show _ ↔ ((k.withQueues ls).proctab p).prstate = .wait ∧
      ((k.withQueues ls).proctab p).prsem = s
    cases hst : ((k.withQueues ls).proctab p).prstate with
    | wait =>
      rw [h.base.agree.squeue]
      simpa using semqueue_inj
    | _ => simp [(semqueue_ne_readylist hs).symm, (semqueue_ne_sleepq hs).symm]
  waits p hp := h.base.agree.waits p hp hp.ne_empty
  off p hp hst q hq hmem := by
    have hpl := (mem_on_pid h.base.agree hq hmem).2
    unfold Kernel.place at hpl
    simp only [List.mem_cons, List.not_mem_nil, or_false] at hst
    rw [show ((k.withQueues ls).proctab p).prstate = (k.proctab p).prstate from rfl] at hpl
    rcases hst with hst | hst | hst | hst <;> rw [hst] at hpl <;> simp at hpl

/-- **The queues hold exactly the processes whose state says so**, in every
state of every run in which rescheduling is not deferred. -/
theorem queues_agree : ∀ k, Reaches NoDefer k → ∃ on, QueuesAgree k on := by
  intro k h
  obtain ⟨ls, hg⟩ := (NoDefer.disciplined h).1.good
  exact ⟨ls.on, hg.queuesAgree⟩

/-- The machine with a heap of 64 KiB, just booted. -/
def bootKernel : Kernel QTab :=
  sysinit ⟨8, 16, 65552, Nat.succ_pos 7, Nat.le_refl 16, by decide, by decide⟩ fun _ => 0

/-- The null process creates a process and resumes it, and the clock ticks. -/
theorem queues_agree_boot :
    let k := step (step (step bootKernel (.call (.create 1024 20))) (.call (.resume 1))) .tick
    ∃ on, QueuesAgree k on := by
  refine queues_agree _ (.step (.step (.step (.init _ _) (by decide) ?_) (by decide) ?_)
    (by decide) ?_)
  all_goals exact fun _ => by simp

end Xinu
