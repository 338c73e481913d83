import XinuCMips.Lib.Monitor
import XinuCMips.Kernel.Runs

/-!
# Semaphores

The count of a semaphore is the number of units left, or, when negative, the
number of processes that wait. A monitor reads the history of one semaphore
and knows its exact count and who waits, in order; it accepts a release only
of the first waiting process and only for a unit just signalled
(`semRule`).

* `SemOk`            — the table, the queue and the monitor agree;
* `Act.semsOk`       — every act keeps them so, while counts stay in range;
* `semaphores_sound` — **in every run the semaphores are sound.**
-/

namespace Xinu

open DoubleLinks

/-! ## The rules -/

/-- What may happen next to a semaphore in use. -/
inductive Phase where
  | idle
  /-- a unit was signalled that the first waiting process is to get -/
  | owed
  /-- the waiting processes are being released without units -/
  | draining
  deriving DecidableEq, Repr

/-- What is known of a semaphore. -/
inductive SemView where
  | free
  | used (count : Int) (waiting : List Int) (phase : Phase)
  deriving DecidableEq, Repr

/-- The semaphore that an event is about. -/
def Event.sem : Event → Option Int
  | .semcreated s _ | .semreset s _ | .semdeleted s | .acquired s | .waited s _ | .signalled s
  | .released s _ | .drained s _ | .cancelled s _ => some s
  | _ => none

/-- The rules for one semaphore. -/
def semRule : SemView → Event → Option SemView
  | .free, .semcreated _ c => some (.used c [] .idle)
  | .used c w .idle, .acquired _ => if 0 < c then some (.used (c - 1) w .idle) else none
  | .used c w .idle, .waited _ p => if c ≤ 0 then some (.used (c - 1) (w ++ [p]) .idle) else none
  | .used c w .idle, .signalled _ => some (.used (c + 1) w (if c < 0 then .owed else .idle))
  | .used c (p :: w) .owed, .released _ q => if q = p then some (.used c w .idle) else none
  | .used c w .idle, .cancelled _ p =>
    if p ∈ w then some (.used (c + 1) (w.erase p) .idle) else none
  | .used c (p :: w) .idle, .drained _ q => if q = p then some (.used c w .draining) else none
  | .used c (p :: w) .draining, .drained _ q => if q = p then some (.used c w .draining) else none
  | .used _ [] .idle, .semreset _ c => some (.used c [] .idle)
  | .used _ [] .draining, .semreset _ c => some (.used c [] .idle)
  | .used _ [] .idle, .semdeleted _ => some .free
  | .used _ [] .draining, .semdeleted _ => some .free
  | _, _ => none

/-- The monitor of semaphore `s`. -/
def semMonitor (s : Int) : Monitor Event SemView where
  init := .free
  next v e := if e.sem = some s then semRule v e else some v

attribute [local simp] Event.sem semMonitor semRule

variable {G : Guard} {a b c : AKernel} {s : Int}

theorem sem_ignore {e : Event} (he : e.sem ≠ some s) (tr : List Event) :
    (semMonitor s).run (e :: tr) = (semMonitor s).run tr :=
  Monitor.run_ignore fun _ => if_neg he

theorem sem_rule {e : Event} {tr : List Event} {v : SemView} (he : e.sem = some s)
    (h : (semMonitor s).run tr = some v) : (semMonitor s).run (e :: tr) = semRule v e := by
  rw [Monitor.run_cons h]
  exact if_pos he

/-- No count reaches `2 ^ 31`. -/
def CountsBelow (tr : List Event) : Prop :=
  ∀ tr', tr' <:+ tr → ∀ s c w ph, (semMonitor s).run tr' = some (.used c w ph) → c < 2 ^ 31

theorem CountsBelow.suffix {tr tr' : List Event} (h : CountsBelow tr) (hs : tr' <:+ tr) :
    CountsBelow tr' := fun _ hs' => h _ (hs'.trans hs)

/-- A count only has to be checked where it can change. -/
theorem CountsBelow.cons {e : Event} {tr : List Event} (h : CountsBelow tr)
    (he : ∀ r, e.sem = some r → ∀ c w ph, (semMonitor r).run (e :: tr) = some (.used c w ph) →
      c < 2 ^ 31) : CountsBelow (e :: tr) := by
  intro tr' htr' s c w ph hrun
  rcases List.suffix_cons_iff.mp htr' with rfl | htr'
  · by_cases hs : e.sem = some s
    · exact he s hs c w ph hrun
    · rw [sem_ignore hs] at hrun
      exact h tr List.suffix_rfl s c w ph hrun
  · exact h tr' htr' s c w ph hrun

theorem countsBelow_nil : CountsBelow [] := by
  intro tr' htr' s c w ph hrun
  rw [List.suffix_nil.mp htr'] at hrun
  exact absurd (Option.some.inj hrun) (by simp [semMonitor])

/-! ## One semaphore -/

/-- A negative count counts the waiting processes. -/
def Balanced (c : Int) (w : List Int) : Prop := (c < 0 → (w.length : Int) = -c) ∧ (0 ≤ c → w = [])

/-- The semaphore table, the queue and the history agree about `s`. -/
structure SemOk (s : Int) (a : AKernel) : Prop where
  free : (a.semtab s).sstate = .free →
    a.queuetab.on (semqueue s) = [] ∧ (semMonitor s).run a.trace = some .free
  used : (a.semtab s).sstate = .used →
    Balanced (a.semtab s).scount (a.queuetab.on (semqueue s)) ∧
      (semMonitor s).run a.trace =
        some (.used (a.semtab s).scount (a.queuetab.on (semqueue s)) .idle)

/-- Nothing about `s` differs. -/
structure SameSem (s : Int) (a b : AKernel) : Prop where
  sem : b.semtab s = a.semtab s
  waiting : b.queuetab.on (semqueue s) = a.queuetab.on (semqueue s)
  view : (semMonitor s).run b.trace = (semMonitor s).run a.trace

theorem SameSem.trans (h : SameSem s a b) (h' : SameSem s b c) : SameSem s a c :=
  ⟨h'.sem.trans h.sem, h'.waiting.trans h.waiting, h'.view.trans h.view⟩

theorem SemOk.same (h : SemOk s a) (hs : SameSem s a b) : SemOk s b where
  free hst := by
    rw [hs.waiting, hs.view]
    exact h.free (hs.sem ▸ hst)
  used hst := by
    rw [hs.waiting, hs.view, hs.sem]
    exact h.used (hs.sem ▸ hst)

/-! ### Moves that leave a semaphore alone -/

theorem SameSem.log (a : AKernel) {e : Event} (he : e.sem ≠ some s) : SameSem s a (a.log e) :=
  ⟨rfl, rfl, sem_ignore he _⟩

theorem SameSem.remove {p : Int} (hp : p ∉ a.queuetab.on (semqueue s)) :
    SameSem s a (a.onLists (·.remove p)) :=
  ⟨rfl, List.erase_of_not_mem hp, rfl⟩

theorem SameSem.makeReady (hs : IsSem s) (a : AKernel) (p : Int) : SameSem s a (a.makeReady p) := by
  refine ⟨rfl, ?_, sem_ignore (by simp [Event.sem]) _⟩
  show (a.queuetab.insert p readylist _).on (semqueue s) = _
  rw [Lists.insert, Lists.set_on_of_ne _ (semqueue_ne_readylist hs)]
  rfl

/-- A process that is on another queue does not wait for `s`. -/
theorem not_waiting (h : Agree a) (hs : IsSem s) {q p : Int} (hq : IsQueue q) (hne : q ≠ semqueue s)
    (hp : p ∈ a.queuetab.on q) : p ∉ a.queuetab.on (semqueue s) := by
  intro hps
  have h1 := (mem_on_pid h hq hp).2
  rw [(mem_on_pid h (isQueue_semqueue hs) hps).2] at h1
  exact hne (Option.some.inj h1).symm

theorem not_waiting_of_place (h : Agree a) (hs : IsSem s) {p : Int}
    (hpl : a.place p ≠ some (semqueue s)) : p ∉ a.queuetab.on (semqueue s) := fun hp =>
  hpl (mem_on_pid h (isQueue_semqueue hs) hp).2

theorem SameSem.leaveSleep {p : Int} (hp : p ∉ a.queuetab.on (semqueue s)) :
    SameSem s a (a.leaveSleep p) := by
  refine ⟨rfl, ?_, sem_ignore (by simp [Event.sem]) _⟩
  show ((a.queuetab.addHead _ _).on (semqueue s)).erase p = _
  rw [Lists.addHead_on]
  exact List.erase_of_not_mem hp

theorem SameSem.enterSleep (hs : IsSem s) (a : AKernel) (st : PrState) (d : Int) :
    SameSem s a (a.enterSleep st d) := by
  refine ⟨rfl, ?_, sem_ignore (by simp [Event.sem]) _⟩
  show (a.queuetab.insertd a.currpid sleepq d).on (semqueue s) = _
  rw [Lists.insertd, Lists.addHead_on, Lists.set_on_of_ne _ (semqueue_ne_sleepq hs)]
  rfl

theorem SameSem.wakeDue (hs : IsSem s) :
    ∀ (n : Nat) {a : AKernel}, Agree a → SameSem s a (a.wakeDue n)
  | 0, _, _ => ⟨rfl, rfl, rfl⟩
  | n + 1, a, h => by
    unfold Kernel.wakeDue
    split
    · exact ⟨rfl, rfl, rfl⟩
    · rename_i p l hon
      split
      · have hp := not_waiting h hs isQueue_sleepq (semqueue_ne_sleepq hs).symm
          (show p ∈ a.queuetab.on sleepq by rw [hon]; simp)
        have hwake : SameSem s a (a.wake p) :=
          ((SameSem.remove hp).trans (SameSem.log _ (by simp [Event.sem]))).trans
            (SameSem.makeReady hs _ p)
        exact hwake.trans (SameSem.wakeDue hs n (h.wake hon))
      · exact ⟨rfl, rfl, rfl⟩

/-- Another semaphore's waiting process becomes ready. -/
theorem SameSem.releaseFirst (hs : IsSem s) (h : Agree a) {r : Int} (hr : IsSem r) (hne : r ≠ s)
    {e : Int → Event} (he : ∀ p, (e p).sem = some r) : SameSem s a (a.releaseFirst r e) := by
  have hes : ∀ p, (e p).sem ≠ some s := fun p hp => hne (Option.some.inj ((he p).symm.trans hp))
  cases hon : a.queuetab.on (a.semtab r).squeue with
  | nil =>
    rw [a.releaseFirst_nil hon]
    exact SameSem.log a (hes _)
  | cons p l =>
    rw [a.releaseFirst_cons hon]
    have hsq := h.squeue r
    have hp := not_waiting h hs (hsq ▸ isQueue_semqueue hr)
      (by rw [hsq]; exact fun heq => hne (semqueue_inj.mp heq))
      (show p ∈ a.queuetab.on (a.semtab r).squeue by rw [hon]; simp)
    exact ((SameSem.remove hp).trans (SameSem.log _ (hes p))).trans (SameSem.makeReady hs _ p)

theorem SameSem.drain (hs : IsSem s) {r : Int} (hr : IsSem r) (hne : r ≠ s) :
    ∀ (n : Nat) {a : AKernel}, Agree a → SameSem s a (a.drain r n)
  | 0, _, _ => ⟨rfl, rfl, rfl⟩
  | n + 1, _, h =>
    (SameSem.releaseFirst hs h hr hne fun _ => rfl).trans
      (SameSem.drain hs hr hne n (h.releaseFirst hr _))

theorem SameSem.setSem (a : AKernel) {r : Int} (hne : s ≠ r) (f : Sentry → Sentry) :
    SameSem s a (a.setSem r f) := by
  refine ⟨?_, rfl, rfl⟩
  simp [Kernel.setSem, hne]

theorem SameSem.deposit (hs : IsSem s) (h : Agree a) (p m : Int) : SameSem s a (a.deposit p m) := by
  have h1 : SameSem s a ((a.setProc p fun e => { e with prmsg := m, prhasmsg := true }).log
      (.sent p m)) := ⟨rfl, rfl, sem_ignore (by simp [Event.sem]) _⟩
  unfold Kernel.deposit
  cases hst : (a.proctab p).prstate with
  | recv => exact h1.trans (SameSem.makeReady hs _ p)
  | rectim =>
    have hp := not_waiting_of_place h hs (show a.place p ≠ some (semqueue s) by
      simpa [Kernel.place, hst] using (semqueue_ne_sleepq hs).symm)
    exact (h1.trans (SameSem.leaveSleep hp)).trans (SameSem.makeReady hs _ p)
  | _ => exact h1

/-! ### Moves of a semaphore -/

/-- Few processes can wait, so a count is never far below zero. -/
theorem Balanced.ge {w : List Int} {x : Int} (h : Balanced x w) (hlen : w.length ≤ NPROC.toNat) :
    -16 ≤ x := by
  by_cases hx : x < 0
  · have := h.1 hx
    have h16 : NPROC.toNat = 16 := rfl
    omega
  · omega

theorem waiting_length_le (h : Agree a) (hs : IsSem s) :
    (a.queuetab.on (semqueue s)).length ≤ NPROC.toNat :=
  pids_length_le (h.nodup _ (isQueue_semqueue hs)) fun _ hp =>
    (mem_on_pid h (isQueue_semqueue hs) hp).1

/-- The first waiting process leaves, by an event that the rules allow. -/
theorem releaseFirst_run (hs : IsSem s) (h : Agree a) {e : Int → Event} {p : Int} {w : List Int}
    {v v' : SemView} (hon : a.queuetab.on (semqueue s) = p :: w) (he : ∀ p, (e p).sem = some s)
    (hrun : (semMonitor s).run a.trace = some v) (hrule : semRule v (e p) = some v') :
    (semMonitor s).run (a.releaseFirst s e).trace = some v' ∧
      (a.releaseFirst s e).queuetab.on (semqueue s) = w := by
  rw [a.releaseFirst_cons (by rw [h.squeue]; exact hon)]
  have hmk := SameSem.makeReady hs ((a.onLists (·.remove p)).log (e p)) p
  rw [hmk.view, hmk.waiting]
  refine ⟨(sem_rule (he p) hrun).trans hrule, ?_⟩
  show (a.queuetab.on (semqueue s)).erase p = w
  rw [hon, List.erase_cons_head]

/-- Draining releases the waiting processes in order. -/
theorem drain_run (hs : IsSem s) : ∀ (n : Nat) {a : AKernel} {x : Int} {w : List Int} {ph : Phase},
    Agree a → a.queuetab.on (semqueue s) = w → ph ≠ .owed → n ≤ w.length →
      (semMonitor s).run a.trace = some (.used x w ph) →
        ∃ ph', ph' ≠ .owed ∧ (a.drain s n).queuetab.on (semqueue s) = w.drop n ∧
          (semMonitor s).run (a.drain s n).trace = some (.used x (w.drop n) ph')
  | 0, _, _, _, ph, _, hon, hph, _, hrun => ⟨ph, hph, hon, hrun⟩
  | n + 1, a, x, [], _, _, _, _, hlen, _ => absurd hlen (by simp)
  | n + 1, a, x, p :: w, ph, h, hon, hph, hlen, hrun => by
    have hrule : semRule (.used x (p :: w) ph) (.drained s p) = some (.used x w .draining) := by
      cases ph with
      | owed => exact absurd rfl hph
      | idle => exact if_pos rfl
      | draining => exact if_pos rfl
    obtain ⟨hrun', hon'⟩ := releaseFirst_run hs h hon (fun _ => rfl) hrun hrule
    exact drain_run hs n (h.releaseFirst hs _) hon' (by decide) (by simpa using hlen) hrun'

theorem semtab_setSem (a : AKernel) (f : Sentry → Sentry) :
    (a.setSem s f).semtab s = f (a.semtab s) := by
  simp [Kernel.setSem]

/-- A used semaphore in a state that the rules lead to. -/
theorem SemOk.mk_used {x : Int} {w : List Int} (hst : (b.semtab s).sstate = .used)
    (hcount : (b.semtab s).scount = x) (hon : b.queuetab.on (semqueue s) = w) (hbal : Balanced x w)
    (hrun : (semMonitor s).run b.trace = some (.used x w .idle)) : SemOk s b where
  free hf := by
    rw [hst] at hf
    simp at hf
  used _ := by
    rw [hcount, hon]
    exact ⟨hbal, hrun⟩

theorem SemOk.enterWait (h : SemOk s a) (hag : Agree a) (hs : IsSem s)
    (hst : (a.semtab s).sstate = .used) (hbelow : CountsBelow a.trace)
    (hneg : int32 ((a.semtab s).scount - 1) < 0) : SemOk s (a.enterWait s) := by
  obtain ⟨hbal, hrun⟩ := h.used hst
  have hge := hbal.ge (waiting_length_le hag hs)
  have hlt := hbelow _ List.suffix_rfl s _ _ _ hrun
  have hint : int32 ((a.semtab s).scount - 1) = (a.semtab s).scount - 1 :=
    int32_eq (by omega) (by omega)
  have hc0 : (a.semtab s).scount ≤ 0 := by omega
  have hsq : ((a.setCount s (int32 ((a.semtab s).scount - 1))).semtab s).squeue = semqueue s := by
    rw [setCount_squeue]
    exact hag.squeue s
  refine @SemOk.mk_used _ s ((a.semtab s).scount - 1)
    (a.queuetab.on (semqueue s) ++ [a.currpid]) ?_ ?_ ?_ ⟨fun _ => ?_, fun hpos => by omega⟩ ?_
  · show ((a.setCount s _).semtab s).sstate = .used
    rw [Kernel.setCount, semtab_setSem]
    exact hst
  · show ((a.setCount s _).semtab s).scount = _
    rw [Kernel.setCount, semtab_setSem]
    exact hint
  · show (Lists.set _ ((a.setCount s _).semtab s).squeue
      (a.queuetab.on ((a.setCount s _).semtab s).squeue ++ [a.currpid])).on (semqueue s) = _
    rw [hsq, Lists.set_on_same]
  · rw [List.length_append, List.length_singleton]
    by_cases hc : (a.semtab s).scount < 0
    · have := hbal.1 hc
      omega
    · rw [hbal.2 (by omega)]
      simp only [List.length_nil]
      omega
  · refine (sem_rule rfl hrun).trans ?_
    exact if_pos hc0

theorem SemOk.countDown (h : SemOk s a) (hag : Agree a) (hs : IsSem s)
    (hst : (a.semtab s).sstate = .used) (hbelow : CountsBelow a.trace)
    (hpos : 0 ≤ int32 ((a.semtab s).scount - 1)) :
    SemOk s ((a.setCount s (int32 ((a.semtab s).scount - 1))).log (.acquired s)) := by
  obtain ⟨hbal, hrun⟩ := h.used hst
  have hge := hbal.ge (waiting_length_le hag hs)
  have hlt := hbelow _ List.suffix_rfl s _ _ _ hrun
  have hint : int32 ((a.semtab s).scount - 1) = (a.semtab s).scount - 1 :=
    int32_eq (by omega) (by omega)
  refine @SemOk.mk_used _ s ((a.semtab s).scount - 1) (a.queuetab.on (semqueue s)) ?_ ?_ rfl
    ⟨fun hneg => by omega, fun _ => hbal.2 (by omega)⟩ ?_
  · show ((a.setCount s _).semtab s).sstate = .used
    rw [Kernel.setCount, semtab_setSem]
    exact hst
  · show ((a.setCount s _).semtab s).scount = _
    rw [Kernel.setCount, semtab_setSem]
    exact hint
  · refine (sem_rule rfl hrun).trans ?_
    exact if_pos (by omega)

theorem SemOk.unit (h : SemOk s a) (hag : Agree a) (hs : IsSem s)
    (hst : (a.semtab s).sstate = .used) (hbelow : CountsBelow (a.unit s).trace) :
    SemOk s (a.unit s) := by
  obtain ⟨hbal, hrun⟩ := h.used hst
  have hge := hbal.ge (waiting_length_le hag hs)
  set a₁ := (a.setCount s (int32 ((a.semtab s).scount + 1))).log (.signalled s) with ha₁
  have hunit : a.unit s = if (a.semtab s).scount < 0 then a₁.releaseFirst s (.released s) else a₁ :=
    rfl
  have hrun₁ : (semMonitor s).run a₁.trace = some (.used ((a.semtab s).scount + 1)
      (a.queuetab.on (semqueue s)) (if (a.semtab s).scount < 0 then .owed else .idle)) :=
    sem_rule rfl hrun
  have hsuf : a₁.trace <:+ (a.unit s).trace := by
    rw [hunit]
    split
    · exact releaseFirst_trace _ _ _
    · exact List.suffix_rfl
  have hlt := hbelow _ hsuf s _ _ _ hrun₁
  have hsem : (a₁.semtab s).sstate = .used ∧ (a₁.semtab s).scount = (a.semtab s).scount + 1 := by
    show ((a.setCount s _).semtab s).sstate = _ ∧ ((a.setCount s _).semtab s).scount = _
    rw [Kernel.setCount, semtab_setSem]
    exact ⟨hst, int32_eq (by omega) (by omega)⟩
  have hag₁ : Agree a₁ := hag.congr rfl rfl (fun r => setCount_squeue a s _ r) rfl
  rw [hunit]
  by_cases hc : (a.semtab s).scount < 0
  · -- the first waiting process gets the unit
    rw [if_pos hc] at hrun₁ ⊢
    have hlen := hbal.1 hc
    cases hon : a.queuetab.on (semqueue s) with
    | nil =>
      rw [hon] at hlen
      simp only [List.length_nil] at hlen
      omega
    | cons p w =>
      rw [hon] at hlen hrun₁
      rw [List.length_cons] at hlen
      have hrule : semRule (.used ((a.semtab s).scount + 1) (p :: w) .owed) (.released s p) =
          some (.used ((a.semtab s).scount + 1) w .idle) := if_pos rfl
      obtain ⟨hrun₂, hon₂⟩ := releaseFirst_run hs hag₁ hon (fun _ => rfl) hrun₁ hrule
      refine .mk_used ?_ ?_ hon₂ ⟨fun _ => by omega, fun hpos => ?_⟩ hrun₂
      · rw [a₁.releaseFirst_semtab]
        exact hsem.1
      · rw [a₁.releaseFirst_semtab]
        exact hsem.2
      · refine List.length_eq_zero_iff.mp ?_
        omega
  · rw [if_neg hc] at hrun₁ ⊢
    exact .mk_used hsem.1 hsem.2 rfl ⟨fun hneg => by omega, fun _ => hbal.2 (by omega)⟩ hrun₁

theorem SemOk.semcreate (h : SemOk s a) (hst : (a.semtab s).sstate = .free) {x : Int} (hx : 0 ≤ x) :
    SemOk s ((a.setSem s fun e => { e with sstate := .used, scount := x }).log
      (.semcreated s x)) := by
  obtain ⟨hon, hrun⟩ := h.free hst
  refine @SemOk.mk_used _ s x [] ?_ ?_ hon ⟨fun hneg => by omega, fun _ => rfl⟩ (sem_rule rfl hrun)
  · show ((a.setSem s fun e => { e with sstate := .used, scount := x }).semtab s).sstate = .used
    rw [semtab_setSem]
  · show ((a.setSem s fun e => { e with sstate := .used, scount := x }).semtab s).scount = x
    rw [semtab_setSem]

theorem SemOk.semreset (h : SemOk s a) (hag : Agree a) (hs : IsSem s)
    (hst : (a.semtab s).sstate = .used) {x : Int} (hx : 0 ≤ x) :
    SemOk s (((a.drain s (a.queuetab.on (a.semtab s).squeue).length).setCount s x).log
      (.semreset s x)) := by
  obtain ⟨-, hrun⟩ := h.used hst
  rw [hag.squeue]
  obtain ⟨ph, hph, hon, hrun'⟩ := drain_run hs _ hag rfl (by decide) (le_refl _) hrun
  rw [List.drop_length] at hon hrun'
  refine @SemOk.mk_used _ s x [] ?_ ?_ hon ⟨fun hneg => by omega, fun _ => rfl⟩
    ((sem_rule rfl hrun').trans ?_)
  · show (((a.drain s _).setCount s x).semtab s).sstate = _
    rw [Kernel.setCount, semtab_setSem, drain_semtab]
    exact hst
  · show (((a.drain s _).setCount s x).semtab s).scount = _
    rw [Kernel.setCount, semtab_setSem]
  · cases ph with
    | owed => exact absurd rfl hph
    | idle => rfl
    | draining => rfl

theorem SemOk.semdelete (h : SemOk s a) (hag : Agree a) (hs : IsSem s)
    (hst : (a.semtab s).sstate = .used) (x : Int) :
    SemOk s (((a.drain s (-(a.semtab s).scount).toNat).setSem s
      fun e => { e with sstate := .free, scount := x }).log (.semdeleted s)) := by
  obtain ⟨hbal, hrun⟩ := h.used hst
  -- as many processes are released as wait
  have hlen : (-(a.semtab s).scount).toNat = (a.queuetab.on (semqueue s)).length := by
    by_cases hc : (a.semtab s).scount < 0
    · have := hbal.1 hc
      omega
    · rw [hbal.2 (by omega), List.length_nil]
      omega
  rw [hlen]
  obtain ⟨ph, hph, hon, hrun'⟩ := drain_run hs _ hag rfl (by decide) (le_refl _) hrun
  rw [List.drop_length] at hon hrun'
  have hfree : (((a.drain s (a.queuetab.on (semqueue s)).length).setSem s
      fun e => { e with sstate := .free, scount := x }).semtab s).sstate = .free := by
    rw [semtab_setSem]
  refine ⟨fun _ => ⟨hon, (sem_rule rfl hrun').trans ?_⟩, fun hu => ?_⟩
  · cases ph with
    | owed => exact absurd rfl hph
    | idle => rfl
    | draining => rfl
  · exact absurd (hfree.symm.trans hu) (by decide)

/-- A waiting process is killed: its unit comes back. -/
theorem SemOk.cancel (h : SemOk s a) (hag : Agree a) (hs : IsSem s) {p : Int}
    (hp : p ∈ a.queuetab.on (semqueue s)) (hst : (a.semtab s).sstate = .used) :
    SemOk s (((a.setCount s (int32 ((a.semtab s).scount + 1))).onLists (·.remove p)).log
      (.cancelled s p)) := by
  obtain ⟨hbal, hrun⟩ := h.used hst
  have hge := hbal.ge (waiting_length_le hag hs)
  have hneg : (a.semtab s).scount < 0 := by
    by_contra hpos
    rw [hbal.2 (by omega)] at hp
    simp at hp
  have hlen := hbal.1 hneg
  have hlen' := List.length_erase_of_mem hp
  have hpos := List.length_pos_of_mem hp
  refine @SemOk.mk_used _ s ((a.semtab s).scount + 1) ((a.queuetab.on (semqueue s)).erase p) ?_ ?_
    rfl ⟨fun _ => by omega, fun hx => ?_⟩ ((sem_rule rfl hrun).trans (if_pos hp))
  · show ((a.setCount s _).semtab s).sstate = .used
    rw [Kernel.setCount, semtab_setSem]
    exact hst
  · show ((a.setCount s _).semtab s).scount = _
    rw [Kernel.setCount, semtab_setSem]
    exact int32_eq (by omega) (by omega)
  · refine List.length_eq_zero_iff.mp ?_
    omega

/-! ## All semaphores -/

/-- The sleepers and the semaphores that an act is not about. -/
theorem SemOk.leave (h : ∀ s, IsSem s → SemOk s a) (hag : Agree a) (hs : IsSem s) {p : Int}
    (hp : IsPid p) : SemOk s (a.leave p) := by
  have hoff : ∀ {q}, a.place p = some q → q ≠ semqueue s → p ∉ a.queuetab.on (semqueue s) :=
    fun hpl hne => not_waiting_of_place hag hs (by rw [hpl]; simpa using hne)
  unfold Kernel.leave
  cases hst : (a.proctab p).prstate with
  | ready =>
    exact (h s hs).same (.remove (hoff (by simp [Kernel.place, hst])
      (semqueue_ne_readylist hs).symm))
  | sleep =>
    exact (h s hs).same (.leaveSleep (hoff (by simp [Kernel.place, hst])
      (semqueue_ne_sleepq hs).symm))
  | rectim =>
    exact (h s hs).same (.leaveSleep (hoff (by simp [Kernel.place, hst])
      (semqueue_ne_sleepq hs).symm))
  | wait =>
    have hr := hag.waits p hp hp.ne_empty hst
    have hpl : a.place p = some (semqueue (a.proctab p).prsem) := by
      rw [← hag.squeue]
      simp [Kernel.place, hst]
    have hon := (hag.placed _ (isQueue_semqueue hr) p hp.ne_empty).mpr ⟨hp, hpl⟩
    by_cases hrs : (a.proctab p).prsem = s
    · subst hrs
      -- nobody waits for a semaphore that is not in use
      have hused : (a.semtab (a.proctab p).prsem).sstate = .used := by
        cases hss : (a.semtab (a.proctab p).prsem).sstate with
        | used => rfl
        | free =>
          rw [((h _ hr).free hss).1] at hon
          simp at hon
      exact (h _ hr).cancel hag hr hon hused
    · refine (h s hs).same ((SameSem.setSem a (Ne.symm hrs) _).trans ((SameSem.remove ?_).trans
        (SameSem.log _ ?_)))
      · exact hoff hpl fun heq => hrs (semqueue_inj.mp heq)
      · exact fun heq => hrs (Option.some.inj heq)
  | free => exact h s hs
  | curr => exact h s hs
  | recv => exact h s hs
  | susp => exact h s hs

/-- **Every act keeps the semaphores sound**, while counts stay in range. -/
theorem Act.semsOk (hact : Act G a b) (hb : Base a) (hbelow : CountsBelow b.trace)
    (h : ∀ s, IsSem s → SemOk s a) : ∀ s, IsSem s → SemOk s b := by
  intro s hs
  have hag := hb.agree
  have hbelow' : CountsBelow a.trace := hbelow.suffix hact.trace
  have hok := h s hs
  cases hact with
  | tidy ht =>
    exact hok.same ⟨by rw [ht.semtab], by rw [ht.queuetab], by rw [ht.trace]⟩
  | requeue _ => exact hok.same (.makeReady hs a _)
  | switchTo _ hon =>
    have hp := not_waiting hag hs isQueue_readylist (semqueue_ne_readylist hs).symm
      (show _ ∈ a.queuetab.on readylist by rw [hon]; exact List.mem_cons_self)
    exact hok.same ⟨rfl, (SameSem.remove hp).waiting, rfl⟩
  | lost _ _ => exact hok.same ⟨rfl, rfl, rfl⟩
  | @enterWait r _ _ hr hused hneg =>
    by_cases hrs : r = s
    · subst hrs
      exact hok.enterWait hag hs hused hbelow' hneg
    · have hsem : SameSem s a (a.setCount r (int32 ((a.semtab r).scount - 1))) :=
        SameSem.setSem a (Ne.symm hrs) _
      refine hok.same ⟨hsem.sem, ?_, sem_ignore (by simpa [Event.sem]) _⟩
      have hsq : ((a.setCount r (int32 ((a.semtab r).scount - 1))).semtab r).squeue = semqueue r := by
        rw [setCount_squeue]
        exact hag.squeue r
      show (Lists.set _ ((a.setCount r _).semtab r).squeue _).on (semqueue s) = _
      rw [hsq, Lists.set_on_of_ne _ fun heq => hrs (semqueue_inj.mp heq).symm]
      rfl
  | enterRecv _ _ _ _ => exact hok.same ⟨rfl, rfl, rfl⟩
  | enterSleep _ _ => exact hok.same (.enterSleep hs a _ _)
  | enterRectim _ _ _ _ =>
    have hsleep := SameSem.enterSleep hs a .rectim ‹Int›
    exact hok.same ⟨hsleep.sem, hsleep.waiting, hsleep.view⟩
  | enterSusp _ _ => exact hok.same ⟨rfl, rfl, rfl⟩
  | @suspend p _ _ hst =>
    have hp := not_waiting_of_place hag hs (show a.place p ≠ some (semqueue s) by
      simpa [Kernel.place, hst] using (semqueue_ne_readylist hs).symm)
    exact hok.same ⟨rfl, (SameSem.remove hp).waiting, rfl⟩
  | resume _ _ => exact hok.same (.makeReady hs a _)
  | tick _ =>
    have h1 : SameSem s a ((a.log .ticked).onLists fun ls => ls.addHead (ls.on sleepq) (-1)) :=
      ⟨rfl, congrFun (Lists.addHead_on _ _ _) _, sem_ignore (by simp [Event.sem]) _⟩
    have hag1 : Agree ((a.log .ticked).onLists fun ls => ls.addHead (ls.on sleepq) (-1)) :=
      hag.congr (Lists.addHead_on _ _ _) rfl (fun _ => rfl) rfl
    exact hok.same (h1.trans (.wakeDue hs _ hag1))
  | deposit _ _ _ => exact hok.same (.deposit hs hag _ _)
  | collect _ _ _ => exact hok.same ⟨rfl, rfl, sem_ignore (by simp [Event.sem]) _⟩
  | receiveRest _ _ => exact hok.same ⟨rfl, rfl, sem_ignore (by simp [Event.sem]) _⟩
  | recvtimeRest _ _ => exact hok.same ⟨rfl, rfl, rfl⟩
  | @countDown r hr hused hpos =>
    by_cases hrs : r = s
    · subst hrs
      exact hok.countDown hag hs hused hbelow' hpos
    · exact hok.same ((SameSem.setSem a (Ne.symm hrs) _).trans (.log _ (by simpa [Event.sem])))
  | @unit r hr hused =>
    by_cases hrs : r = s
    · subst hrs
      exact hok.unit hag hs hused hbelow
    · have h1 : SameSem s a ((a.setCount r (int32 ((a.semtab r).scount + 1))).log (.signalled r)) :=
        (SameSem.setSem a (Ne.symm hrs) _).trans (.log _ (by simpa [Event.sem]))
      have hag1 : Agree ((a.setCount r (int32 ((a.semtab r).scount + 1))).log (.signalled r)) :=
        hag.congr rfl rfl (fun x => setCount_squeue a r _ x) rfl
      unfold Kernel.unit
      split
      · exact hok.same (h1.trans (.releaseFirst hs hag1 hr hrs fun _ => rfl))
      · exact hok.same h1
  | @semcreate r x hr hfree hx =>
    by_cases hrs : r = s
    · subst hrs
      exact hok.semcreate hfree hx
    · exact hok.same ((SameSem.setSem a (Ne.symm hrs) _).trans (.log _ (by simpa [Event.sem])))
  | @semreset r x hr hused hx =>
    by_cases hrs : r = s
    · subst hrs
      exact hok.semreset hag hs hused hx
    · exact hok.same ((SameSem.drain hs hr hrs _ hag).trans
        ((SameSem.setSem _ (Ne.symm hrs) _).trans (.log _ (by simpa [Event.sem]))))
  | @semdelete r x hr hused _ =>
    by_cases hrs : r = s
    · subst hrs
      exact hok.semdelete hag hs hused x
    · exact hok.same ((SameSem.drain hs hr hrs _ hag).trans
        ((SameSem.setSem _ (Ne.symm hrs) _).trans (.log _ (by simpa [Event.sem]))))
  | chprio _ _ _ => exact hok.same ⟨rfl, rfl, rfl⟩
  | create _ _ _ _ _ _ _ => exact hok.same ⟨rfl, rfl, sem_ignore (by simp [Event.sem]) _⟩
  | killBegin _ _ _ _ _ _ => exact hok.same ⟨rfl, rfl, rfl⟩
  | xdone _ _ _ => exact hok.same ⟨rfl, rfl, rfl⟩
  | @killed p _ _ _ hr htop _ =>
    have hp := (hb.frames.victims _ _ _ (top_vital htop trivial)).1
    have h1 : ∀ r, SameSem r a (a.pop.freeStk p) := fun r =>
      ⟨rfl, rfl, sem_ignore (by simp [Event.sem]) _⟩
    have hag1 : Agree (a.pop.freeStk p) := hag.congr rfl rfl (fun _ => rfl) rfl
    have h2 := @SemOk.leave (a.pop.freeStk p) s (fun r hr => (h r hr).same (h1 r)) hag1 hs p hp
    exact h2.same ⟨rfl, rfl, rfl⟩
  | exit _ _ _ _ => exact hok.same ⟨rfl, rfl, sem_ignore (by simp [Event.sem]) _⟩

theorem Acts.semsOk (hacts : Acts G a b) (hb : Base a) (hbelow : CountsBelow b.trace)
    (h : ∀ s, IsSem s → SemOk s a) : ∀ s, IsSem s → SemOk s b := by
  induction hacts with
  | refl => exact h
  | tail hab hact ih =>
    have hab' : Acts G a _ := hab
    exact hact.semsOk (hab'.base hb) hbelow (ih (hbelow.suffix hact.trace))

/-! ## Runs -/

/-- A semaphore in use: its count, its queue and its history. -/
structure SemSound (k : Kernel QTab) (s : Int) (waiting : List Int) : Prop where
  queue : Links (fun i => (k.queuetab i).qnext) (fun i => (k.queuetab i).qprev)
    (queuehead (k.semtab s).squeue :: (waiting ++ [queuetail (k.semtab s).squeue]))
  negative : (k.semtab s).scount < 0 → (waiting.length : Int) = -(k.semtab s).scount
  nonneg : 0 ≤ (k.semtab s).scount → waiting = []
  waits : ∀ p ∈ waiting, (k.proctab p).prstate = .wait ∧ (k.proctab p).prsem = s
  /-- every event of the history kept the rules; those who wait came in this order -/
  history : (semMonitor s).run k.trace = some (.used (k.semtab s).scount waiting .idle)

theorem sysinit_semsOk (B : HeapBounds) (m : Mem) : ∀ s, IsSem s → SemOk s (sysinitLists B m) :=
  fun _ _ => ⟨fun _ => ⟨rfl, rfl⟩, fun hu => absurd hu (show SemState.free ≠ .used by decide)⟩

theorem Reaches.semsOk {k : Kernel QTab} (h : Reaches Disciplined k) (hbelow : CountsBelow k.trace) :
    ∃ ls, Good k ls ∧ ∀ s, IsSem s → SemOk s (k.withQueues ls) := by
  obtain ⟨ls, hg, hok⟩ := @Reaches.invariant k Disciplined
    (fun a => CountsBelow a.trace → ∀ s, IsSem s → SemOk s a) (fun _ _ h => h)
    (fun B m _ => sysinit_semsOk B m)
    (fun k i ls b hg _ _ hseg ih hbelow =>
      hseg.acts.semsOk hg.base hbelow (ih (hbelow.suffix hseg.acts.trace))) h
  exact ⟨ls, hg, hok hbelow⟩

/-- **Semaphores are sound in every run** in which counts stay below
`2 ^ 31`. -/
theorem semaphores_sound : ∀ k, Reaches NoDefer k → CountsBelow k.trace →
    ∀ s, IsSem s → (k.semtab s).sstate = .used → ∃ waiting, SemSound k s waiting := by
  intro k h hbelow s hs hused
  obtain ⟨ls, hg, hok⟩ := (NoDefer.disciplined h).1.semsOk hbelow
  obtain ⟨hbal, hrun⟩ := (hok s hs).used hused
  have hsq : (k.semtab s).squeue = semqueue s := hg.base.agree.squeue s
  refine ⟨ls.on (semqueue s), ?_, hbal.1, hbal.2, fun p hp => ?_, hrun⟩
  · rw [hsq]
    exact hg.linked.links _ (isQueue_semqueue hs)
  · have hpid := hg.linked.pids _ (isQueue_semqueue hs) p hp
    have hq := hg.queuesAgree
    exact (hq.waiting p s hpid hs).mp (by rw [hsq]; exact hp)

/-- A process waits for a semaphore that was created with no unit. -/
theorem semaphores_sound_boot :
    let k := step (step (step (step bootKernel (.call (.create 1024 20))) (.call (.resume 1)))
      (.call (.semcreate 0))) (.call (.wait 0))
    (k.semtab 0).scount = -1 ∧ ∃ waiting, SemSound k 0 waiting := by
  refine ⟨by decide +kernel, semaphores_sound _ (.step (.step (.step (.step (.init _ _) ?_ ?_) ?_ ?_)
    ?_ ?_) ?_ ?_) ?_ 0 ⟨by decide, by decide⟩ (by decide +kernel)⟩
  case refine_9 =>
    have htrace : (step (step (step (step bootKernel (.call (.create 1024 20))) (.call (.resume 1)))
      (.call (.semcreate 0))) (.call (.wait 0))).trace =
        [.waited 0 1, .semcreated 0 0, .readied 0, .readied 1, .created 1] := by decide +kernel
    show CountsBelow (step (step (step (step bootKernel _) _) _) _).trace
    rw [htrace]
    refine ((((countsBelow_nil.cons ?_).cons ?_).cons ?_).cons ?_).cons ?_
    · simp [Event.sem]
    · simp [Event.sem]
    · simp [Event.sem]
    · intro r hr c w ph hrun
      cases hr
      have hview : (semMonitor 0).run [.semcreated 0 0, .readied 0, .readied 1, .created 1] =
          some (.used 0 [] .idle) := by decide
      rw [hview] at hrun
      cases hrun
      decide
    · intro r hr c w ph hrun
      cases hr
      have hview : (semMonitor 0).run
          [.waited 0 1, .semcreated 0 0, .readied 0, .readied 1, .created 1] =
            some (.used (-1) [1] .idle) := by decide
      rw [hview] at hrun
      cases hrun
      decide
  all_goals first | decide +kernel | exact fun _ => by simp

end Xinu
