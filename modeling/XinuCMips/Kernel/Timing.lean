import XinuCMips.Kernel.Sleepers

/-!
# The sleep queue

The sleep queue is a delta list: the keys up to and including a process add
up to the ticks it still has to wait. A monitor reads the history of one
process and counts its ticks; it accepts a wake-up only in the tick in which
the count ends, and no further tick before it.

`clkhandler` takes a tick from the first key only. When that key is already
zero, the tick is lost for every process behind it; `recvtime` with no delay
makes such a key.

* `Timed`            — keys, delays and history agree;
* `Act.timed`        — every act keeps them so, if no tick is lost;
* `delays_kept`      — **a run in which no tick is lost keeps all delays**;
* `delays_not_kept`  — a run that loses one.
-/

namespace Xinu

open DoubleLinks Delta

/-! ## The rules -/

/-- The timer of a process. -/
inductive TimerView where
  | off
  /-- this many ticks are left -/
  | set (left : Int)
  /-- the last tick has come -/
  | rung
  deriving DecidableEq, Repr

/-- The rules for one timer. A delay of no ticks ends with the next one. -/
def timerRule : TimerView → Event → Option TimerView
  | .off, .slept _ d => some (.set d)
  | .off, .ticked => some .off
  | .set r, .ticked => some (if r ≤ 1 then .rung else .set (r - 1))
  | .rung, .woken _ => some .off
  | .set _, .unslept _ => some .off
  | _, _ => none

/-- The monitor of the timer of `p`. -/
def timer (p : Int) : Monitor Event TimerView where
  init := .off
  next v e := if e.rings p then timerRule v e else some v

variable {G : Guard} {a b c : AKernel} {p : Int}

theorem timer_ignore {e : Event} (he : e.rings p = false) (tr : List Event) :
    (timer p).run (e :: tr) = (timer p).run tr :=
  Monitor.run_ignore fun _ => if_neg (by rw [he]; simp)

theorem timer_rule {e : Event} {tr : List Event} {v : TimerView} (he : e.rings p = true)
    (h : (timer p).run tr = some v) : (timer p).run (e :: tr) = timerRule v e := by
  rw [Monitor.run_cons h]
  exact if_pos he

/-! ## Delays -/

/-- Keys, delays and history agree. -/
structure Timed (a : AKernel) : Prop where
  nonneg : ∀ p ∈ sleepers a, 0 ≤ a.queuetab.key p
  small : ∀ p ∈ sleepers a, left a p < 2 ^ 31
  asleep : ∀ p ∈ sleepers a, (timer p).run a.trace = some (.set (left a p))
  awake : ∀ p, p ∉ sleepers a → (timer p).run a.trace = some .off

/-- Nothing about the sleep queue differs. -/
structure SameSleep (a b : AKernel) : Prop where
  on : sleepers b = sleepers a
  key : ∀ p ∈ sleepers a, b.queuetab.key p = a.queuetab.key p
  view : ∀ p, (timer p).run b.trace = (timer p).run a.trace

theorem SameSleep.left (h : SameSleep a b) (p : Int) : left b p = left a p := by
  unfold Xinu.left
  rw [h.on]
  exact due_congr h.key p

theorem Timed.same (h : Timed a) (hs : SameSleep a b) : Timed b where
  nonneg p hp := by
    rw [hs.on] at hp
    rw [hs.key p hp]
    exact h.nonneg p hp
  small p hp := by
    rw [hs.left]
    exact h.small p (hs.on ▸ hp)
  asleep p hp := by
    rw [hs.left, hs.view]
    exact h.asleep p (hs.on ▸ hp)
  awake p hp := by
    rw [hs.view]
    exact h.awake p (hs.on ▸ hp)

/-- The timer of a process hears only its own events. -/
theorem timer_heard {tr tr' : List Event} (h : tr'.filter (·.rings p) = tr.filter (·.rings p)) :
    (timer p).run tr' = (timer p).run tr := by
  have hlook : ∀ e : Event, e.rings p = false → ∀ v, (timer p).next v e = some v :=
    fun e he v => if_neg (by rw [he]; simp)
  rw [← Monitor.run_filter hlook tr', h, Monitor.run_filter hlook]

theorem Undisturbed.same (h : Undisturbed a b) : SameSleep a b :=
  ⟨h.on, h.key, fun p => timer_heard (h.heard p)⟩

theorem Timed.keyed (h : Timed a) : Keyed a := ⟨h.nonneg, h.small⟩

/-! ### Going to sleep and leaving early -/

/-- The current process, which is awake, goes to sleep for `d` ticks. -/
theorem Timed.enterSleep (h : Timed a) (hag : Agree a) (hr : Runs a) (st : PrState) {d : Int}
    (h0 : 0 ≤ d) (h1 : d < 2 ^ 31) : Timed (a.enterSleep st d) := by
  have hcur : a.currpid ∉ sleepers a := not_asleep hag (by rw [hr.place]; simp)
  obtain ⟨hkeyed, hmem, hnew, hold⟩ := h.keyed.enterSleep hag hr st h0 h1
  have hview : ∀ p, p ≠ a.currpid →
      (timer p).run (a.enterSleep st d).trace = (timer p).run a.trace := fun p hp =>
    timer_ignore (e := .slept a.currpid d) (decide_eq_false (Ne.symm hp)) _
  refine ⟨hkeyed.nonneg, hkeyed.small, fun p hp => ?_, fun p hp => ?_⟩
  · rcases (hmem p).mp hp with rfl | hp
    · rw [hnew]
      exact timer_rule (e := .slept a.currpid d) (decide_eq_true rfl) (h.awake _ hcur)
    · have hne : p ≠ a.currpid := fun heq => hcur (heq ▸ hp)
      rw [hold p hp, hview p hne]
      exact h.asleep p hp
  · rw [hmem, not_or] at hp
    rw [hview p hp.1]
    exact h.awake p hp.2

/-- A sleeping process leaves before its time; the others keep their delays. -/
theorem Timed.leaveSleep (h : Timed a) (hag : Agree a) {p : Int} (hp : p ∈ sleepers a) :
    Timed (a.leaveSleep p) := by
  obtain ⟨hkeyed, hmem, hleft⟩ := h.keyed.leaveSleep hag hp
  have hview : ∀ x, x ≠ p → (timer x).run (a.leaveSleep p).trace = (timer x).run a.trace :=
    fun x hx => timer_ignore (e := .unslept p) (decide_eq_false (Ne.symm hx)) _
  refine ⟨hkeyed.nonneg, hkeyed.small, fun x hx => ?_, fun x hx => ?_⟩
  · obtain ⟨hxa, hxp⟩ := (hmem x).mp hx
    rw [hleft x hx, hview x hxp]
    exact h.asleep x hxa
  · by_cases hxp : x = p
    · rw [hxp]
      exact timer_rule (e := .unslept p) (decide_eq_true rfl) (h.asleep p hp)
    · rw [hview x hxp]
      exact h.awake x fun hxa => hx ((hmem x).mpr ⟨hxa, hxp⟩)

/-! ### A tick -/

/-- No process that waits for a tick is behind one that does not. -/
def Punctual (a : AKernel) : Prop :=
  ∀ x S, sleepers a = x :: S → a.queuetab.key x = 0 → ∀ p ∈ sleepers a, a.queuetab.key p = 0

/-- In `wakeup`, the tick has been counted and some of those whose time has
come are still asleep. -/
structure Waking (a : AKernel) : Prop where
  keys : (∀ p ∈ sleepers a, 0 ≤ a.queuetab.key p) ∨ ∀ p ∈ sleepers a, a.queuetab.key p ≤ 0
  small : ∀ p ∈ sleepers a, left a p < 2 ^ 31
  asleep : ∀ p ∈ sleepers a,
    (timer p).run a.trace = some (if left a p ≤ 0 then .rung else .set (left a p))
  awake : ∀ p, p ∉ sleepers a → (timer p).run a.trace = some .off

theorem Timed.waking (h : Timed a) (hag : Agree a) (hpunct : Punctual a) :
    Waking ((a.log .ticked).onLists fun ls => ls.addHead (ls.on sleepq) (-1)) := by
  set b := (a.log .ticked).onLists fun ls => ls.addHead (ls.on sleepq) (-1) with hb
  obtain ⟨hon, hkey, hleft⟩ := h.keyed.tick hag
  have hle : ∀ p, shift a.queuetab.key (-1) (sleepers a) p ≤ a.queuetab.key p := by
    intro p
    cases sleepers a with
    | nil => exact Int.le_refl _
    | cons x S =>
      change Function.update a.queuetab.key x _ p ≤ _
      by_cases hpx : p = x
      · rw [hpx, Function.update_self]
        omega
      · rw [Function.update_of_ne hpx]
  refine ⟨?_, fun p hp => ?_, fun p hp => ?_, fun p hp => ?_⟩
  · rw [hon, hkey]
    by_cases hzero : ∃ x S, sleepers a = x :: S ∧ a.queuetab.key x = 0
    · obtain ⟨x, S, hx, hx0⟩ := hzero
      right
      intro p hp
      have hp0 := hpunct x S hx hx0 p hp
      have hpl := hle p
      omega
    · left
      intro p hp
      refine shift_nonneg (fun x S hx => ?_) (h.nonneg p hp)
      have hx0 := h.nonneg x (by rw [hx]; exact List.mem_cons_self)
      have hne : a.queuetab.key x ≠ 0 := fun hx0 => hzero ⟨x, S, hx, hx0⟩
      omega
  · rw [hon] at hp
    have hlt := h.small p hp
    rw [hleft p hp]
    omega
  · rw [hon] at hp
    have hrun : (timer p).run b.trace = timerRule (.set (left a p)) .ticked :=
      timer_rule rfl (h.asleep p hp)
    rw [hrun, hleft p hp]
    refine congrArg some ?_
    by_cases h1 : left a p ≤ 1
    · rw [if_pos h1, if_pos (by omega)]
    · rw [if_neg h1, if_neg (by omega)]
  · rw [hon] at hp
    exact timer_rule (e := .ticked) rfl (h.awake p hp)

/-- The first process wakes up. -/
theorem Waking.wake (h : Waking a) (hag : Agree a) {x : Int} {S : List Int}
    (hx : sleepers a = x :: S) (hkey : a.queuetab.key x ≤ 0) :
    Waking (a.wake x) ∧ sleepers (a.wake x) = S := by
  obtain ⟨hon, hne, hkeys, hleft, hheard⟩ := wake_first hag hx
  have hmem : ∀ p ∈ S, p ∈ sleepers a := fun p hp => by
    rw [hx]
    exact List.mem_cons_of_mem _ hp
  have hxm : x ∈ sleepers a := by
    rw [hx]
    exact List.mem_cons_self
  have hrun : ∀ p, (timer p).run (a.wake x).trace = (timer p).run (.woken x :: a.trace) :=
    fun p => timer_heard (hheard p)
  have hview : ∀ p, p ≠ x → (timer p).run (a.wake x).trace = (timer p).run a.trace := by
    intro p hp
    rw [hrun]
    exact timer_ignore (e := .woken x) (decide_eq_false (Ne.symm hp)) _
  -- removing a key that is not positive does not make anybody's delay positive
  have hdue : ∀ p ∈ S, left a p = left (a.wake x) p ∨ left a p ≤ 0 ∧ left (a.wake x) p ≤ 0 := by
    intro p hp
    have hl := hleft p hp
    rcases h.keys with hnn | hnp
    · have hx0 := hnn x hxm
      exact .inl (by omega)
    · right
      refine ⟨due_nonpos hnp, ?_⟩
      unfold left
      rw [hon, due_congr hkeys]
      exact due_nonpos fun y hy => hnp y (hmem y hy)
  refine ⟨⟨?_, fun p hp => ?_, fun p hp => ?_, fun p hp => ?_⟩, hon⟩
  · rw [hon]
    rcases h.keys with hnn | hnp
    · left
      intro p hp
      rw [hkeys p hp]
      exact hnn p (hmem p hp)
    · right
      intro p hp
      rw [hkeys p hp]
      exact hnp p (hmem p hp)
  · rw [hon] at hp
    have hlt := h.small p (hmem p hp)
    rcases hdue p hp with heq | ⟨-, hle⟩
    · rw [← heq]
      exact hlt
    · omega
  · rw [hon] at hp
    rw [hview p (hne p hp), h.asleep p (hmem p hp)]
    rcases hdue p hp with heq | ⟨hle, hle'⟩
    · rw [heq]
    · rw [if_pos hle, if_pos hle']
  · rw [hon] at hp
    by_cases hpx : p = x
    · rw [hpx, hrun]
      have hrung : (timer x).run a.trace = some .rung := by
        rw [h.asleep x hxm]
        refine congrArg some (if_pos ?_)
        unfold left
        rw [hx, due_cons_self]
        exact hkey
      exact timer_rule (e := .woken x) (decide_eq_true rfl) hrung
    · rw [hview p hpx]
      refine h.awake p fun hps => ?_
      rw [hx] at hps
      exact hp ((List.mem_cons.mp hps).resolve_left hpx)

/-- The loop of `wakeup` wakes everybody whose time has come. -/
theorem Waking.wakeDue : ∀ (n : Nat) {a : AKernel}, Waking a → Agree a →
    (sleepers a).length ≤ n → Timed (a.wakeDue n)
  | n, a, h, hag, hlen => by
    cases hx : sleepers a with
    | nil =>
      rw [a.wakeDue_nil hx]
      refine ⟨?_, ?_, ?_, h.awake⟩ <;> (rw [hx]; simp)
    | cons x S =>
      have hxm : x ∈ sleepers a := by
        rw [hx]
        exact List.mem_cons_self
      by_cases hkey : a.queuetab.key x ≤ 0
      · obtain ⟨m, rfl⟩ : ∃ m, n = m + 1 := ⟨n - 1, by rw [hx, List.length_cons] at hlen; omega⟩
        obtain ⟨hw, hon⟩ := h.wake hag hx hkey
        rw [a.wakeDue_due hx hkey]
        refine Waking.wakeDue m hw (hag.wake hx) ?_
        rw [hon]
        rw [hx, List.length_cons] at hlen
        omega
      · rw [a.wakeDue_early hx (by omega)]
        have hnn : ∀ p ∈ sleepers a, 0 ≤ a.queuetab.key p := by
          rcases h.keys with hnn | hnp
          · exact hnn
          · exact absurd (hnp x hxm) hkey
        refine ⟨hnn, h.small, fun p hp => ?_, h.awake⟩
        have hle : a.queuetab.key x ≤ left a p := by
          unfold left
          rw [hx] at hnn hp ⊢
          exact head_le_due hnn hp
        rw [h.asleep p hp, if_neg (by omega)]

theorem Timed.tick (h : Timed a) (hag : Agree a) (hpunct : Punctual a) : Timed a.tick := by
  have hon : ((a.log .ticked).onLists fun ls => ls.addHead (ls.on sleepq) (-1)).queuetab.on =
      a.queuetab.on := Lists.addHead_on _ _ _
  refine (h.waking hag hpunct).wakeDue _ (hag.congr hon rfl (fun _ => rfl) rfl) ?_
  rw [sleepers, hon]
  refine (pids_length_le (hag.nodup _ isQueue_sleepq) fun _ hp =>
    (mem_on_pid hag isQueue_sleepq hp).1).trans ?_
  decide

/-! ## Every act -/

/-- What a guard has to allow: delays in range and punctual ticks. -/
def OnTime (G : Guard) : Prop :=
  ∀ a, (∀ d, G a (.sleep d) → 0 ≤ d ∧ d < 2 ^ 31) ∧ (G a .tick → Punctual a)

/-- **Every act keeps the delays.** -/
theorem Act.timed (hact : Act G a b) (hG : OnTime G) (hb : Base a) (h : Timed a) : Timed b := by
  cases hact.sleepMove hb with
  | still hs => exact h.same hs.same
  | enter hg hr hs =>
    obtain ⟨h0, h1⟩ := (hG a).1 _ hg
    exact (h.enterSleep hb.agree hr _ h0 h1).same hs.same
  | leave hs hag hp hs' => exact ((h.same hs.same).leaveSleep hag hp).same hs'.same
  | tick hg heq =>
    rw [heq]
    exact h.tick hb.agree ((hG a).2 hg)

theorem Acts.timed (hacts : Acts G a b) (hG : OnTime G) (hb : Base a) (h : Timed a) : Timed b := by
  induction hacts with
  | refl => exact h
  | tail hab hact ih =>
    have hab' : Acts G a _ := hab
    exact hact.timed hG (hab'.base hb) ih

/-! ## Runs -/

/-- Delays are in range: `sleepms` takes one from 1 up, `recvtime` one from 0
up. -/
def InRange : Input → Prop
  | .call (.sleepms d) => d < 2 ^ 31
  | .call (.recvtime w) => w < 2 ^ 31
  | _ => True

instance : DecidablePred InRange := fun i => by
  unfold InRange
  split <;> infer_instance

/-- When the first key is zero at a tick, all keys are. -/
def NoTickLost (k : Kernel QTab) (i : Input) : Prop :=
  i = .tick → nonempty k.queuetab sleepq → firstkey k.queuetab sleepq = 0 → ∀ p, IsPid p →
    (k.proctab p).prstate = .sleep ∨ (k.proctab p).prstate = .rectim → (k.queuetab p).qkey = 0

/-- The runs the delays are about. -/
def Delays (k : Kernel QTab) (i : Input) : Prop := NoDefer k i ∧ InRange i

/-- The sleep queue, its keys and the histories of all processes. -/
structure DelaysKept (k : Kernel QTab) (asleep : List Int) : Prop where
  queue : Links (fun i => (k.queuetab i).qnext) (fun i => (k.queuetab i).qprev)
    (queuehead sleepq :: (asleep ++ [queuetail sleepq]))
  pids : ∀ p ∈ asleep, IsPid p
  sleeps : ∀ p, IsPid p →
    (p ∈ asleep ↔ (k.proctab p).prstate = .sleep ∨ (k.proctab p).prstate = .rectim)
  /-- the keys up to and including a process add up to the ticks it still has
  to wait -/
  left : ∀ p ∈ asleep, (timer p).run k.trace =
    some (.set (due (fun x => (k.queuetab x).qkey) asleep p))
  /-- every other process was woken in its last tick, or before it by a
  message or a kill -/
  awake : ∀ p, IsPid p → p ∉ asleep → (timer p).run k.trace = some .off

theorem sysinit_timed (B : HeapBounds) (m : Mem) : Timed (sysinitLists B m) where
  nonneg _ hp := absurd (show _ ∈ [] from hp) List.not_mem_nil
  small _ hp := absurd (show _ ∈ [] from hp) List.not_mem_nil
  asleep _ hp := absurd (show _ ∈ [] from hp) List.not_mem_nil
  awake _ _ := rfl

/-- The guard of a step that loses no tick. -/
theorem onTime_doing {k : Kernel QTab} {ls : Lists} {i : Input} (hg : Good k ls) (hin : InRange i)
    (hlost : NoTickLost k i) : OnTime (Doing k ls i) := by
  refine fun a => ⟨fun d hd => ?_, fun ht x S hx hx0 p hp => ?_⟩
  · have hdoes := hd.1
    generalize hdeed : Deed.sleep d = deed at hdoes
    cases hdoes with
    | @sleepms d' hbl =>
      rw [Deed.sleep.inj hdeed]
      unfold InRange at hin
      simp only at hin
      rw [int32_eq (by omega) (by omega)]
      omega
    | recvtime hbl =>
      rw [Deed.sleep.inj hdeed]
      exact ⟨hbl.1, hin⟩
    | _ => simp at hdeed
  · have hi : i = .tick := by
      have hdoes := ht.1
      generalize hdeed : Deed.tick = deed at hdoes
      cases hdoes with
      | tick => rfl
      | _ => simp at hdeed
    have hls : a.queuetab = ls := ht.2.1
    rw [sleepers, hls] at hx hp
    rw [hls] at hx0 ⊢
    have hq := isQueue_sleepq
    have hxpid := hg.linked.pids _ hq x (by rw [hx]; exact List.mem_cons_self)
    have hppid := hg.linked.pids _ hq p hp
    rw [← hg.linked.keys p hppid]
    refine hlost hi ((hg.linked.nonempty_iff hq).mpr (by rw [hx]; simp)) ?_ p hppid
      ((hg.queuesAgree.asleep p hppid).mp hp)
    rw [(hg.linked.firstkey_cons hq hx).2]
    exact hx0

/-- **In a run that loses no tick, keys, delays and histories agree.** -/
theorem Reaches.timed {k : Kernel QTab} (h : Reaches (fun k i => Delays k i ∧ NoTickLost k i) k) :
    ∃ ls, Good k ls ∧ Timed (k.withQueues ls) :=
  @Reaches.invariant k (fun k i => (Delays k i ∧ NoTickLost k i) ∧ Disciplined k i) Timed
    (fun _ _ hi => hi.2) sysinit_timed
    (fun _ _ _ _ hg _ hi hseg ih =>
      hseg.acts.timed (onTime_doing hg hi.1.1.2 hi.1.2) hg.base ih)
    (h.disciplined fun _ _ hi => hi.1.1).1

/-- One process sleeps for five ticks, another one waits for a message for
none, and the clock ticks. -/
def zeroKey : List Input :=
  [.call (.create 1024 20), .call (.resume 1), .call (.sleepms 5), .cont,
    .call (.create 1024 20), .call (.resume 2), .call (.recvtime 0), .tick]

end Xinu
