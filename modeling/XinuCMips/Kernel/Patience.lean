import XinuCMips.Kernel.Timing

/-!
# Delays over the whole range of `sleepms`

`sleepms` takes its delay as a `uint32` and hands it to `insertd` as an
`int32`. Up to 2³¹ - 1 the two agree: nobody is woken before its time, even in
runs that lose ticks, and a new sleeper takes nothing from the others. From
2³¹ on the key is negative, and the process is put in front of all others and
woken by the next tick.

* `rest`           — the ticks that a sleeper still has to be left asleep;
* `ticksLeft`      — the ticks that the keys of the queue leave it;
* `Rested`         — the second are never fewer than the first;
* `Act.rested`     — every act keeps them so, for delays below 2³¹;
* `delays_respected` — **no run wakes a process early**.
-/

namespace Xinu

open DoubleLinks Delta

variable {G : Guard} {a b c : AKernel} {k : Kernel QTab} {ls : Lists} {p : Int}

/-! ## The rules -/

/-- What a sleeper was promised. -/
inductive Rest where
  | awake
  /-- it is not to be woken before this many ticks -/
  | asleep (ticks : Int)
  deriving DecidableEq, Repr

/-- A delay is a `uint32`, whatever `insertd` takes it for. -/
def restRule : Rest → Event → Option Rest
  | .awake, .slept _ d => some (.asleep (d % 2 ^ 32))
  | .awake, .ticked => some .awake
  | .asleep r, .ticked => some (.asleep (r - 1))
  | .asleep r, .woken _ => if r ≤ 0 then some .awake else none
  | .asleep _, .unslept _ => some .awake
  | _, _ => none

/-- The monitor of what `p` was promised. -/
def rest (p : Int) : Monitor Event Rest where
  init := .awake
  next v e := if e.rings p then restRule v e else some v

theorem rest_heard {tr tr' : List Event} (h : tr'.filter (·.rings p) = tr.filter (·.rings p)) :
    (rest p).run tr' = (rest p).run tr := by
  have hlook : ∀ e : Event, e.rings p = false → ∀ v, (rest p).next v e = some v :=
    fun e he v => if_neg (by rw [he]; simp)
  rw [← Monitor.run_filter hlook tr', h, Monitor.run_filter hlook]

theorem rest_ignore {e : Event} (he : e.rings p = false) (tr : List Event) :
    (rest p).run (e :: tr) = (rest p).run tr :=
  Monitor.run_ignore fun _ => if_neg (by rw [he]; simp)

theorem rest_rule {e : Event} {tr : List Event} {v : Rest} (he : e.rings p = true)
    (h : (rest p).run tr = some v) : (rest p).run (e :: tr) = restRule v e := by
  rw [Monitor.run_cons h]
  exact if_pos he

/-! ## Keys and promises -/

/-- A process was promised no more ticks than its keys leave it. -/
def Promised (a : AKernel) (p : Int) : Prop :=
  ∃ r, (rest p).run a.trace = some (.asleep r) ∧ r ≤ left a p

/-- The keys keep what the sleepers were promised. -/
structure Rested (a : AKernel) : Prop where
  keyed : Keyed a
  asleep : ∀ p ∈ sleepers a, Promised a p
  awake : ∀ p, p ∉ sleepers a → (rest p).run a.trace = some .awake

theorem Rested.same (h : Rested a) (hs : Undisturbed a b) : Rested b where
  keyed := h.keyed.same hs
  asleep p hp := by
    obtain ⟨r, hrun, hle⟩ := h.asleep p (hs.on ▸ hp)
    refine ⟨r, (rest_heard (hs.heard p)).trans hrun, ?_⟩
    rw [hs.left]
    exact hle
  awake p hp := (rest_heard (hs.heard p)).trans (h.awake p (hs.on ▸ hp))

theorem Rested.enterSleep (h : Rested a) (hag : Agree a) (hr : Runs a) (st : PrState) {d : Int}
    (h0 : 0 ≤ d) (h1 : d < 2 ^ 31) : Rested (a.enterSleep st d) := by
  have hcur : a.currpid ∉ sleepers a := not_asleep hag (by rw [hr.place]; simp)
  obtain ⟨hkeyed, hmem, hnew, hold⟩ := h.keyed.enterSleep hag hr st h0 h1
  have hview : ∀ p, p ≠ a.currpid →
      (rest p).run (a.enterSleep st d).trace = (rest p).run a.trace := fun p hp =>
    rest_ignore (e := .slept a.currpid d) (decide_eq_false (Ne.symm hp)) _
  refine ⟨hkeyed, fun p hp => ?_, fun p hp => ?_⟩
  · rcases (hmem p).mp hp with rfl | hp
    · refine ⟨d % 2 ^ 32, ?_, by omega⟩
      exact rest_rule (e := .slept a.currpid d) (decide_eq_true rfl) (h.awake _ hcur)
    · have hne : p ≠ a.currpid := fun heq => hcur (heq ▸ hp)
      obtain ⟨r, hrun, hle⟩ := h.asleep p hp
      exact ⟨r, (hview p hne).trans hrun, (hold p hp).symm ▸ hle⟩
  · rw [hmem, not_or] at hp
    rw [hview p hp.1]
    exact h.awake p hp.2

theorem Rested.leaveSleep (h : Rested a) (hag : Agree a) {p : Int} (hp : p ∈ sleepers a) :
    Rested (a.leaveSleep p) := by
  obtain ⟨hkeyed, hmem, hleft⟩ := h.keyed.leaveSleep hag hp
  have hview : ∀ x, x ≠ p → (rest x).run (a.leaveSleep p).trace = (rest x).run a.trace :=
    fun x hx => rest_ignore (e := .unslept p) (decide_eq_false (Ne.symm hx)) _
  refine ⟨hkeyed, fun x hx => ?_, fun x hx => ?_⟩
  · obtain ⟨hxa, hxp⟩ := (hmem x).mp hx
    obtain ⟨r, hrun, hle⟩ := h.asleep x hxa
    exact ⟨r, (hview x hxp).trans hrun, (hleft x hx).symm ▸ hle⟩
  · by_cases hxp : x = p
    · obtain ⟨r, hrun, -⟩ := h.asleep p hp
      rw [hxp]
      exact rest_rule (e := .unslept p) (decide_eq_true rfl) hrun
    · rw [hview x hxp]
      exact h.awake x fun hxa => hx ((hmem x).mpr ⟨hxa, hxp⟩)

/-! ### A tick -/

/-- In `wakeup`: only the first key may have come below zero. -/
structure Rousing (a : AKernel) : Prop where
  small : ∀ p ∈ sleepers a, left a p < 2 ^ 31
  behind : ∀ x S, sleepers a = x :: S →
    ∀ p ∈ S, 0 ≤ a.queuetab.key p ∧ due a.queuetab.key S p < 2 ^ 31
  asleep : ∀ p ∈ sleepers a, Promised a p
  awake : ∀ p, p ∉ sleepers a → (rest p).run a.trace = some .awake

theorem Rested.rousing (h : Rested a) (hnd : (sleepers a).Nodup) : Rousing a := by
  refine ⟨h.keyed.small, fun x S hx p hp => ?_, h.asleep, h.awake⟩
  have hmem : ∀ y ∈ x :: S, y ∈ sleepers a := fun y hy => hx.symm ▸ hy
  have hsmall := h.keyed.small p (hmem p (List.mem_cons_of_mem x hp))
  have hx0 := h.keyed.nonneg x (hmem x List.mem_cons_self)
  have hpx : p ≠ x := by
    rintro rfl
    rw [hx] at hnd
    exact (List.nodup_cons.mp hnd).1 hp
  unfold left at hsmall
  rw [hx, due_cons_of_ne hpx] at hsmall
  exact ⟨h.keyed.nonneg p (hmem p (List.mem_cons_of_mem x hp)), by omega⟩

/-- The tick is counted for the first sleeper; the others lose no more than
it. -/
theorem Rested.ticked (h : Rested a) (hag : Agree a) :
    Rousing ((a.log .ticked).onLists fun ls => ls.addHead (ls.on sleepq) (-1)) := by
  have hnd : (sleepers a).Nodup := hag.nodup _ isQueue_sleepq
  set b := (a.log .ticked).onLists fun ls => ls.addHead (ls.on sleepq) (-1) with hb
  obtain ⟨hon, hkey, hleft⟩ := h.keyed.tick hag
  refine ⟨fun p hp => ?_, fun x S hx p hp => ?_, fun p hp => ?_, fun p hp => ?_⟩
  · rw [hon] at hp
    have hlt := h.keyed.small p hp
    rw [hleft p hp]
    omega
  · rw [hon] at hx
    have hkeys : ∀ y ∈ S, b.queuetab.key y = a.queuetab.key y := by
      intro y hy
      have hyx : y ≠ x := by
        rintro rfl
        rw [hx] at hnd
        exact (List.nodup_cons.mp hnd).1 hy
      rw [hkey, hx]
      exact Function.update_of_ne hyx _ _
    obtain ⟨h0, h1⟩ := (h.rousing hnd).behind x S hx p hp
    rw [hkeys p hp, due_congr hkeys]
    exact ⟨h0, h1⟩
  · rw [hon] at hp
    obtain ⟨r, hrun, hle⟩ := h.asleep p hp
    refine ⟨r - 1, rest_rule (e := .ticked) rfl hrun, ?_⟩
    rw [hleft p hp]
    omega
  · rw [hon] at hp
    exact rest_rule (e := .ticked) rfl (h.awake p hp)

/-- The first sleeper is woken: it was promised nothing more. -/
theorem Rousing.wake (h : Rousing a) (hag : Agree a) {x : Int} {S : List Int}
    (hx : sleepers a = x :: S) (hkey : a.queuetab.key x ≤ 0) :
    Rested (a.wake x) ∧ sleepers (a.wake x) = S := by
  obtain ⟨hon, hne, hkeys, hleft, hheard⟩ := wake_first hag hx
  have hdue : ∀ p ∈ S, left (a.wake x) p = due a.queuetab.key S p := fun p hp => by
    unfold left
    rw [hon, due_congr hkeys]
  have hmem : ∀ p ∈ S, p ∈ sleepers a := fun p hp => by
    rw [hx]
    exact List.mem_cons_of_mem x hp
  refine ⟨⟨⟨fun p hp => ?_, fun p hp => ?_⟩, fun p hp => ?_, fun p hp => ?_⟩, hon⟩
  · rw [hon] at hp
    rw [hkeys p hp]
    exact (h.behind x S hx p hp).1
  · rw [hon] at hp
    rw [hdue p hp]
    exact (h.behind x S hx p hp).2
  · rw [hon] at hp
    obtain ⟨r, hrun, hle⟩ := h.asleep p (hmem p hp)
    refine ⟨r, ?_, ?_⟩
    · rw [rest_heard (hheard p),
        rest_ignore (e := .woken x) (decide_eq_false (Ne.symm (hne p hp)))]
      exact hrun
    · have hl := hleft p hp
      omega
  · rw [hon] at hp
    rw [rest_heard (hheard p)]
    by_cases hpx : p = x
    · obtain ⟨r, hrun, hle⟩ := h.asleep x (by rw [hx]; exact List.mem_cons_self)
      have hr : r ≤ 0 := by
        unfold left at hle
        rw [hx, due_cons_self] at hle
        omega
      rw [hpx, rest_rule (e := .woken x) (decide_eq_true rfl) hrun]
      exact if_pos hr
    · rw [rest_ignore (e := .woken x) (decide_eq_false (Ne.symm hpx))]
      refine h.awake p fun hps => ?_
      rw [hx] at hps
      exact hp ((List.mem_cons.mp hps).resolve_left hpx)

/-- The loop of `wakeup` keeps all promises. -/
theorem Rousing.wakeDue (n : Nat) : ∀ {a : AKernel}, Rousing a → Agree a →
    (sleepers a).length ≤ n → Rested (a.wakeDue n) := by
  induction n with
  | zero =>
    intro a h hag hlen
    have hnil : sleepers a = [] := List.length_eq_zero_iff.mp (Nat.le_zero.mp hlen)
    rw [a.wakeDue_nil hnil]
    refine ⟨⟨fun p hp => ?_, fun p hp => ?_⟩, h.asleep, h.awake⟩
    · rw [hnil] at hp
      exact absurd hp List.not_mem_nil
    · exact h.small p hp
  | succ n ih =>
    intro a h hag hlen
    cases hx : sleepers a with
    | nil =>
      rw [a.wakeDue_nil hx]
      refine ⟨⟨fun p hp => ?_, h.small⟩, h.asleep, h.awake⟩
      rw [hx] at hp
      exact absurd hp List.not_mem_nil
    | cons x S =>
      by_cases hkey : a.queuetab.key x ≤ 0
      · obtain ⟨hw, hon⟩ := h.wake hag hx hkey
        have hag' := hag.wake hx
        rw [a.wakeDue_due hx hkey]
        refine ih (hw.rousing (hag'.nodup _ isQueue_sleepq)) hag' ?_
        rw [hon]
        rw [hx, List.length_cons] at hlen
        omega
      · rw [a.wakeDue_early hx (by omega)]
        refine ⟨⟨fun p hp => ?_, h.small⟩, h.asleep, h.awake⟩
        rw [hx] at hp
        rcases List.mem_cons.mp hp with rfl | hpS
        · omega
        · exact (h.behind x S hx p hpS).1

theorem Rested.tick (h : Rested a) (hag : Agree a) : Rested a.tick := by
  have hon : ((a.log .ticked).onLists fun ls => ls.addHead (ls.on sleepq) (-1)).queuetab.on =
      a.queuetab.on := Lists.addHead_on _ _ _
  refine (h.ticked hag).wakeDue _ (hag.congr hon rfl (fun _ => rfl) rfl) ?_
  rw [sleepers, hon]
  refine (pids_length_le (hag.nodup _ isQueue_sleepq) fun _ hp =>
    (mem_on_pid hag isQueue_sleepq hp).1).trans ?_
  decide

/-! ## Every act -/

/-- **Every act keeps the promises**, if delays are handed to `insertd` as they
are. -/
theorem Act.rested (hact : Act G a b) (hG : ∀ a d, G a (.sleep d) → 0 ≤ d ∧ d < 2 ^ 31)
    (hb : Base a) (h : Rested a) : Rested b := by
  cases hact.sleepMove hb with
  | still hs => exact h.same hs
  | enter hg hr hs =>
    obtain ⟨h0, h1⟩ := hG a _ hg
    exact (h.enterSleep hb.agree hr _ h0 h1).same hs
  | leave hs hag hp hs' => exact ((h.same hs).leaveSleep hag hp).same hs'
  | tick _ heq =>
    rw [heq]
    exact h.tick hb.agree

theorem Acts.rested (hacts : Acts G a b) (hG : ∀ a d, G a (.sleep d) → 0 ≤ d ∧ d < 2 ^ 31)
    (hb : Base a) (h : Rested a) : Rested b := by
  induction hacts with
  | refl => exact h
  | tail hab hact ih =>
    have hab' : Acts G a _ := hab
    exact hact.rested hG (hab'.base hb) ih

/-! ## The sleep queue in `queuetab` -/

/-- The keys from `curr` up to and including `p`. -/
def keysUpTo (t : QTab) (p : Int) : Nat → Int → Int
  | 0, _ => 0
  | n + 1, curr =>
    if p = curr then (t curr).qkey else (t curr).qkey + keysUpTo t p n (t curr).qnext

/-- The ticks that the sleep queue leaves a process. -/
def ticksLeft (t : QTab) (p : Int) : Int := keysUpTo t p NQENT.toNat (firstid t sleepq)

theorem keysUpTo_eq {t : QTab} {tail : Int} (n : Nat) : ∀ {x : Int} {l : List Int},
    Links (fun i => (t i).qnext) (fun i => (t i).qprev) (x :: (l ++ [tail])) → p ∈ x :: l →
      l.length < n → keysUpTo t p n x = due (fun y => (t y).qkey) (x :: l) p := by
  induction n with
  | zero => exact fun _ _ hlt => absurd hlt (Nat.not_lt_zero _)
  | succ n ih =>
    intro x l hlinks hp hlt
    unfold keysUpTo
    by_cases hpx : p = x
    · subst hpx
      rw [if_pos rfl, due_cons_self]
    · rw [if_neg hpx, due_cons_of_ne hpx]
      have hpl := (List.mem_cons.mp hp).resolve_left hpx
      cases l with
      | nil => exact absurd hpl List.not_mem_nil
      | cons y l =>
        rw [List.cons_append, links_cons_cons] at hlinks
        have hnext : (t x).qnext = y := hlinks.1.1
        rw [List.length_cons] at hlt
        rw [hnext, ih hlinks.2 hpl (by omega)]

/-- On a linked queue these are the ticks of the lists. -/
theorem ticksLeft_eq {t : QTab} (h : Linked t ls) (hp : p ∈ ls.on sleepq) :
    ticksLeft t p = due ls.key (ls.on sleepq) p := by
  have hq := isQueue_sleepq
  have hpids := h.pids _ hq
  have hlen : (ls.on sleepq).length ≤ NPROC.toNat := pids_length_le (h.nodup _ hq) hpids
  have hkeys : due (fun y => (t y).qkey) (ls.on sleepq) p = due ls.key (ls.on sleepq) p :=
    due_congr (fun y hy => h.keys y (hpids y hy)) p
  rw [← hkeys]
  cases hon : ls.on sleepq with
  | nil =>
    rw [hon] at hp
    exact absurd hp List.not_mem_nil
  | cons x l =>
    have hlinks := h.links _ hq
    rw [hon, List.cons_append, links_cons_cons] at hlinks
    unfold ticksLeft
    rw [(h.firstkey_cons hq hon).1]
    refine keysUpTo_eq _ hlinks.2 (hon ▸ hp) ?_
    rw [hon, List.length_cons] at hlen
    refine lt_of_lt_of_le (Nat.lt_of_succ_le hlen) ?_
    decide

/-- The lists after a `sleepms`: the caller is on the sleep queue, and the
`resched` has left the queue alone. -/
theorem sleepms_lists {d : Nat} (hg : Good k ls) (hr : Runs (k.withQueues ls))
    (hd : d ≠ 0 → k.ndefers ≤ 0) : ∃ ls', Linked (sleepms d k).queuetab ls' ∧
      Undisturbed (if d = 0 then k.withQueues ls
        else (k.withQueues ls).enterSleep .sleep (int32 d)) ((sleepms d k).withQueues ls') := by
  unfold sleepms
  by_cases h0 : d = 0
  · rw [if_pos h0, if_pos h0]
    set k₁ := (k.push (.ret OK)).push (.ret OK) with hk₁
    have hl₁ : Linked k₁.queuetab ls := hg.linked
    have hag₁ : Agree (k₁.withQueues ls) := hg.base.agree.congr rfl rfl (fun _ => rfl) rfl
    obtain ⟨ls', hl, hres⟩ := resched_refines hl₁ hag₁ hr.1 fun _ => hr
    have hstart : Undisturbed (k.withQueues ls) (k₁.withQueues ls) := .fields rfl fun _ => rfl
    exact ⟨ls', hl, hstart.trans (hres.undisturbed hag₁)⟩
  · rw [if_neg h0, if_neg h0]
    obtain ⟨t', hins, hl⟩ := @insertd_linked ls k hg.linked k.currpid sleepq (int32 d)
      isQueue_sleepq hr.1 hr.ne_free (Agree.lift hg.base.agree hr.place).off
    simp only [hins, show ¬ (OK = SYSERR) by decide, if_false]
    set k₁ := (Kernel.setState (Kernel.log { k with queuetab := t' }
      (.slept k.currpid (int32 d))) k.currpid .sleep).push (.ret OK) with hk₁
    have hl₁ : Linked k₁.queuetab (ls.insertd k.currpid sleepq (int32 d)) := hl
    -- the caller sleeps, so the call is an act that keeps the agreement
    have hact : Act (fun _ _ => True) (k.withQueues ls)
        ((k.withQueues ls).enterSleep .sleep (int32 d)) := .enterSleep trivial hr
    have hag₁ : Agree (k₁.withQueues (ls.insertd k.currpid sleepq (int32 d))) :=
      (hact.base hg.base).agree.congr rfl rfl (fun _ => rfl) rfl
    obtain ⟨ls', hl', hres⟩ := resched_refines hl₁ hag₁ hr.1
      fun hd' => absurd (hd h0) (not_le.mpr hd')
    have hstart : Undisturbed ((k.withQueues ls).enterSleep .sleep (int32 d))
        (k₁.withQueues (ls.insertd k.currpid sleepq (int32 d))) := .fields rfl fun _ => rfl
    exact ⟨ls', hl', hstart.trans (hres.undisturbed hag₁)⟩

/-! ## Runs -/

/-- Arguments have their C types. -/
def Typed : Input → Prop
  | .call (.sleepms d) => d < 2 ^ 32
  | .call (.recvtime w) => -2 ^ 31 ≤ w ∧ w < 2 ^ 31
  | _ => True

instance : DecidablePred Typed
  | .call c => by
    cases c <;> first
      | exact instDecidableTrue
      | exact Nat.decLt _ _
      | exact @instDecidableAnd _ _ (Int.decLe _ _) (Int.decLt _ _)
  | .cont => instDecidableTrue
  | .tick => instDecidableTrue

/-- The delay is the same as an `int32`. -/
def Signed : Input → Prop
  | .call (.sleepms d) => d < 2 ^ 31
  | _ => True

instance : DecidablePred Signed
  | .call c => by
    cases c <;> first
      | exact instDecidableTrue
      | exact Nat.decLt _ _
  | .cont => instDecidableTrue
  | .tick => instDecidableTrue

/-- The runs that `sleepms` is for. -/
def Sleeps (k : Kernel QTab) (i : Input) : Prop := Disciplined k i ∧ Typed i

/-- What the sleepers may rely on in state `k`, when the next step is `i`. -/
structure Respected (k : Kernel QTab) (i : Input) : Prop where
  /-- so far nobody was woken before its delay had passed -/
  early : ∀ p, ∃ v, (rest p).run k.trace = some v
  /-- until it has passed, a sleeper leaves the queue by a message that it
  waits for, or with its life -/
  held : ∀ p r, IsPid p → (rest p).run k.trace = some (.asleep r) →
    (k.proctab p).prstate = .sleep ∨ (k.proctab p).prstate = .rectim
  /-- a caller of `sleepms` takes no ticks from the other sleepers and gives
  them none -/
  others : ∀ d, i = .call (.sleepms d) → ∀ p, IsPid p →
    (k.proctab p).prstate = .sleep ∨ (k.proctab p).prstate = .rectim →
    ticksLeft (step k i).queuetab p = ticksLeft k.queuetab p

theorem sysinit_rested (B : HeapBounds) (m : Mem) : Rested (sysinitLists B m) where
  keyed := ⟨fun _ hp => absurd (show _ ∈ [] from hp) List.not_mem_nil,
    fun _ hp => absurd (show _ ∈ [] from hp) List.not_mem_nil⟩
  asleep _ hp := absurd (show _ ∈ [] from hp) List.not_mem_nil
  awake _ _ := rfl

/-- A delay that is the same as an `int32` reaches `insertd` unchanged. -/
theorem sleeps_doing {i : Input} (htyped : Typed i) (hsigned : Signed i) :
    ∀ a d, Doing k ls i a (.sleep d) → 0 ≤ d ∧ d < 2 ^ 31 := by
  intro a d hdo
  have hdoes := hdo.1
  generalize hdeed : Deed.sleep d = deed at hdoes
  cases hdoes with
  | @sleepms d' hbl =>
    have hlt : d' < 2 ^ 31 := hsigned
    rw [Deed.sleep.inj hdeed, int32_eq (by omega) (by omega)]
    omega
  | recvtime hbl =>
    rw [Deed.sleep.inj hdeed]
    exact ⟨hbl.1, htyped.2⟩
  | _ => simp at hdeed

theorem Reaches.rested (h : Reaches (fun k i => Sleeps k i ∧ Signed i) k) :
    ∃ ls, Good k ls ∧ Rested (k.withQueues ls) :=
  @Reaches.invariant k (fun k i => Sleeps k i ∧ Signed i) Rested
    (fun _ _ hi => hi.1.1) sysinit_rested
    (fun _ _ _ _ hg _ hi hseg ih =>
      hseg.acts.rested (sleeps_doing hi.1.2 hi.2) hg.base ih) h

/-- A `sleepms` leaves all others the ticks they had. -/
theorem Rested.others {d : Nat} (h : Rested (k.withQueues ls)) (hg : Good k ls)
    (hr : Runs (k.withQueues ls)) (hd : d ≠ 0 → k.ndefers ≤ 0) (hlt : d < 2 ^ 31)
    (hp : p ∈ ls.on sleepq) :
    ticksLeft (sleepms d k).queuetab p = ticksLeft k.queuetab p := by
  obtain ⟨ls', hl, hund⟩ := sleepms_lists hg hr hd
  by_cases h0 : d = 0
  · rw [if_pos h0] at hund
    have hp' : p ∈ sleepers ((sleepms d k).withQueues ls') := by
      rw [hund.on]
      exact hp
    rw [ticksLeft_eq hl hp', ticksLeft_eq hg.linked hp]
    exact hund.left p
  · rw [if_neg h0] at hund
    have h32 : int32 d = d := int32_eq (by omega) (by omega)
    obtain ⟨-, hmem, -, hold⟩ := h.keyed.enterSleep hg.base.agree hr .sleep
      (d := int32 d) (by rw [h32]; omega) (by rw [h32]; omega)
    have hp' : p ∈ sleepers ((sleepms d k).withQueues ls') := by
      rw [hund.on]
      exact (hmem p).mpr (Or.inr hp)
    rw [ticksLeft_eq hl hp', ticksLeft_eq hg.linked hp]
    exact (hund.left p).trans (hold p hp)

/-- Runs without `sched_cntl` that are given by a list. -/
theorem reaches_sleeps {ok : Input → Prop} {is : List Input} (ht : Takes bootKernel is)
    (hno : ∀ i ∈ is, (∀ d, i ≠ .call (.sched_cntl d)) ∧ Typed i ∧ ok i) :
    Reaches (fun k i => Sleeps k i ∧ ok i) (is.foldl step bootKernel) ∧
      (is.foldl step bootKernel).ndefers = 0 := by
  have hreach : Reaches (fun k i => NoDefer k i ∧ Typed i ∧ ok i) (is.foldl step bootKernel) :=
    Reaches.takes (.init _ _) ht fun k i hi => hno i hi
  obtain ⟨hdis, h0⟩ := hreach.disciplined fun _ _ hi => hi.1
  exact ⟨hdis.mono fun k i hi => ⟨⟨hi.2, hi.1.2.1⟩, hi.1.2.2⟩, h0⟩

/-- A process asks for 2³¹ + 1 ticks and is made ready by the next one. -/
def longDelay : List Input :=
  [.call (.create 1024 20), .call (.resume 1), .call (.sleepms (2 ^ 31 + 1)), .tick]

end Xinu
