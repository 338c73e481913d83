import XinuCMips.Lib.Delta
import XinuCMips.Lib.Monitor
import XinuCMips.Kernel.Runs

/-!
# What happens to the sleep queue

An act leaves the sleep queue alone, puts the current process on it, takes one
process off it before its time, or is a clock tick (`Act.sleepMove`). Whatever
is said of the sleepers is proved for these four.

* `Undisturbed`        — queue, keys and the events about timers are the same;
* `Keyed`              — keys that `insertd` and `unsleep` compute with exactly;
* `Keyed.enterSleep`   — a new sleeper leaves the delays of the others;
* `Keyed.leaveSleep`   — and so does one that leaves early.
-/

namespace Xinu

open DoubleLinks Delta

/-- The timers that an event is about. -/
def Event.rings (p : Int) : Event → Bool
  | .slept q _ | .woken q | .unslept q => q = p
  | .ticked => true
  | _ => false

/-- The processes of the sleep queue. -/
abbrev sleepers (a : AKernel) : List Int := a.queuetab.on sleepq

/-- The ticks that a sleeping process still has to wait. -/
abbrev left (a : AKernel) (p : Int) : Int := due a.queuetab.key (sleepers a) p

variable {G : Guard} {a b c : AKernel} {p : Int}

/-! ## Acts that leave the sleep queue alone -/

/-- Neither the sleep queue nor what was heard of the timers differs. -/
structure Undisturbed (a b : AKernel) : Prop where
  on : sleepers b = sleepers a
  key : ∀ p ∈ sleepers a, b.queuetab.key p = a.queuetab.key p
  heard : ∀ p, b.trace.filter (·.rings p) = a.trace.filter (·.rings p)

theorem Undisturbed.refl (a : AKernel) : Undisturbed a a := ⟨rfl, fun _ _ => rfl, fun _ => rfl⟩

theorem Undisturbed.trans (h : Undisturbed a b) (h' : Undisturbed b c) : Undisturbed a c where
  on := h'.on.trans h.on
  key p hp := (h'.key p (h.on ▸ hp)).trans (h.key p hp)
  heard p := (h'.heard p).trans (h.heard p)

theorem Undisturbed.left (h : Undisturbed a b) (p : Int) : left b p = left a p := by
  unfold Xinu.left
  rw [h.on]
  exact due_congr h.key p

theorem Undisturbed.fields (hq : b.queuetab = a.queuetab)
    (ht : ∀ p, b.trace.filter (·.rings p) = a.trace.filter (·.rings p)) : Undisturbed a b :=
  ⟨by rw [sleepers, hq], fun _ _ => by rw [hq], ht⟩

/-- An event about no timer. -/
theorem filter_rings {e : Event} (he : ∀ p, e.rings p = false) (tr : List Event) (p : Int) :
    (e :: tr).filter (·.rings p) = tr.filter (·.rings p) :=
  List.filter_cons_of_neg (by rw [he p]; simp)

theorem Undisturbed.log {e : Event} (hq : b.queuetab = a.queuetab) (ht : b.trace = e :: a.trace)
    (he : ∀ p, e.rings p = false) : Undisturbed a b :=
  .fields hq fun p => by rw [ht, filter_rings he]

theorem Undisturbed.remove {x : Int} (hx : x ∉ sleepers a) :
    Undisturbed a (a.onLists (·.remove x)) :=
  ⟨List.erase_of_not_mem hx, fun _ _ => rfl, fun _ => rfl⟩

theorem Undisturbed.makeReady {x : Int} (hx : x ∉ sleepers a) : Undisturbed a (a.makeReady x) := by
  refine ⟨?_, fun p hp => ?_, filter_rings (fun _ => rfl) a.trace⟩
  · show (a.queuetab.insert x readylist _).on sleepq = _
    rw [Lists.insert, Lists.set_on_of_ne _ readylist_ne_sleepq.symm]
    rfl
  · have hpx : p ≠ x := by
      rintro rfl
      exact hx hp
    exact Lists.setKey_key_of_ne _ hpx _

theorem not_asleep (h : Agree a) {x : Int} (hpl : a.place x ≠ some sleepq) : x ∉ sleepers a :=
  fun hx => hpl (mem_on_pid h isQueue_sleepq hx).2

theorem not_asleep_of_on (h : Agree a) {q x : Int} (hq : IsQueue q) (hne : q ≠ sleepq)
    (hx : x ∈ a.queuetab.on q) : x ∉ sleepers a :=
  not_asleep h (by rw [(mem_on_pid h hq hx).2]; simpa using hne)

/-- A process of another queue becomes ready. -/
theorem Undisturbed.moveToReady (h : Agree a) {q x : Int} (hq : IsQueue q) (hne : q ≠ sleepq)
    (hx : x ∈ a.queuetab.on q) {e : Event} (he : ∀ p, e.rings p = false) :
    Undisturbed a (((a.onLists (·.remove x)).log e).makeReady x) := by
  have hoff := not_asleep_of_on h hq hne hx
  have h1 : Undisturbed a ((a.onLists (·.remove x)).log e) :=
    (Undisturbed.remove hoff).trans (.log rfl rfl he)
  exact h1.trans (.makeReady (by rw [h1.on]; exact hoff))

theorem Undisturbed.releaseFirst (h : Agree a) {s : Int} (hs : IsSem s) {e : Int → Event}
    (he : ∀ x p, (e x).rings p = false) : Undisturbed a (a.releaseFirst s e) := by
  cases hon : a.queuetab.on (a.semtab s).squeue with
  | nil =>
    rw [a.releaseFirst_nil hon]
    exact .log rfl rfl (he _)
  | cons x l =>
    rw [a.releaseFirst_cons hon]
    refine .moveToReady h (isQueue_squeue h hs) ?_
      (show x ∈ a.queuetab.on (a.semtab s).squeue by rw [hon]; simp) (he x)
    rw [h.squeue]
    exact semqueue_ne_sleepq hs

theorem Undisturbed.drain {s : Int} (hs : IsSem s) :
    ∀ (n : Nat) {a : AKernel}, Agree a → Undisturbed a (a.drain s n)
  | 0, a, _ => .refl a
  | n + 1, _, h =>
    (Undisturbed.releaseFirst h hs fun _ _ => rfl).trans
      (Undisturbed.drain hs n (h.releaseFirst hs _))

theorem Undisturbed.switchTo (h : Agree a) {x : Int} {l : List Int}
    (hon : a.queuetab.on readylist = x :: l) : Undisturbed a (a.switchTo x) := by
  have hx := not_asleep_of_on h isQueue_readylist readylist_ne_sleepq
    (show x ∈ a.queuetab.on readylist by rw [hon]; exact List.mem_cons_self)
  have hrem := Undisturbed.remove hx
  exact ⟨hrem.on, hrem.key, fun _ => rfl⟩

/-- A `resched` leaves the sleep queue alone. -/
theorem Resched.undisturbed (h : Resched a b) (hag : Agree a) : Undisturbed a b := by
  cases h with
  | defer _ _ => exact .fields rfl fun _ => rfl
  | keep _ _ _ => exact .refl a
  | requeue _ hr hon =>
    have hready : Undisturbed a (a.makeReady a.currpid) :=
      .makeReady (not_asleep hag (by rw [hr.place]; simp))
    have hag' : Agree (a.makeReady a.currpid) := AgreeBut.makeReady (hag.lift hr.place) hr.1
    exact hready.trans (.switchTo hag' hon)
  | switch _ _ hon => exact .switchTo hag hon
  | lost _ _ => exact .fields rfl fun _ => rfl

/-! ## Moves -/

/-- What an act does to the sleep queue. -/
inductive SleepMove (G : Guard) (a b : AKernel) : Prop
  | still : Undisturbed a b → SleepMove G a b
  | enter {st : PrState} {d : Int} : G a (.sleep d) → Runs a →
      Undisturbed (a.enterSleep st d) b → SleepMove G a b
  | leave {c : AKernel} {p : Int} : Undisturbed a c → Agree c → p ∈ sleepers c →
      Undisturbed (c.leaveSleep p) b → SleepMove G a b
  | tick : G a .tick → b = a.tick → SleepMove G a b

/-- The message wakes a process that waits for it with a limit. -/
theorem SleepMove.deposit (hag : Agree a) {p : Int} (hpid : IsPid p) (m : Int) :
    SleepMove G a (a.deposit p m) := by
  have h1 : Undisturbed a ((a.setProc p fun e => { e with prmsg := m, prhasmsg := true }).log
      (.sent p m)) := .log rfl rfl fun _ => rfl
  have hag0 : Agree (a.setProc p fun e => { e with prmsg := m, prhasmsg := true }) :=
    hag.touch (by intro; rfl) (by intro; rfl) fun _ => id
  have hag1 := hag0.log (.sent p m)
  unfold Kernel.deposit
  cases hst : (a.proctab p).prstate with
  | recv =>
    refine .still (h1.trans (.makeReady ?_))
    rw [h1.on]
    exact not_asleep hag (by simp [Kernel.place, hst])
  | rectim =>
    have hp : p ∈ sleepers a := (hag.placed _ isQueue_sleepq p hpid.ne_empty).mpr
      ⟨hpid, by simp [Kernel.place, hst]⟩
    refine .leave h1 hag1 (h1.on ▸ hp) (.makeReady ?_)
    exact (Agree.leaveSleep hag1 p).off _ isQueue_sleepq
  | _ => exact .still h1

/-- A killed process leaves the sleep queue. -/
theorem SleepMove.killed (hag : Agree a) {p : Int} (hp : IsPid p) :
    SleepMove G a (a.killed p) := by
  have h1 : Undisturbed a (a.pop.freeStk p) := .log rfl rfl fun _ => rfl
  have hag1 : Agree (a.pop.freeStk p) := hag.congr rfl rfl (fun _ => rfl) rfl
  have hend : ∀ c : AKernel, Undisturbed c (c.setState p .free) := fun _ => .fields rfl fun _ => rfl
  have hoff : a.place p ≠ some sleepq → p ∉ sleepers a := not_asleep hag
  have hon : a.place p = some sleepq → p ∈ sleepers a := fun hpl =>
    (hag.placed _ isQueue_sleepq p hp.ne_empty).mpr ⟨hp, hpl⟩
  unfold Kernel.killed Kernel.leave
  cases hst : ((a.pop.freeStk p).proctab p).prstate with
  | ready =>
    have hready : a.place p ≠ some sleepq := by
      rw [Kernel.place, show (a.proctab p).prstate = .ready from hst]
      simp [readylist_ne_sleepq]
    have hrem : Undisturbed (a.pop.freeStk p) ((a.pop.freeStk p).onLists (·.remove p)) :=
      .remove (by rw [h1.on]; exact hoff hready)
    exact .still ((h1.trans hrem).trans (hend _))
  | sleep =>
    refine .leave h1 hag1 (h1.on ▸ hon ?_) (hend _)
    rw [Kernel.place, show (a.proctab p).prstate = .sleep from hst]
  | rectim =>
    refine .leave h1 hag1 (h1.on ▸ hon ?_) (hend _)
    rw [Kernel.place, show (a.proctab p).prstate = .rectim from hst]
  | wait =>
    have hst' : (a.proctab p).prstate = .wait := hst
    have hs := hag.waits p hp hp.ne_empty hst'
    have hpl : a.place p ≠ some sleepq := by
      simpa [Kernel.place, hst', hag.squeue] using semqueue_ne_sleepq hs
    have hrem : Undisturbed (a.pop.freeStk p) ((a.pop.freeStk p).onLists (·.remove p)) :=
      .remove (by rw [h1.on]; exact hoff hpl)
    have hcan : ∀ {c : AKernel} {e : Event}, c.queuetab = (a.pop.freeStk p).queuetab.remove p →
        c.trace = e :: (a.pop.freeStk p).trace → (∀ q, e.rings q = false) →
        Undisturbed (a.pop.freeStk p) c := fun hq ht he =>
      hrem.trans (.log hq ht he)
    exact .still ((h1.trans (hcan rfl rfl fun _ => rfl)).trans (hend _))
  | _ => exact .still (h1.trans (hend _))

/-- **What an act can do to the sleep queue.** -/
theorem Act.sleepMove (hact : Act G a b) (hb : Base a) : SleepMove G a b := by
  have hag := hb.agree
  cases hact with
  | tidy ht => exact .still (.fields ht.queuetab fun _ => by rw [ht.trace])
  | requeue hr => exact .still (.makeReady (not_asleep hag (by rw [hr.place]; simp)))
  | switchTo _ hon => exact .still (.switchTo hag hon)
  | lost _ _ => exact .still (.fields rfl fun _ => rfl)
  | @enterWait s _ hr hs _ _ =>
    have hsq : ((a.setCount s (int32 ((a.semtab s).scount - 1))).semtab s).squeue = semqueue s := by
      rw [setCount_squeue]
      exact hag.squeue s
    refine .still ⟨?_, fun _ _ => rfl, filter_rings (fun _ => rfl) a.trace⟩
    show (Lists.set _ ((a.setCount s _).semtab s).squeue _).on sleepq = _
    rw [hsq, Lists.set_on_of_ne _ (semqueue_ne_sleepq hs).symm]
    rfl
  | enterRecv _ _ _ _ => exact .still (.fields rfl fun _ => rfl)
  | enterSleep hg hr => exact .enter hg hr (.refl _)
  | @enterRectim d hg hr _ _ =>
    exact @SleepMove.enter _ _ _ .rectim d hg hr (.fields rfl fun _ => rfl)
  | enterSusp _ _ => exact .still (.fields rfl fun _ => rfl)
  | @suspend p _ _ hst =>
    have hrem := Undisturbed.remove (not_asleep hag (show a.place p ≠ some sleepq by
      simp [Kernel.place, hst, readylist_ne_sleepq]))
    exact .still ⟨hrem.on, hrem.key, fun _ => rfl⟩
  | @resume p _ hst => exact .still (.makeReady (not_asleep hag (by simp [Kernel.place, hst])))
  | tick hg => exact .tick hg rfl
  | deposit hp _ _ => exact .deposit hag hp _
  | collect _ _ _ => exact .still (.log rfl rfl fun _ => rfl)
  | receiveRest _ _ => exact .still (.log rfl rfl fun _ => rfl)
  | recvtimeRest _ _ => exact .still (.fields rfl fun _ => rfl)
  | countDown _ _ _ => exact .still (.log rfl rfl fun _ => rfl)
  | @unit s hs _ =>
    have h1 : Undisturbed a ((a.setCount s (int32 ((a.semtab s).scount + 1))).log (.signalled s)) :=
      .log rfl rfl fun _ => rfl
    have hag1 : Agree ((a.setCount s (int32 ((a.semtab s).scount + 1))).log (.signalled s)) :=
      hag.congr rfl rfl (fun x => setCount_squeue a s _ x) rfl
    unfold Kernel.unit
    split
    · exact .still (h1.trans (.releaseFirst hag1 hs fun _ _ => rfl))
    · exact .still h1
  | semcreate _ _ _ => exact .still (.log rfl rfl fun _ => rfl)
  | @semreset s x hs _ _ =>
    have hdr := Undisturbed.drain hs (a.queuetab.on (a.semtab s).squeue).length hag
    exact .still (hdr.trans (.log rfl rfl fun _ => rfl))
  | @semdelete s x hs _ _ =>
    have hdr := Undisturbed.drain hs (-(a.semtab s).scount).toNat hag
    exact .still (hdr.trans (.log rfl rfl fun _ => rfl))
  | chprio _ _ _ => exact .still (.fields rfl fun _ => rfl)
  | create _ _ _ _ _ _ _ => exact .still (.log rfl rfl fun _ => rfl)
  | killBegin _ _ _ _ _ _ => exact .still (.fields rfl fun _ => rfl)
  | xdone _ _ _ => exact .still (.fields rfl fun _ => rfl)
  | @killed p _ _ _ _ htop _ =>
    exact .killed hag (hb.frames.victims _ _ _ (top_vital htop trivial)).1
  | exit _ _ _ _ => exact .still (.log rfl rfl fun _ => rfl)

/-! ## Keys -/

/-- The keys of the sleepers are in the range in which the code computes
exactly. -/
structure Keyed (a : AKernel) : Prop where
  nonneg : ∀ p ∈ sleepers a, 0 ≤ a.queuetab.key p
  small : ∀ p ∈ sleepers a, left a p < 2 ^ 31

theorem Keyed.same (h : Keyed a) (hs : Undisturbed a b) : Keyed b where
  nonneg p hp := by
    rw [hs.on] at hp
    rw [hs.key p hp]
    exact h.nonneg p hp
  small p hp := by
    rw [hs.left]
    exact h.small p (hs.on ▸ hp)

theorem Keyed.key_lt (h : Keyed a) {x : Int} (hx : x ∈ sleepers a) : a.queuetab.key x < 2 ^ 31 :=
  lt_of_le_of_lt (key_le_due h.nonneg hx) (h.small x hx)

/-- `insertd` splits the delays where the new one falls; with delays in range
its arithmetic is exact. -/
theorem splitDelta_spec {key : Int → Int} : ∀ {l : List Int} {k : Int}, (∀ x ∈ l, 0 ≤ key x) →
    0 ≤ k → k < 2 ^ 31 → (splitDelta key k l).1 = k - total key (splitDelta key k l).2.1 ∧
      0 ≤ (splitDelta key k l).1 ∧ (splitDelta key k l).1 < 2 ^ 31 ∧
      ∀ x S, (splitDelta key k l).2.2 = x :: S → (splitDelta key k l).1 < key x
  | [], k, _, h0, h1 => ⟨by simp [splitDelta, total], h0, h1, by simp [splitDelta]⟩
  | x :: l, k, hnn, h0, h1 => by
    have hx := hnn x (by simp)
    unfold splitDelta
    by_cases hle : key x ≤ k
    · rw [if_pos hle, int32_eq (by omega) (by omega)]
      obtain ⟨ht, hr0, hr1, hlt⟩ := @splitDelta_spec key l (k - key x)
        (fun y hy => hnn y (by simp [hy])) (by omega) (by omega)
      refine ⟨?_, hr0, hr1, hlt⟩
      simp only [total]
      omega
    · rw [if_neg hle]
      refine ⟨by simp [total], h0, h1, fun y S hy => ?_⟩
      cases hy
      omega

/-- A change of the first key, with delays in range. -/
theorem addHead_key {ls : Lists} {post : List Int} {v : Int}
    (h : ∀ x S, post = x :: S → -2 ^ 31 ≤ ls.key x + v ∧ ls.key x + v < 2 ^ 31) :
    (ls.addHead post v).key = shift ls.key v post := by
  cases post with
  | nil => rfl
  | cons x S =>
    obtain ⟨h0, h1⟩ := h x S rfl
    change Function.update ls.key x (int32 (ls.key x + v)) = Function.update ls.key x (ls.key x + v)
    rw [int32_eq h0 h1]

/-- The current process, which is awake, goes to sleep for `d` ticks: it has
`d` ticks left, and the others have as many as before. -/
theorem Keyed.enterSleep (h : Keyed a) (hag : Agree a) (hr : Runs a) (st : PrState) {d : Int}
    (h0 : 0 ≤ d) (h1 : d < 2 ^ 31) :
    Keyed (a.enterSleep st d) ∧
      (∀ p, p ∈ sleepers (a.enterSleep st d) ↔ p = a.currpid ∨ p ∈ sleepers a) ∧
      Xinu.left (a.enterSleep st d) a.currpid = d ∧
      ∀ p ∈ sleepers a, Xinu.left (a.enterSleep st d) p = Xinu.left a p := by
  have hcur : a.currpid ∉ sleepers a := not_asleep hag (by rw [hr.place]; simp)
  have hndl := hag.nodup _ isQueue_sleepq
  obtain ⟨htot, hr0, hr1, hlt⟩ := splitDelta_spec h.nonneg h0 h1
  have happ := splitDelta_append a.queuetab.key d (sleepers a)
  set r := splitDelta a.queuetab.key d (sleepers a) with hrdef
  have hon : sleepers (a.enterSleep st d) = r.2.1 ++ a.currpid :: r.2.2 := by
    show (a.queuetab.insertd a.currpid sleepq d).on sleepq = _
    rw [Lists.insertd, Lists.addHead_on, Lists.set_on_same]
  have hnd : (r.2.1 ++ a.currpid :: r.2.2).Nodup := by
    refine (List.perm_middle.nodup_iff).mpr (List.nodup_cons.mpr ?_)
    rw [happ]
    exact ⟨hcur, hndl⟩
  have hafter : ∀ x ∈ r.2.2, x ∈ sleepers a := fun x hx => by
    rw [← happ]
    exact List.mem_append_right _ hx
  have hkey : (a.enterSleep st d).queuetab.key = insertKey a.queuetab.key a.currpid r.1 r.2.2 := by
    show ((((a.queuetab.setKey a.currpid r.1).set sleepq _).addHead r.2.2 (-r.1))).key = _
    refine addHead_key fun x S hx => ?_
    have hxm : x ∈ sleepers a := hafter x (by rw [hx]; exact List.mem_cons_self)
    have hne : x ≠ a.currpid := fun heq => hcur (heq ▸ hxm)
    have hxlt := hlt x S hx
    have hxk := h.key_lt hxm
    rw [Lists.set_key, Lists.setKey_key_of_ne _ hne]
    omega
  have hmem : ∀ p, p ∈ sleepers (a.enterSleep st d) ↔ p = a.currpid ∨ p ∈ sleepers a := by
    intro p
    rw [hon, ← happ]
    simp only [List.mem_append, List.mem_cons]
    tauto
  have hnew : Xinu.left (a.enterSleep st d) a.currpid = d := by
    unfold Xinu.left
    rw [hon, hkey, due_insert_new hnd]
    omega
  have hold : ∀ p ∈ sleepers a, Xinu.left (a.enterSleep st d) p = Xinu.left a p := by
    intro p hp
    rw [← happ] at hp
    unfold Xinu.left
    rw [hon, hkey, due_insert_old hnd hp, happ]
  refine ⟨⟨fun p hp => ?_, fun p hp => ?_⟩, hmem, hnew, hold⟩
  · rw [hkey]
    rw [hon] at hp
    refine insertKey_nonneg hnd hr0 (fun y S hy => (hlt y S hy).le) (fun y hy => ?_) p hp
    exact h.nonneg y (happ ▸ hy)
  · rcases (hmem p).mp hp with rfl | hp
    · rw [hnew]
      exact h1
    · rw [hold p hp]
      exact h.small p hp

/-- A sleeping process leaves before its time; the others keep their delays. -/
theorem Keyed.leaveSleep (h : Keyed a) (hag : Agree a) {p : Int} (hp : p ∈ sleepers a) :
    Keyed (a.leaveSleep p) ∧
      (∀ x, x ∈ sleepers (a.leaveSleep p) ↔ x ∈ sleepers a ∧ x ≠ p) ∧
      ∀ x ∈ sleepers (a.leaveSleep p), Xinu.left (a.leaveSleep p) x = Xinu.left a x := by
  have hnd : (sleepers a).Nodup := hag.nodup _ isQueue_sleepq
  obtain ⟨pre, post, hon⟩ := List.append_of_mem hp
  rw [hon] at hnd
  have hpre : p ∉ pre := fun hm => (List.nodup_append.mp hnd).2.2 p hm p (by simp) rfl
  have hon' : sleepers (a.leaveSleep p) = pre ++ post := by
    show ((a.queuetab.addHead _ _).on sleepq).erase p = _
    rw [Lists.addHead_on]
    show (sleepers a).erase p = _
    rw [hon, List.erase_append_right _ hpre, List.erase_cons_head]
  have hmem : ∀ x, x ∈ sleepers (a.leaveSleep p) ↔ x ∈ sleepers a ∧ x ≠ p := by
    intro x
    have hnd' := List.nodup_cons.mp (List.perm_middle.nodup_iff.mp hnd)
    rw [hon', hon, List.perm_middle.mem_iff, List.mem_cons]
    refine ⟨fun hx => ⟨Or.inr hx, ?_⟩, fun hx => hx.1.resolve_left hx.2⟩
    rintro rfl
    exact hnd'.1 hx
  have hkey : (a.leaveSleep p).queuetab.key = shift a.queuetab.key (a.queuetab.key p) post := by
    show (a.queuetab.addHead (after p (sleepers a)) (a.queuetab.key p)).key = _
    rw [hon, after_append hpre]
    refine addHead_key fun x S hx => ?_
    have hxs := (hmem x).mp (by rw [hon', hx]; simp)
    have hx0 := h.nonneg x hxs.1
    have hp0 := h.nonneg p hp
    -- both keys are part of the delay of the process behind
    have hdue : a.queuetab.key p + a.queuetab.key x ≤ Xinu.left a x := by
      have hxpre : x ∉ pre := fun hm =>
        (List.nodup_append.mp hnd).2.2 x hm x (by rw [hx]; simp) rfl
      have htot := total_nonneg fun y hy =>
        h.nonneg y ((hmem y).mp (by rw [hon']; exact List.mem_append_left _ hy)).1
      unfold Xinu.left
      rw [hon, due_append_of_not_mem hxpre, due_cons_of_ne hxs.2, hx, due_cons_self]
      omega
    have hlt := h.small x hxs.1
    omega
  have hleft : ∀ x ∈ sleepers (a.leaveSleep p),
      Xinu.left (a.leaveSleep p) x = Xinu.left a x := by
    intro x hx
    rw [hon'] at hx
    unfold Xinu.left
    rw [hon', hkey, hon]
    exact due_remove hnd hx
  refine ⟨⟨fun x hx => ?_, fun x hx => ?_⟩, hmem, hleft⟩
  · rw [hkey]
    refine shift_nonneg (fun y S hy => ?_) (h.nonneg x ((hmem x).mp hx).1)
    have hy0 := h.nonneg y ((hmem y).mp (by rw [hon', hy]; simp)).1
    have hp0 := h.nonneg p hp
    omega
  · rw [hleft x hx]
    exact h.small x ((hmem x).mp hx).1

/-- The tick is taken from the first key. -/
theorem Keyed.tick (h : Keyed a) (hag : Agree a) :
    let b := (a.log .ticked).onLists fun ls => ls.addHead (ls.on sleepq) (-1)
    sleepers b = sleepers a ∧ b.queuetab.key = shift a.queuetab.key (-1) (sleepers a) ∧
      ∀ p ∈ sleepers a, Xinu.left b p = Xinu.left a p - 1 := by
  intro b
  have hnd : (sleepers a).Nodup := hag.nodup _ isQueue_sleepq
  have hon : sleepers b = sleepers a := congrFun (Lists.addHead_on a.queuetab _ _) sleepq
  have hkey : b.queuetab.key = shift a.queuetab.key (-1) (sleepers a) := by
    refine addHead_key fun x S hx => ?_
    have hxs : x ∈ sleepers a := by
      show x ∈ (a.log .ticked).queuetab.on sleepq
      rw [hx]
      exact List.mem_cons_self
    have hx0 := h.nonneg x hxs
    have hx1 := h.key_lt hxs
    show -2 ^ 31 ≤ a.queuetab.key x + -1 ∧ a.queuetab.key x + -1 < 2 ^ 31
    omega
  refine ⟨hon, hkey, fun p hp => ?_⟩
  unfold Xinu.left
  rw [hon, hkey, due_shift hnd hp]
  rfl

/-- The first process wakes up: the others keep their keys, and the delay of
the first is no part of theirs any more. -/
theorem wake_first (hag : Agree a) {x : Int} {S : List Int} (hx : sleepers a = x :: S) :
    sleepers (a.wake x) = S ∧ (∀ p ∈ S, p ≠ x) ∧
      (∀ p ∈ S, (a.wake x).queuetab.key p = a.queuetab.key p) ∧
      (∀ p ∈ S, Xinu.left a p = a.queuetab.key x + Xinu.left (a.wake x) p) ∧
      ∀ p, (a.wake x).trace.filter (·.rings p) =
        (Event.woken x :: a.trace).filter (·.rings p) := by
  have hnd : (sleepers a).Nodup := hag.nodup _ isQueue_sleepq
  have hxS := (List.nodup_cons.mp (hx ▸ hnd)).1
  have herase : sleepers ((a.onLists (·.remove x)).log (.woken x)) = S := by
    show (sleepers a).erase x = S
    rw [hx, List.erase_cons_head]
  have hready : Undisturbed ((a.onLists (·.remove x)).log (.woken x)) (a.wake x) :=
    .makeReady (by rw [herase]; exact hxS)
  have hon : sleepers (a.wake x) = S := hready.on.trans herase
  have hne : ∀ p ∈ S, p ≠ x := fun p hp heq => hxS (heq ▸ hp)
  have hkeys : ∀ p ∈ S, (a.wake x).queuetab.key p = a.queuetab.key p := fun p hp =>
    hready.key p (herase.symm ▸ hp)
  refine ⟨hon, hne, hkeys, fun p hp => ?_, hready.heard⟩
  unfold Xinu.left
  rw [hon, hx, due_cons_of_ne (hne p hp), due_congr hkeys]

end Xinu
