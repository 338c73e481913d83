import XinuCMips.Rds.Steps

/-!
# The buffers of the remote disk

Each of the `RD_BUFFS` buffers is a request, in the cache, free, or held by a
call that is switched out; `rd_reqsem` counts the requests, and `rd_availsem`
the buffers that `rdsbufalloc` could take. A negative count stands for waiting
processes and counts nothing; a process that has been let go, or a request that
is with the server, has its unit already.

* `buffers_accounted_without_slip` — so it is in every run without a request of
  `RDS_CTL_SYNC`, a completed read, and a reused copy while no unit is left;
* `buffers_not_accounted`          — `RDS_CTL_SYNC` queues a request without a
  signal.
-/

namespace Xinu.Rds

open Function

variable {s s' : Device} {q c f q' c' f' : List Bufid} {a : Act} {es : List Event}

/-- **Where the buffers are, and what the semaphores count.** -/
structure Accounted (s : Device) (q c f : List Bufid) : Prop where
  lists : Holds s.lists q c f
  held : ∀ i, i ∉ q ++ c ++ f ↔ ∃ pid, Holder s.calls i pid
  once : ∀ i pid pid', Holder s.calls i pid → Holder s.calls i pid' → pid = pid'
  reqsem : max s.rdReqsem.count 0 + s.rdReqsem.released.length + s.com.serving = q.length
  availsem : max s.rdAvailsem.count 0 + s.rdAvailsem.released.length =
    (f.length + c.countP s.unused : Nat)

namespace Device

/-- The steps that keep the counts. A read request is not completed: its buffer
is signalled as available with a reference to it. The cached copy of a block is
reused only while the count shows a unit that `semreset` can take. -/
def Counted (s : Device) : Act → Prop
  | .sync _ => s.rdAvailsem.count ≤ 0
  | .woken pid => ∀ stale, s.calls pid ≠ some (.bufalloc .sync stale)
  | .comReply => ∀ i, s.com ≠ .reading i
  | .write _ blk _ =>
    s.pending blk = .nowhere → ∀ i, s.reusable blk = .at i → 0 < s.rdAvailsem.count
  | _ => True

instance (s : Device) : ∀ a, Decidable (s.Counted a)
  | .sync _ => inferInstanceAs (Decidable (_ ≤ _))
  | .woken _ => inferInstanceAs (Decidable (∀ _ : Bool, _))
  | .comReply => inferInstanceAs (Decidable (∀ _ : Bufid, _))
  | .write .. => inferInstanceAs (Decidable (_ → ∀ _ : Bufid, _))
  | .read .. | .resumed _ | .receive _ | .comWait | .comWoken => inferInstanceAs (Decidable True)

theorem Counted.plain (h : s.Counted a) : s.Plain a := by
  cases a with
  | sync pid => exact h
  | woken pid => exact h
  | comReply => exact fun i hi => absurd hi (h i)
  | read pid blk => exact trivial
  | write pid blk data => exact trivial
  | resumed pid => exact trivial
  | receive pid => exact trivial
  | comWait => exact trivial
  | comWoken => exact trivial

end Device

/-! ## The invariant -/

/-- The buffers that `rdsbufalloc` could take. -/
def available (s : Device) (c f : List Bufid) : Int := (f.length + c.countP s.unused : Nat)

/-- The invariant of runs without a completed read: no process has a message. -/
structure Balanced (s : Device) (q c f : List Bufid) : Prop where
  based : Based s q c f
  silent : ∀ pid, s.prmsg pid = none
  availsemOk : s.rdAvailsem.Ok
  available : s.rdAvailsem.units = available s c f

theorem Balanced.accounted (h : Balanced s q c f) : Accounted s q c f where
  lists := h.based.holds
  held := h.based.held
  once := h.based.once
  reqsem := by
    have hreq := h.based.requests
    rw [h.based.reqsemOk.units_eq] at hreq
    exact hreq
  availsem := by
    have hav := h.available
    rw [h.availsemOk.units_eq] at hav
    exact hav

/-- Only the reference counts in the cache matter. -/
theorem available_congr (h : ∀ i ∈ c, (s'.buf i).rdRefcnt = (s.buf i).rdRefcnt) :
    available s' c f = available s c f := by
  have hcount : c.countP s'.unused = c.countP s.unused := by
    refine List.countP_congr fun i hi => ?_
    unfold Device.unused
    rw [h i hi]
  unfold available
  rw [hcount]

/-- A buffer without references in the cache. -/
theorem available_cached {i : Bufid} (hi : (s'.buf i).rdRefcnt = 0)
    (h : ∀ j ∈ c, (s'.buf j).rdRefcnt = (s.buf j).rdRefcnt) :
    available s' (i :: c) f = available s c f + 1 := by
  have hun : s'.unused i = true := by
    unfold Device.unused
    rw [hi]
    rfl
  have hrest := available_congr (f := f) h
  unfold available at *
  rw [List.countP_cons_of_pos hun]
  omega

/-- `rdsbufalloc` takes one of the available buffers. -/
theorem Alloc.available {i : Bufid} (h : Alloc s.unused c f i c' f') :
    available s c' f' = available s c f - 1 := by
  unfold Rds.available
  cases h with
  | free h =>
    subst h
    rw [List.length_cons]
    omega
  | cache hf hc ht hb =>
    subst hc
    rw [List.countP_append, List.countP_append, List.countP_cons_of_pos ht]
    omega

/-- So does `rdsWrite` with an unused copy. -/
theorem available_reuse {i : Bufid} {l m : List Bufid} (hun : s.unused i = true) :
    available s (l ++ m) f = available s (l ++ i :: m) f - 1 := by
  unfold available
  rw [List.countP_append, List.countP_append, List.countP_cons_of_pos hun]
  omega

/-- What a request changes, besides the lists and `rd_reqsem`. -/
theorem request_frame {pid : Pid} {r : Req} {i : Bufid} (s : Device) :
    (s.request pid i r).1.rdAvailsem = s.rdAvailsem ∧
      (∀ j, j ≠ i → (s.request pid i r).1.buf j = s.buf j) ∧
      ((∀ p, s.prmsg p = none) → ∀ p, (s.request pid i r).1.prmsg p = none) := by
  cases r with
  | read blk =>
    exact ⟨rfl, fun j hj => update_of_ne hj _ _, fun h =>
      (forall_update_iff s.prmsg fun _ m => m = none).mpr ⟨rfl, fun p _ => h p⟩⟩
  | write blk data => exact ⟨rfl, fun j hj => update_of_ne hj _ _, fun h => h⟩
  | sync =>
    exact ⟨rfl, fun j hj => update_of_ne hj _ _, fun h =>
      (forall_update_iff s.prmsg fun _ m => m = none).mpr ⟨rfl, fun p _ => h p⟩⟩

/-- A request enters the queue, with a buffer that is not in the cache. -/
theorem Balanced.request {pid : Pid} {r : Req} {sem : Sema} {i : Bufid} {p : Ptrs}
    (h : Balanced s q c f) (hi : i ∉ c')
    (hb : Based ({ s with rdAvailsem := sem, lists := p }.request pid i r).1 q' c' f')
    (hok : sem.Ok) (hav : sem.units = Rds.available s c' f') :
    Balanced ({ s with rdAvailsem := sem, lists := p }.request pid i r).1 q' c' f' := by
  obtain ⟨hsem, hbuf, hm⟩ :=
    @request_frame pid r i { s with rdAvailsem := sem, lists := p }
  refine ⟨hb, hm h.silent, ?_, ?_⟩
  · rw [hsem]
    exact hok
  · rw [hsem]
    refine hav.trans (available_congr fun j hj => ?_).symm
    rw [hbuf j]
    rintro rfl
    exact hi hj

/-- `semreset` to one less, while the count is positive. -/
theorem reset_units {sem : Sema} (h : sem.Ok) (hc : 0 < sem.count) :
    (sem.reset (sem.count - 1)).Ok ∧ (sem.reset (sem.count - 1)).units = sem.units - 1 := by
  have hq : sem.queue = [] := by
    unfold Sema.Ok at h
    exact List.length_eq_zero_iff.mp (by omega)
  unfold Sema.reset Sema.Ok Sema.units
  rw [if_neg (by omega), hq]
  simp
  omega

/-- **Each counted step keeps the counts.** -/
theorem Does.balanced (h : Balanced s q c f) (hs : s.Counted a)
    (hd : Does s q c f a s' q' c' f' es) (hb : Based s' q' c' f') : Balanced s' q' c' f' := by
  have hav := h.available
  cases hd with
  | refused hstate => exact h
  | cached hcalls hfind hvalid => exact h
  | queued hcalls hfind hop => exact h
  | waits hw hcalls ht =>
    refine ⟨hb, h.silent, Sema.wait_ok h.availsemOk _, ?_⟩
    rw [Sema.wait_units, if_neg (by simp [ht])]
    exact hav
  | takes hg hr ha hi =>
    have htakes := hg.takes
    have hunits := htakes.units
    have hlist := ha.available
    refine h.request (fun hic => hi (by simp [hic])) hb (htakes.ok h.availsemOk) ?_
    omega
  | panicked hg hf hc =>
    -- the unit stands for a buffer
    have hpos := hg.takes.units_pos h.availsemOk
    have hnone : c.countP s.unused = 0 :=
      List.countP_eq_zero.mpr fun i hi => by simp [hc i hi]
    unfold Rds.available at hav
    rw [hf, hnone] at hav
    rw [hav] at hpos
    exact absurd hpos (by simp)
  | @replaced pid blk data i hcalls hi hblk hop =>
    refine ⟨hb, h.silent, h.availsemOk, hav.trans (available_congr fun j hj => ?_).symm⟩
    change (update s.buf i _ j).rdRefcnt = _
    by_cases hji : j = i
    · rw [hji, update_self]
    · rw [update_of_ne hji]
  | @reused pid blk data i l m p hcalls hq hc hblk hfirst hun hcount hi =>
    have hholds := h.based.holds
    rcases pending_cases hholds blk with ⟨j, -, hj, hjb, hop⟩ | ⟨hn, -⟩
    · exact absurd hjb (hq j hj hop)
    rcases reusable_cases hholds blk with ⟨j, -, -, hj, -⟩ | ⟨-, hnone⟩
    · exact absurd (hs hn j hj) (by omega)
    · have hfind : c.find? (s.hasBlk blk) = some i := by
        rw [hc]
        refine List.find?_eq_some_iff_append.mpr ⟨(hasBlk_eq s blk i).mpr hblk, l, m, rfl, ?_⟩
        intro j hj
        simp [hfirst j hj, Device.hasBlk]
      rw [hnone i hfind] at hun
      cases hun
  | @reset pid blk data i l m p hcalls hq hc hblk hfirst hun hcount hi =>
    subst hc
    obtain ⟨hok, hunits⟩ := reset_units h.availsemOk hcount
    refine ⟨hb, h.silent, hok, ?_⟩
    change (s.rdAvailsem.reset (s.rdAvailsem.count - 1)).units = Rds.available s (l ++ m) f
    rw [available_reuse hun]
    omega
  | @resumed pid blk data stale i hcalls =>
    have hi : i ∉ q ++ c ++ f := (h.based.held i).mpr ⟨pid, blk, data, stale, hcalls⟩
    exact h.request (r := .write blk data) (p := s.lists) (fun hic => hi (by simp [hic])) hb
      h.availsemOk hav
  | received hcalls hm hend =>
    rw [h.silent] at hm
    cases hm
  | hung hcalls hm href hhead =>
    rw [h.silent] at hm
    cases hm
  | comWaits hcom ht => exact ⟨hb, h.silent, h.availsemOk, hav⟩
  | servesRead hs hq hop => exact ⟨hb, h.silent, h.availsemOk, hav⟩
  | @servesWrite _ sem i q' p hs hq hop =>
    have hunits := Sema.signal_units h.availsemOk
    have hic : i ∉ c := by
      subst hq
      exact h.based.holds.not_cached List.mem_cons_self
    refine ⟨hb, h.silent, Sema.signal_ok h.availsemOk, ?_⟩
    refine (hunits.trans (congrArg (· + 1) hav)).trans (available_cached ?_ fun j hj => ?_).symm
    · change (update s.buf i _ i).rdRefcnt = 0
      rw [update_self]
    · change (update s.buf i _ j).rdRefcnt = _
      rw [update_of_ne]
      rintro rfl
      exact hic hj
  | replied hcom hq halone => exact absurd hcom (hs _)
  | answered hcom => exact ⟨hb, h.silent, h.availsemOk, hav⟩

theorem boot_balanced (disk : UInt32 → Block) (blk : UInt32) (mem : Bufid → Rdbuff) :
    Balanced (boot disk blk mem) [] [] (List.finRange RD_BUFFS) := by
  refine ⟨boot_based disk blk mem, fun _ => rfl, rfl, ?_⟩
  unfold available
  rw [List.length_finRange]
  rfl

/-! ## Runs -/

/-- **The buffers and the semaphores agree** in every run of counted steps. -/
theorem buffers_accounted_without_slip {disk : UInt32 → Block} {tr : List Event}
    (r : (machine disk).Run Device.Counted tr s) : ∃ q c f, Accounted s q c f := by
  have hbal : ∃ q c f, Balanced s q c f := by
    refine r.invariant (I := fun _ s => ∃ q c f, Balanced s q c f) ?_ ?_
    · rintro s ⟨blk, mem, rfl⟩
      exact ⟨[], [], _, boot_balanced disk blk mem⟩
    · rintro tr es s s' a ⟨q, c, f, h⟩ hok hst
      obtain ⟨q', c', f', hd, hb⟩ := step_based h.based hok.plain hst
      exact ⟨q', c', f', hd.balanced h hok hb⟩
  obtain ⟨q, c, f, h⟩ := hbal
  exact ⟨q, c, f, h.accounted⟩

/-- A disk of empty blocks, and cleared buffers. -/
def emptyBoot : Device := boot (fun _ => []) 0 fun _ => {}

/-- A block is written twice, its cached copy reused, and a read begun. -/
theorem buffers_accounted_without_slip_reuse :
    ∃ s tr, (machine fun _ => []).exec Device.Counted emptyBoot []
        [.comWait, .write 1 5 [7], .comWoken, .comReply, .write 1 5 [8], .read 2 6, .resumed 1,
          .comWait] = some (s, tr) ∧
      s.com = .reading 1 ∧ ∃ q c f, Accounted s q c f := by
  have hrun : ((machine fun _ => []).exec Device.Counted emptyBoot []
      [.comWait, .write 1 5 [7], .comWoken, .comReply, .write 1 5 [8], .read 2 6, .resumed 1,
        .comWait]).any (fun r => r.1.com = .reading 1) := by
    decide +kernel
  obtain ⟨⟨s, tr⟩, hst, hcom⟩ := (Option.any_eq_true _ _).mp hrun
  exact ⟨s, tr, hst, of_decide_eq_true hcom,
    buffers_accounted_without_slip (Machine.exec_run (.start (boot_started _ _ _)) hst)⟩

/-- **A request without a signal.** `RDS_CTL_SYNC` leaves a request in the
queue that `rd_reqsem` does not count. -/
theorem buffers_not_accounted :
    ¬ ∀ disk tr s, (machine disk).Run (fun _ _ => True) tr s → ∃ q c f, Accounted s q c f := by
  intro hall
  have hrun : ((machine fun _ => []).exec (fun _ _ => True) emptyBoot [] [.comWait, .sync 1]).any
      (fun r => r.1.rdReqsem.count = -1 ∧ r.1.rdReqsem.released = [] ∧ r.1.com = .waiting ∧
        r.1.lists.requested (fun _ => true) = .at 0) := by
    decide +kernel
  obtain ⟨⟨s, tr⟩, hst, hs⟩ := (Option.any_eq_true _ _).mp hrun
  obtain ⟨hcount, hrel, hcom, hfirst⟩ := of_decide_eq_true hs
  obtain ⟨q, c, f, h⟩ := hall _ tr s (Machine.exec_run (.start (boot_started _ _ _)) hst)
  have hreq := h.reqsem
  rw [hcount, hrel, hcom] at hreq
  have hq : q = [] := List.length_eq_zero_iff.mp (by
    change (max (-1) 0 : Int) + 0 + 0 = _ at hreq
    omega)
  rw [h.lists.requested_eq, hq] at hfirst
  cases hfirst

end Xinu.Rds
