import XinuCMips.Rds.Readers

/-!
# The cache of the remote disk is coherent

* `Careful` — the steps that keep it so;
* `Does.coherent` — each of them keeps the invariants of the data and of the
  calls, and shows what the monitor allows;
* `reads_coherent_without_slip` — in every run of such steps, reads return the
  last data, and the server has the last data of each block that no write is on
  its way to;
* `reads_not_coherent` — the message for a read has no block number: the reader
  gets another block.
-/

namespace Xinu.Rds

open Function

variable {s s' : Device} {q c f q' c' f' : List Bufid} {a : Act} {es : List Event} {e : Expect}

/-- A call of `rdsRead` or `rdsWrite`, with no write of its block completed since
it has searched the lists. -/
def RdsCall.current : RdsCall → Bool
  | .bufalloc r stale => decide (r ≠ .sync) && !stale
  | .semreset _ _ _ stale => !stale
  | .receive _ => true

namespace Device

/-- `rdsbufalloc` finds a buffer. -/
def CanAlloc (s : Device) : Prop := (s.lists.bufalloc s.unused).1 ≠ .nowhere

instance (s : Device) : Decidable s.CanAlloc := inferInstanceAs (Decidable (_ ≠ _))

/-- **The steps of reads and writes that keep the cache coherent.** A call that
takes a buffer finds one. No write of the block has been completed since the call
searched the lists. A reader finds its buffer first in the cache, or others refer
to it. A read request is answered while `msg` holds its block number, and there
is no second request for the block. -/
def Careful (s : Device) : Act → Prop
  | .read _ blk => s.lookup blk = .nowhere → 0 < s.rdAvailsem.count → s.CanAlloc
  | .write _ blk _ =>
    s.pending blk = .nowhere → s.reusable blk = .nowhere → 0 < s.rdAvailsem.count → s.CanAlloc
  | .sync _ => False
  | .woken pid => (s.calls pid).all RdsCall.current = true ∧ s.CanAlloc
  | .resumed pid => (s.calls pid).all RdsCall.current = true
  | .receive pid =>
    ∀ i, s.prmsg pid = some (some i) → 1 < (s.buf i).rdRefcnt ∨ s.lists.rdNext .chead = .buf i
  | .comReply => ∀ i, s.com = .reading i → s.alone i ∧ s.rdBlk = (s.buf i).rdBlknum
  | .comWait | .comWoken => True

instance (s : Device) : ∀ a, Decidable (s.Careful a)
  | .read .. => inferInstanceAs (Decidable (_ → _ → _))
  | .write .. => inferInstanceAs (Decidable (_ → _ → _ → _))
  | .sync _ => inferInstanceAs (Decidable False)
  | .woken _ => inferInstanceAs (Decidable (_ ∧ _))
  | .resumed _ => inferInstanceAs (Decidable (_ = _))
  | .receive _ => inferInstanceAs (Decidable (∀ _ : Bufid, _))
  | .comReply => inferInstanceAs (Decidable (∀ _ : Bufid, _))
  | .comWait | .comWoken => inferInstanceAs (Decidable True)

theorem Careful.plain (h : s.Careful a) : s.Plain a := by
  cases a with
  | sync pid => exact h.elim
  | woken pid =>
    intro stale hc
    have hcur := h.1
    rw [hc] at hcur
    cases hcur
  | comReply => exact fun i hi => (h i hi).1
  | read pid blk => exact trivial
  | write pid blk data => exact trivial
  | resumed pid => exact trivial
  | receive pid => exact trivial
  | comWait => exact trivial
  | comWoken => exact trivial

/-- What the server holds when it has answered the request that it is busy with. -/
def content (s : Device) : UInt32 → Block :=
  match s.com with
  | .writing blk data => update s.server blk data
  | _ => s.server

theorem content_eq (h : ∀ blk data, s.com ≠ .writing blk data) : s.content = s.server := by
  unfold content
  cases hcom : s.com with
  | writing blk data => exact absurd hcom (h blk data)
  | idle => rfl
  | waiting => rfl
  | reading i => rfl

end Device

/-- **The invariant.** -/
structure Coherent (e : Expect) (s : Device) (q c : List Bufid) : Prop where
  stored : Stored e.last s.content s.buf q c
  callers : Callers e s.content s.buf s.calls s.prmsg q c

/-! ## Calls that ask for a buffer -/

/-- What is known of a call that wants a buffer for a block: there is neither a
write request nor a valid copy, and a read is owed the last data. -/
structure Fresh (e : Expect) (s : Device) (q c : List Bufid) (pid : Pid) (r : Req) : Prop where
  coherent : Coherent e s q c
  noReceive : ∀ b, s.calls pid ≠ some (.receive b)
  noWrite : ∀ blk, r.blk? = some blk → NoWrite s.buf q blk
  noValid : ∀ blk, r.blk? = some blk → NoValid s.buf c blk
  asked : ∀ blk, r = .read blk → e.pending pid = some (blk, e.last blk)

variable {disk : UInt32 → Block}

theorem wants_fresh {pid : Pid} {r : Req} (h : Coherent e s q c) (hw : Wants s q c a pid r es)
    (hcalls : s.calls pid = none) :
    ∃ e', Machine.feed (coherent disk) e es = some e' ∧ Fresh e' s q c pid r := by
  have hno : ∀ b, s.calls pid ≠ some (.receive b) := fun b hb => by
    rw [hcalls] at hb
    cases hb
  cases hw with
  | @read _ blk hc hq =>
    refine ⟨_, rfl, ⟨h.stored, h.callers.ask hcalls _⟩, hno, ?_, ?_, ?_⟩
    · rintro _ ⟨⟩
      exact h.stored.noWrite (hasBlk_eq s blk) hq
    · rintro _ ⟨⟩
      exact h.stored.noValid (hasBlk_eq s blk) hc
    · rintro _ ⟨⟩
      exact update_self _ _ _
  | @write _ blk data hq hc =>
    refine ⟨e, rfl, h, hno, ?_, ?_, nofun⟩
    · rintro _ ⟨⟩
      exact hq
    · rintro _ ⟨⟩
      refine h.stored.noValid (hasBlk_eq s blk) fun i hi => eq_false_of_ne_true fun hv => ?_
      -- a valid copy has no references, and would be reused
      have href := (h.stored.valid i (List.mem_of_find?_eq_some hi) hv).2.1
      have hun := hc i hi
      unfold Device.unused at hun
      exact of_decide_eq_false hun href
  | sync => exact ⟨e, rfl, h, hno, nofun, nofun, nofun⟩

theorem gets_fresh {pid : Pid} {r : Req} {sem : Sema} (h : Coherent e s q c)
    (hg : Gets s q c a pid r sem es) (hs : s.Careful a) :
    ∃ e', Machine.feed (coherent disk) e es = some e' ∧ Fresh e' s q c pid r := by
  cases hg with
  | wait hw hcalls ht => exact wants_fresh h hw hcalls
  | @woken _ _ stale hc hr =>
    have hcur := hs.1
    rw [hc] at hcur
    have hstale : stale = false := by
      cases stale with
      | false => rfl
      | true => simp [RdsCall.current] at hcur
    subst hstale
    refine ⟨e, rfl, h, fun b hb => ?_, fun blk hblk => ?_, fun blk hblk => ?_, ?_⟩
    · rw [hc] at hb
      cases hb
    · exact (h.callers.waiting pid blk (.inl ⟨r, hc, hblk⟩)).1
    · exact (h.callers.waiting pid blk (.inl ⟨r, hc, hblk⟩)).2
    · rintro blk rfl
      exact h.callers.asked pid blk hc

/-- A call that takes a buffer finds one. -/
theorem gets_canAlloc {pid : Pid} {r : Req} {sem : Sema} (h : Holds s.lists q c f)
    (hg : Gets s q c a pid r sem es) (hs : s.Careful a) : s.CanAlloc := by
  cases hg with
  | wait hw hcalls ht =>
    have hcount := Sema.wait_true_count ht
    cases hw with
    | @read _ blk hc hq =>
      rcases lookup_cases h blk with ⟨i, -, ⟨hi, hv⟩ | ⟨hi, hop⟩⟩ | ⟨hn, -, -⟩
      · rw [hc i hi] at hv
        cases hv
      · exact absurd hop (hq i hi)
      · exact hs hn hcount
    | @write _ blk data hq hc =>
      rcases pending_cases h blk with ⟨i, -, hi, hblk, hop⟩ | ⟨hn, -⟩
      · exact absurd hblk (hq i hi hop)
      rcases reusable_cases h blk with ⟨i, l, m, -, rfl, hblk, hl, hun⟩ | ⟨hn', -⟩
      · have hfind : (l ++ i :: m).find? (s.hasBlk blk) = some i := by
          refine List.find?_eq_some_iff_append.mpr ⟨(hasBlk_eq s blk i).mpr hblk, l, m, rfl, ?_⟩
          intro j hj
          simp [hl j hj, Device.hasBlk]
        rw [hc i hfind] at hun
        cases hun
      · exact hs hn hn' hcount
    | sync => exact hs.elim
  | woken hc hr => exact hs.2

/-- A buffer that is referenced stays where an unused one leaves. -/
theorem keeps_referenced {i j : Bufid} {l m : List Bufid} (hun : s.unused i = true)
    (hj : j ∈ l ++ i :: m) (href : 0 < (s.buf j).rdRefcnt) : j ∈ l ++ m := by
  have hji : j ≠ i := by
    rintro rfl
    unfold Device.unused at hun
    have hle := of_decide_eq_true hun
    omega
  simp only [List.mem_append, List.mem_cons] at hj ⊢
  tauto

/-- The buffers that stay in the cache. -/
theorem Alloc.shrinks {i : Bufid} (h : Alloc s.unused c f i c' f') :
    c'.Sublist c ∧ ∀ j ∈ c, 0 < (s.buf j).rdRefcnt → j ∈ c' := by
  cases h with
  | free h => exact ⟨List.Sublist.refl c, fun j hj _ => hj⟩
  | @cache l m _ hf hc ht hb =>
    subst hc
    exact ⟨(List.sublist_cons_self i m).append_left l, fun j hj => keeps_referenced ht hj⟩

/-! ## Requests -/

variable {pid : Pid} {blk : UInt32} {data : Block} {sem : Sema} {p : Ptrs} {i : Bufid}

/-- A write request enters the queue. Copies without references may have left the
cache before. -/
theorem Coherent.pushWrite (h : Coherent e s q c) (hsub : c'.Sublist c)
    (hkeep : ∀ j ∈ c, 0 < (s.buf j).rdRefcnt → j ∈ c') (hiq : i ∉ q) (hic : i ∉ c')
    (hw : NoWrite s.buf q blk) (hv : NoValid s.buf c' blk)
    (hpid : ∀ b, s.calls pid ≠ some (.receive b)) :
    Coherent { e with last := update e.last blk data }
      ({ s with rdAvailsem := sem, lists := p }.writeRequest pid blk data i).1 (q ++ [i]) c' := by
  constructor
  · exact (h.stored.sublist hsub).enqueue
      (b := { rdOp := .write, rdRefcnt := 0, rdBlknum := blk, rdValid := true, rdPid := pid,
              rdBlock := data })
      hiq hic hw hv nofun (fun _ => rfl) nofun
  · have hwritten := @Callers.written _ _ _ _ _ _ _ blk data (h.callers.shrink hsub hkeep)
    have hno : ∀ b, (s.calls pid).map (RdsCall.written blk) ≠ some (.receive b) := fun b hb =>
      hpid b (written_receive.mp hb)
    have hend := @Callers.setCall _ _ _ _ _ _ _ pid hwritten hno none
      (fun _ ha => by rcases ha with ⟨r, ⟨⟩, -⟩ | ⟨i, data, ⟨⟩⟩) nofun
    have hbuf := @Callers.congr _ _ _ (update s.buf i
        { rdOp := .write, rdRefcnt := 0, rdBlknum := blk, rdValid := true, rdPid := pid, rdBlock := data })
      _ _ _ _ hend (fun j hj => by
        rw [Stored.update_outside hiq j hj]
        exact ⟨rfl, rfl, rfl⟩)
      fun j hj => Stored.update_outside hic j hj
    refine hbuf.pushWrite (by rw [update_self]) fun p ha => ?_
    rw [update_self] at ha
    by_cases hp : p = pid
    · rw [hp, update_self] at ha
      rcases ha with ⟨r, ⟨⟩, -⟩ | ⟨i, data, ⟨⟩⟩
    · rw [update_of_ne hp] at ha
      exact (Callers.written_awaits ha).2 rfl

/-- A read request enters the queue. -/
theorem Fresh.pushRead (h : Fresh e s q c pid (.read blk)) (hsub : c'.Sublist c)
    (hkeep : ∀ j ∈ c, 0 < (s.buf j).rdRefcnt → j ∈ c') (hiq : i ∉ q) (hic : i ∉ c') :
    Coherent e ({ s with rdAvailsem := sem, lists := p }.readRequest pid blk i).1 (q ++ [i]) c' := by
  have hw := h.noWrite blk rfl
  have hv : NoValid s.buf c' blk := fun j hj => h.noValid blk rfl j (hsub.subset hj)
  have hst := h.coherent.stored
  constructor
  · have henq := @Stored.enqueue _ _ _ _ _ i { s.buf i with
        rdOp := .read, rdRefcnt := 1, rdBlknum := blk, rdValid := false, rdPid := pid }
      (e.last blk) (hst.sublist hsub)
      hiq hic hw hv (fun _ => ⟨rfl, rfl⟩) nofun nofun
    rw [update_eq_self] at henq
    exact henq
  · have hbuf := @Callers.congr _ _ _ (update s.buf i { s.buf i with
        rdOp := .read, rdRefcnt := 1, rdBlknum := blk, rdValid := false, rdPid := pid })
      _ _ _ _ (h.coherent.callers.shrink hsub hkeep) (fun j hj => by
        rw [Stored.update_outside hiq j hj]
        exact ⟨rfl, rfl, rfl⟩)
      fun j hj => Stored.update_outside hic j hj
    have hpush := hbuf.pushRead (i := i) (by rw [update_self])
    rw [update_self] at hpush
    refine hpush h.noReceive ?_
    rw [hst.server blk hw]
    exact h.asked blk rfl

/-- A read that finds the last data. -/
theorem Coherent.answered (h : Coherent e s q c) (hcalls : s.calls pid = none)
    (hdata : data = e.last blk) :
    ∃ e', Machine.feed (coherent disk) e [.got pid blk data, .asked pid blk] = some e' ∧
      Coherent e' s q c := by
  have hasked := h.callers.ask hcalls (some (blk, e.last blk))
  refine ⟨{ e with pending := update (update e.pending pid (some (blk, e.last blk))) pid none }, ?_,
    h.stored, hasked.ask hcalls none⟩
  rw [Machine.feed_cons, Machine.feed_singleton]
  change (if update e.pending pid (some (blk, e.last blk)) pid = some (blk, data) then _ else none) = _
  rw [hdata, update_self, if_pos rfl]

theorem hasBlk_of_find {l : List Bufid} (h : l.find? (s.hasBlk blk) = some i) :
    i ∈ l ∧ (s.buf i).rdBlknum = blk :=
  ⟨List.mem_of_find?_eq_some h, (hasBlk_eq s blk i).mp (List.find?_some h)⟩

/-- A write request is replaced. -/
theorem Coherent.replace (h : Coherent e s q c) (hb : Holds s.lists q c f) (hcalls : s.calls pid = none)
    (hi : i ∈ q) (hop : (s.buf i).rdOp = .write) :
    Coherent { e with last := update e.last (s.buf i).rdBlknum data }
      ({ s with buf := update s.buf i { s.buf i with rdBlock := data } }.wrote pid (s.buf i).rdBlknum
        data).1 q c := by
  have hic := hb.not_cached hi
  refine ⟨h.stored.replace hi hic hop hb.requests_nodup, ?_⟩
  have hwritten := @Callers.written _ _ _ _ _ _ _ (s.buf i).rdBlknum data h.callers
  have hend := @Callers.setCall _ _ _ _ _ _ _ pid hwritten
    (fun b hb => by
      rw [hcalls] at hb
      cases hb)
    none
    (fun _ ha => by rcases ha with ⟨r, ⟨⟩, -⟩ | ⟨i, data, ⟨⟩⟩) nofun
  refine hend.congr (fun j hj => ?_) fun j hj => Stored.update_outside hic j hj
  by_cases hji : j = i
  · rw [hji]
    change (update s.buf i _ i).rdOp = _ ∧ (update s.buf i _ i).rdBlknum = _ ∧
      (update s.buf i _ i).rdPid = _
    rw [update_self]
    exact ⟨rfl, rfl, rfl⟩
  · change (update s.buf i _ j).rdOp = _ ∧ (update s.buf i _ j).rdBlknum = _ ∧
      (update s.buf i _ j).rdPid = _
    rw [update_of_ne hji]
    exact ⟨rfl, rfl, rfl⟩

/-- A call waits for a buffer. -/
theorem Fresh.waits {r : Req} (h : Fresh e s q c pid r) :
    Coherent e
      { s with
        rdAvailsem := sem
        calls := update s.calls pid (some (.bufalloc r false)) } q c := by
  refine ⟨h.coherent.stored, h.coherent.callers.setCall h.noReceive (fun b ha => ?_) ?_⟩
  · rcases ha with ⟨r, ⟨⟩, hb⟩ | ⟨i, data, ⟨⟩⟩
    exact ⟨h.noWrite b hb, h.noValid b hb⟩
  · rintro b ⟨⟩
    exact h.asked b rfl

/-- The cached copy of the block is taken out. What is left has no valid copy. -/
theorem Coherent.taken {l m : List Bufid} (h : Coherent e s q (l ++ i :: m))
    (hblk : (s.buf i).rdBlknum = blk) (hfirst : ∀ j ∈ l, (s.buf j).rdBlknum ≠ blk)
    (hun : s.unused i = true) :
    NoValid s.buf (l ++ m) blk ∧ (l ++ m).Sublist (l ++ i :: m) ∧
      ∀ j ∈ l ++ i :: m, 0 < (s.buf j).rdRefcnt → j ∈ l ++ m := by
  refine ⟨h.stored.noValid_behind hblk hfirst, (List.sublist_cons_self i m).append_left l, ?_⟩
  exact fun j hj => keeps_referenced hun hj

/-! ## Steps -/

/-- **Each step keeps the invariant**, and shows what the monitor allows. -/
theorem Does.coherent (hb : Based s q c f) (h : Coherent e s q c) (hs : s.Careful a)
    (hd : Does s q c f a s' q' c' f' es) :
    ∃ e', Machine.feed (coherent disk) e es = some e' ∧ Coherent e' s' q' c' := by
  cases hd with
  | refused hstate => exact ⟨e, rfl, h⟩
  | @cached pid blk i hcalls hfind hvalid =>
    obtain ⟨hi, hblk⟩ := hasBlk_of_find hfind
    refine h.answered hcalls ?_
    rw [(h.stored.valid i hi hvalid).1, hblk]
  | @queued pid blk i hcalls hfind hop =>
    obtain ⟨hi, hblk⟩ := hasBlk_of_find hfind
    refine h.answered hcalls ?_
    rw [h.stored.writes i (List.mem_reverse.mp hi) hop, hblk]
  | waits hw hcalls ht =>
    obtain ⟨e', hfeed, hfresh⟩ := @wants_fresh _ _ _ _ _ _ disk _ _ h hw hcalls
    exact ⟨e', hfeed, hfresh.waits⟩
  | @takes _ pid r sem es i c' f' p hg hr ha hi =>
    obtain ⟨e', hfeed, hfresh⟩ := @gets_fresh _ _ _ _ _ _ disk _ _ _ h hg hs
    obtain ⟨hsub, hkeep⟩ := ha.shrinks
    have hiq : i ∉ q := fun hiq => hi (by simp [hiq])
    have hic : i ∉ c' := fun hic => hi (by simp [hic])
    cases r with
    | sync => exact absurd rfl hr
    | read blk => exact ⟨e', hfeed, hfresh.pushRead hsub hkeep hiq hic⟩
    | write blk data =>
      refine ⟨{ e' with last := update e'.last blk data }, ?_,
        hfresh.coherent.pushWrite hsub hkeep hiq hic (hfresh.noWrite blk rfl)
          (fun j hj => hfresh.noValid blk rfl j (hsub.subset hj)) hfresh.noReceive⟩
      change Machine.feed (coherent disk) e (.wrote pid blk data :: es) = _
      rw [Machine.feed_cons, hfeed]
      rfl
  | panicked hg hf hc =>
    refine absurd ?_ (gets_canAlloc hb.holds hg hs)
    rcases hb.holds.bufalloc s.unused with ⟨i, c', f', p, -, ha, -, -⟩ | ⟨heq, -, -⟩
    · cases ha with
      | free hf' =>
        rw [hf] at hf'
        cases hf'
      | cache hf' hc' ht hb' =>
        rw [hc i (by simp [hc'])] at ht
        cases ht
    · exact heq
  | @replaced pid blk data i hcalls hi hblk hop =>
    subst hblk
    exact ⟨_, rfl, h.replace hb.holds hcalls hi hop⟩
  | @reused pid blk data i l m p hcalls hq hc hblk hfirst hun hcount hi =>
    subst hc
    obtain ⟨hv, hsub, hkeep⟩ := h.taken hblk hfirst hun
    refine ⟨_, rfl, h.pushWrite hsub hkeep (fun hiq => hi (by simp [hiq])) (fun hic => hi ?_) hq hv ?_⟩
    · exact List.mem_append_left _ (List.mem_append_right _ hic)
    · intro b hb
      rw [hcalls] at hb
      cases hb
  | @reset pid blk data i l m p hcalls hq hc hblk hfirst hun hcount hi =>
    subst hc
    obtain ⟨hv, hsub, hkeep⟩ := h.taken hblk hfirst hun
    refine ⟨e, rfl, h.stored.sublist hsub, ?_⟩
    refine (h.callers.shrink hsub hkeep).setCall (fun b hb => ?_) (fun b ha => ?_) nofun
    · rw [hcalls] at hb
      cases hb
    · rcases ha with ⟨r, ⟨⟩, -⟩ | ⟨i, data, ⟨⟩⟩
      exact ⟨hq, hv⟩
  | @resumed pid blk data stale i hcalls =>
    have hcur : (s.calls pid).all RdsCall.current = true := hs
    rw [hcalls] at hcur
    have hstale : stale = false := by
      cases stale with
      | false => rfl
      | true => cases hcur
    subst hstale
    have hi : i ∉ q ++ c ++ f := (hb.held i).mpr ⟨pid, blk, data, false, hcalls⟩
    obtain ⟨hw, hv⟩ := h.callers.waiting pid blk (.inr ⟨i, data, hcalls⟩)
    refine ⟨_, rfl, h.pushWrite (List.Sublist.refl c) (fun j hj _ => hj) (fun hiq => hi (by simp [hiq]))
      (fun hic => hi (by simp [hic])) hw hv fun b hb => ?_⟩
    rw [hcalls] at hb
    cases hb
  | @received pid blk i hcalls hm hend =>
    obtain ⟨hic, href, hip, hcall, hpend⟩ := h.callers.told pid i hm
    have hiq : i ∉ q := fun hiq => hb.holds.not_cached hiq hic
    have hblk : (s.buf i).rdBlknum = blk := by
      rw [hcalls] at hcall
      cases hcall
      rfl
    have hv : (s.buf i).rdValid = false := eq_false_of_ne_true fun hv => by
      have hle := (h.stored.valid i hic hv).2.1
      omega
    refine ⟨{ e with pending := update e.pending pid none }, ?_, h.stored.release hiq hv,
      h.callers.receive hm hiq⟩
    rw [Machine.feed_singleton]
    rw [hblk] at hpend
    exact if_pos hpend
  | @hung pid blk i hcalls hm href hhead =>
    rcases hs i hm with hmany | hfirst
    · omega
    · exact absurd hfirst hhead
  | comWaits hcom ht =>
    have hcontent : s.content = s.server := s.content_eq (by rw [hcom]; nofun)
    obtain ⟨hstored, hcallers⟩ := h
    rw [hcontent] at hstored hcallers
    exact ⟨e, rfl, hstored, hcallers⟩
  | servesRead hserves hq hop =>
    obtain ⟨hstored, hcallers⟩ := h
    rw [s.content_eq hserves.not_writing] at hstored hcallers
    exact ⟨e, rfl, hstored, hcallers⟩
  | @servesWrite _ sem i q' p hserves hq hop =>
    subst hq
    obtain ⟨hstored, hcallers⟩ := h
    rw [s.content_eq hserves.not_writing] at hstored hcallers
    have hnd := hb.holds.requests_nodup
    have hic := hb.holds.not_cached List.mem_cons_self
    have hlast := fun j hj => (List.pairwise_cons.mp hstored.order).1 j hj hop
    exact ⟨e, rfl, hstored.serve hnd hic hop, hcallers.serve hnd hic hop hlast⟩
  | @replied i q' p hcom hq halone =>
    subst hq
    obtain ⟨hstored, hcallers⟩ := h
    rw [s.content_eq (by rw [hcom]; nofun)] at hstored hcallers
    have hnd := hb.holds.requests_nodup
    have hic := hb.holds.not_cached List.mem_cons_self
    have hop := hb.headRead i hcom
    have hmsg := (hcallers.reads i List.mem_cons_self hop).2.1
    have hblank := hstored.blank i List.mem_cons_self hop
    have hdata := congrArg s.server (hs i hcom).2
    have hreply := hcallers.reply hnd hic hop hblank hdata
    have hsend : some ((s.prmsg (s.buf i).rdPid).getD (some i)) = some (some i) := by rw [hmsg]; rfl
    rw [← hsend] at hreply
    exact ⟨e, rfl, hstored.reply hnd hic hop, hreply⟩
  | @answered blk data hcom =>
    have hcontent : s.content = update s.server blk data := by
      unfold Device.content
      rw [hcom]
    obtain ⟨hstored, hcallers⟩ := h
    rw [hcontent] at hstored hcallers
    exact ⟨e, rfl, hstored, hcallers⟩

/-! ## Runs -/

theorem boot_coherent (blk : UInt32) (mem : Bufid → Rdbuff) :
    Coherent ⟨disk, fun _ => none⟩ (boot disk blk mem) [] [] := by
  refine ⟨⟨nofun, .nil, nofun, nofun, .nil, fun _ _ => rfl⟩, ⟨fun _ _ ha => ?_, nofun, nofun, .nil, nofun⟩⟩
  rcases ha with ⟨r, ⟨⟩, -⟩ | ⟨i, data, ⟨⟩⟩

/-- **Coherence.** Reads have returned the last data of their blocks, and the
server has the last data of each block that no write is on its way to. -/
def CoherentRun (disk : UInt32 → Block) (tr : List Event) (s : Device) : Prop :=
  ∃ e, (coherent disk).run tr = some e ∧
    ∃ q, DoubleLinks.Links s.lists.rdNext s.lists.rdPrev (between .rhead .rtail q) ∧
      ∀ blk, NoWrite s.buf q blk → (∀ data, s.com ≠ .writing blk data) → s.server blk = e.last blk

/-- Another block than the one that is being written. -/
theorem content_other (h : ∀ data, s.com ≠ .writing blk data) : s.content blk = s.server blk := by
  unfold Device.content
  cases hcom : s.com with
  | writing b data =>
    refine update_of_ne ?_ _ _
    rintro rfl
    exact h data hcom
  | idle => rfl
  | waiting => rfl
  | reading i => rfl

/-- **The cache is coherent** in every run of careful steps. -/
theorem reads_coherent_without_slip {tr : List Event} (r : (machine disk).Run Device.Careful tr s) :
    CoherentRun disk tr s := by
  have hacc : ∃ e, (coherent disk).run tr = some e ∧ ∃ q c f, Based s q c f ∧ Coherent e s q c := by
    refine r.accepted (R := fun e s => ∃ q c f, Based s q c f ∧ Coherent e s q c) ?_ ?_
    · rintro s ⟨blk, mem, rfl⟩
      exact ⟨[], [], _, boot_based disk blk mem, boot_coherent blk mem⟩
    · rintro e s s' a es ⟨q, c, f, hb, h⟩ hok hst
      obtain ⟨q', c', f', hd, hb'⟩ := step_based hb hok.plain hst
      obtain ⟨e', hfeed, h'⟩ := @Does.coherent _ _ _ _ _ _ _ _ _ _ _ disk hb h hok hd
      exact ⟨e', hfeed, q', c', f', hb', h'⟩
  obtain ⟨e, hrun, q, c, f, hb, h⟩ := hacc
  refine ⟨e, hrun, q, hb.holds.requests, fun blk hw hcom => ?_⟩
  rw [← content_other hcom]
  exact h.stored.server blk hw

/-- A block is read while `msg` holds its number; another one is written, and
read from the cache. -/
theorem reads_coherent_without_slip_cached :
    ∃ s tr, (machine fun _ => []).exec Device.Careful (boot (fun _ => []) 5 fun _ => {}) []
        [.comWait, .read 1 5, .comWoken, .comReply, .receive 1, .write 2 6 [8], .comWait, .comReply,
          .read 3 6] = some (s, tr) ∧
      .got 3 6 [8] ∈ tr ∧ CoherentRun (fun _ => []) tr s := by
  have hrun : ((machine fun _ => []).exec Device.Careful (boot (fun _ => []) 5 fun _ => {}) []
      [.comWait, .read 1 5, .comWoken, .comReply, .receive 1, .write 2 6 [8], .comWait, .comReply,
        .read 3 6]).any (fun r => .got 3 6 [8] ∈ r.2) := by
    decide +kernel
  obtain ⟨⟨s, tr⟩, hst, hmem⟩ := (Option.any_eq_true _ _).mp hrun
  exact ⟨s, tr, hst, of_decide_eq_true hmem,
    reads_coherent_without_slip (Machine.exec_run (.start (boot_started _ _ _)) hst)⟩

/-- **A read of another block.** The message for a read still has the block
number of the last write. -/
theorem reads_not_coherent :
    ¬ ∀ disk tr s, (machine disk).Run (fun _ _ => True) tr s → CoherentRun disk tr s := by
  intro hall
  have hrun : ((machine fun _ => []).exec (fun _ _ => True) (boot (fun _ => []) 0 fun _ => {}) []
      [.write 1 6 [9], .comWait, .comReply, .read 2 5, .comWait, .comReply, .receive 2]).any
      (fun r => ((coherent fun _ => []).run r.2).isNone) := by
    decide +kernel
  obtain ⟨⟨s, tr⟩, hst, hrej⟩ := (Option.any_eq_true _ _).mp hrun
  obtain ⟨e, hacc, -⟩ := hall _ tr s (Machine.exec_run (.start (boot_started _ _ _)) hst)
  rw [hacc] at hrej
  cases hrej

end Xinu.Rds
