import XinuCMips.Rds.Lists

/-!
# What a step of the remote disk does

A step of a device whose pointers hold lists, in terms of these lists. Two kinds
of step are left out: the request of `RDS_CTL_SYNC`, which enters the queue
without a signal, and the reply to a read for whose block there is a second
request, which links the queue wrong.

* `Does`      — the steps;
* `step_does` — a step is one of them, and the pointers hold lists again;
* `Based`     — the invariant of the lists and of `rd_reqsem`;
* `Does.based` — each step keeps it.
-/

namespace Xinu.Rds

open Function

variable {s s' : Device} {q c f q' c' f' : List Bufid} {a : Act} {es es' : List Event}

namespace Device

/-- No second request for the block of the first one. -/
def alone (s : Device) (i : Bufid) : Prop :=
  search s.lists.rdNext (s.hasBlk (s.buf i).rdBlknum) .rtail (RD_BUFFS + 1)
    (s.lists.rdNext (.buf i)) = .nowhere

instance (s : Device) (i : Bufid) : Decidable (s.alone i) := inferInstanceAs (Decidable (_ = _))

/-- The steps that leave the lists well formed: none puts a request of
`RDS_CTL_SYNC` in the queue, and no reply comes while there is a second request
for its block. -/
def Plain (s : Device) : Act → Prop
  | .sync _ => s.rdAvailsem.count ≤ 0
  | .woken pid => ∀ stale, s.calls pid ≠ some (.bufalloc .sync stale)
  | .comReply => ∀ i, s.com = .reading i → s.alone i
  | _ => True

end Device

/-! ## Steps -/

/-- No write request for the block. -/
def NoWrite (buf : Bufid → Rdbuff) (q : List Bufid) (blk : UInt32) : Prop :=
  ∀ i ∈ q, (buf i).rdOp = .write → (buf i).rdBlknum ≠ blk

/-- A call whose searches have not found what they look for, and what it wants a
buffer for. -/
inductive Wants (s : Device) (q c : List Bufid) : Act → Pid → Req → List Event → Prop
  | read {pid : Pid} {blk : UInt32}
      (hc : ∀ i, c.find? (s.hasBlk blk) = some i → (s.buf i).rdValid = false)
      (hq : ∀ i, q.reverse.find? (s.hasBlk blk) = some i → (s.buf i).rdOp ≠ .write) :
      Wants s q c (.read pid blk) pid (.read blk) [.asked pid blk]
  | write {pid : Pid} {blk : UInt32} {data : Block}
      (hq : NoWrite s.buf q blk)
      (hc : ∀ i, c.find? (s.hasBlk blk) = some i → s.unused i = false) :
      Wants s q c (.write pid blk data) pid (.write blk data) []
  | sync {pid : Pid} : Wants s q c (.sync pid) pid .sync []

/-- A call that gets a unit of `rd_availsem`, at once or after it has waited. -/
inductive Gets (s : Device) (q c : List Bufid) : Act → Pid → Req → Sema → List Event → Prop
  | wait {a : Act} {pid : Pid} {r : Req} {es : List Event} (hw : Wants s q c a pid r es)
      (hcalls : s.calls pid = none) (ht : (s.rdAvailsem.wait pid).1 = true) :
      Gets s q c a pid r (s.rdAvailsem.wait pid).2 es
  | woken {pid : Pid} {r : Req} {stale : Bool} (hc : s.calls pid = some (.bufalloc r stale))
      (hr : pid ∈ s.rdAvailsem.released) :
      Gets s q c (.woken pid) pid r (s.rdAvailsem.resume pid) []

/-- `rdsprocess` gets a unit of `rd_reqsem`. -/
inductive Serves (s : Device) : Act → Sema → Prop
  | wait (hcom : s.com = .idle) (ht : (s.rdReqsem.wait rdComproc).1 = true) :
      Serves s .comWait (s.rdReqsem.wait rdComproc).2
  | woken (hcom : s.com = .waiting) (hr : rdComproc ∈ s.rdReqsem.released) :
      Serves s .comWoken (s.rdReqsem.resume rdComproc)

theorem Gets.takes {pid : Pid} {r : Req} {sem : Sema} (h : Gets s q c a pid r sem es) :
    s.rdAvailsem.Takes pid sem := by
  cases h with
  | wait hw hcalls ht => exact .wait ht
  | woken hc hr => exact .resume hr

theorem Serves.takes {sem : Sema} (h : Serves s a sem) : s.rdReqsem.Takes rdComproc sem := by
  cases h with
  | wait hcom ht => exact .wait ht
  | woken hcom hr => exact .resume hr

/-- **The steps.** From lists `q`, `c`, `f` to new ones. -/
inductive Does (s : Device) (q c f : List Bufid) :
    Act → Device → List Bufid → List Bufid → List Bufid → List Event → Prop
  | refused {a : Act} {pid : Pid} (h : s.rdState ≠ .open) : Does s q c f a s q c f [.failed pid]
  /-- `rdsRead` finds the block in the cache. -/
  | cached {pid : Pid} {blk : UInt32} {i : Bufid} (hcalls : s.calls pid = none)
      (hfind : c.find? (s.hasBlk blk) = some i) (hvalid : (s.buf i).rdValid = true) :
      Does s q c f (.read pid blk) s q c f [.got pid blk (s.buf i).rdBlock, .asked pid blk]
  /-- `rdsRead` finds a write request. -/
  | queued {pid : Pid} {blk : UInt32} {i : Bufid} (hcalls : s.calls pid = none)
      (hfind : q.reverse.find? (s.hasBlk blk) = some i) (hop : (s.buf i).rdOp = .write) :
      Does s q c f (.read pid blk) s q c f [.got pid blk (s.buf i).rdBlock, .asked pid blk]
  | waits {a : Act} {pid : Pid} {r : Req} {es : List Event} (hw : Wants s q c a pid r es)
      (hcalls : s.calls pid = none) (ht : (s.rdAvailsem.wait pid).1 = false) :
      Does s q c f a
        { s with
          rdAvailsem := (s.rdAvailsem.wait pid).2
          calls := update s.calls pid (some (.bufalloc r false)) } q c f es
  | takes {a : Act} {pid : Pid} {r : Req} {sem : Sema} {es : List Event} {i : Bufid}
      {c' f' : List Bufid} {p : Ptrs} (hg : Gets s q c a pid r sem es) (hr : r ≠ .sync)
      (ha : Alloc s.unused c f i c' f') (hi : i ∉ q ++ c' ++ f') :
      Does s q c f a ({ s with rdAvailsem := sem, lists := p }.request pid i r).1 (q ++ [i]) c' f'
        (({ s with rdAvailsem := sem, lists := p }.request pid i r).2 ++ es)
  | panicked {a : Act} {pid : Pid} {r : Req} {sem : Sema} {es : List Event}
      (hg : Gets s q c a pid r sem es) (hf : f = []) (hc : ∀ i ∈ c, s.unused i = false) :
      Does s q c f a { s with rdAvailsem := sem, halted := true } q c f (.panicked :: es)
  /-- `rdsWrite` finds a write request. -/
  | replaced {pid : Pid} {blk : UInt32} {data : Block} {i : Bufid} (hcalls : s.calls pid = none)
      (hi : i ∈ q) (hblk : (s.buf i).rdBlknum = blk) (hop : (s.buf i).rdOp = .write) :
      Does s q c f (.write pid blk data)
        ({ s with buf := update s.buf i { s.buf i with rdBlock := data } }.wrote pid blk data).1
        q c f [.wrote pid blk data]
  /-- `rdsWrite` takes the cached copy, and `semreset` does nothing. -/
  | reused {pid : Pid} {blk : UInt32} {data : Block} {i : Bufid} {a b : List Bufid} {p : Ptrs}
      (hcalls : s.calls pid = none)
      (hq : NoWrite s.buf q blk)
      (hc : c = a ++ i :: b) (hblk : (s.buf i).rdBlknum = blk)
      (hfirst : ∀ j ∈ a, (s.buf j).rdBlknum ≠ blk) (hun : s.unused i = true)
      (hcount : s.rdAvailsem.count ≤ 0) (hi : i ∉ q ++ (a ++ b) ++ f) :
      Does s q c f (.write pid blk data) ({ s with lists := p }.writeRequest pid blk data i).1
        (q ++ [i]) (a ++ b) f [.wrote pid blk data]
  /-- `rdsWrite` takes the cached copy, and is switched out in `semreset`. -/
  | reset {pid : Pid} {blk : UInt32} {data : Block} {i : Bufid} {a b : List Bufid} {p : Ptrs}
      (hcalls : s.calls pid = none)
      (hq : NoWrite s.buf q blk)
      (hc : c = a ++ i :: b) (hblk : (s.buf i).rdBlknum = blk)
      (hfirst : ∀ j ∈ a, (s.buf j).rdBlknum ≠ blk) (hun : s.unused i = true)
      (hcount : 0 < s.rdAvailsem.count) (hi : i ∉ q ++ (a ++ b) ++ f) :
      Does s q c f (.write pid blk data)
        { s with
          lists := p
          rdAvailsem := s.rdAvailsem.reset (s.rdAvailsem.count - 1)
          calls := update s.calls pid (some (.semreset i blk data false)) } q (a ++ b) f []
  | resumed {pid : Pid} {blk : UInt32} {data : Block} {stale : Bool} {i : Bufid}
      (hcalls : s.calls pid = some (.semreset i blk data stale)) :
      Does s q c f (.resumed pid) (s.writeRequest pid blk data i).1 (q ++ [i]) c f
        [.wrote pid blk data]
  | received {pid : Pid} {blk : UInt32} {i : Bufid} (hcalls : s.calls pid = some (.receive (some blk)))
      (hm : s.prmsg pid = some (some i))
      (hend : 1 < (s.buf i).rdRefcnt ∨ s.lists.rdNext .chead = .buf i) :
      Does s q c f (.receive pid)
        { s with
          buf := update s.buf i { s.buf i with rdRefcnt := (s.buf i).rdRefcnt - 1 }
          prmsg := update s.prmsg pid none
          calls := update s.calls pid none } q c f [.got pid blk (s.buf i).rdBlock]
  | hung {pid : Pid} {blk : UInt32} {i : Bufid} (hcalls : s.calls pid = some (.receive (some blk)))
      (hm : s.prmsg pid = some (some i)) (href : (s.buf i).rdRefcnt ≤ 1)
      (hhead : s.lists.rdNext .chead ≠ .buf i) :
      Does s q c f (.receive pid) { s with halted := true } q c f [.hung]
  | comWaits (hcom : s.com = .idle) (ht : (s.rdReqsem.wait rdComproc).1 = false) :
      Does s q c f .comWait
        { s with rdReqsem := (s.rdReqsem.wait rdComproc).2, com := .waiting } q c f []
  | servesRead {a : Act} {sem : Sema} {i : Bufid} {q' : List Bufid} (hs : Serves s a sem)
      (hq : q = i :: q') (hop : (s.buf i).rdOp = .read) :
      Does s q c f a { s with rdReqsem := sem, com := .reading i } q c f []
  | servesWrite {a : Act} {sem : Sema} {i : Bufid} {q' : List Bufid} {p : Ptrs}
      (hs : Serves s a sem) (hq : q = i :: q') (hop : (s.buf i).rdOp = .write) :
      Does s q c f a
        { s with
          lists := p
          rdReqsem := sem
          rdBlk := (s.buf i).rdBlknum
          buf := update s.buf i { s.buf i with rdRefcnt := 0 }
          rdAvailsem := s.rdAvailsem.signal
          com := .writing (s.buf i).rdBlknum (s.buf i).rdBlock } q' (i :: c) f []
  | replied {i : Bufid} {q' : List Bufid} {p : Ptrs} (hcom : s.com = .reading i) (hq : q = i :: q')
      (halone : ∀ j ∈ q', (s.buf j).rdBlknum ≠ (s.buf i).rdBlknum) :
      Does s q c f .comReply { s.reply i with lists := p } q' (i :: c) f []
  | answered {blk : UInt32} {data : Block} (hcom : s.com = .writing blk data) :
      Does s q c f .comReply { s with server := update s.server blk data, com := .idle } q c f []

/-! ## The invariant of the lists -/

/-- The process is switched out in `semreset` and holds the buffer. -/
def Holder (calls : Pid → Option RdsCall) (i : Bufid) (pid : Pid) : Prop :=
  ∃ blk data stale, calls pid = some (.semreset i blk data stale)

/-- The request that is with the server has been taken from `rd_reqsem`, and is
still in the queue. -/
def Com.serving : Com → Int
  | .reading _ => 1
  | _ => 0

/-- **The lists and `rd_reqsem`.** Each buffer is in one list, or held by one
call; the semaphore counts the requests. -/
structure Based (s : Device) (q c f : List Bufid) : Prop where
  holds : Holds s.lists q c f
  held : ∀ i, i ∉ q ++ c ++ f ↔ ∃ pid, Holder s.calls i pid
  once : ∀ i pid pid', Holder s.calls i pid → Holder s.calls i pid' → pid = pid'
  head : ∀ i, s.com = .reading i → q.head? = some i
  headRead : ∀ i, s.com = .reading i → (s.buf i).rdOp = .read
  noSync : ∀ i ∈ q, (s.buf i).rdOp ≠ .sync
  noSyncCall : ∀ pid, s.calls pid ≠ some (.receive none)
  messages : ∀ pid, s.prmsg pid ≠ some none
  reqsemOk : s.rdReqsem.Ok
  requests : s.rdReqsem.units + s.com.serving = q.length

theorem Serves.serving {sem : Sema} (h : Serves s a sem) : s.com.serving = 0 := by
  cases h with
  | wait hcom ht =>
    rw [hcom]
    rfl
  | woken hcom hr =>
    rw [hcom]
    rfl

theorem Serves.not_writing {sem : Sema} (h : Serves s a sem) (blk : UInt32) (data : Block) :
    s.com ≠ .writing blk data := by
  cases h with
  | wait hcom ht =>
    rw [hcom]
    nofun
  | woken hcom hr =>
    rw [hcom]
    nofun

/-! ## A step is one of the steps -/

theorem request_lists (s : Device) (pid : Pid) (i : Bufid) (r : Req) :
    (s.request pid i r).1.lists = s.lists.enqueue i := by
  cases r with
  | read blk => rfl
  | write blk data => rfl
  | sync => rfl

/-- The step leads to lists again, and is one of the steps. -/
def Leads (s : Device) (q c f : List Bufid) (a : Act) (r : Device × List Event) : Prop :=
  ∃ q' c' f', Does s q c f a r.1 q' c' f' r.2 ∧ Holds r.1.lists q' c' f'

/-- A call that has got its unit. -/
theorem take_eq (pid : Pid) (r : Req) (sem : Sema) : { s with rdAvailsem := sem }.take pid r =
    match s.lists.bufalloc s.unused with
    | (.at i, p) => { s with rdAvailsem := sem, lists := p }.request pid i r
    | (.nowhere, _) => { s with rdAvailsem := sem }.halt .panicked
    | (.lost, _) => { s with rdAvailsem := sem }.halt .lost :=
  rfl

theorem take_leads {pid : Pid} {r : Req} {sem : Sema} (h : Holds s.lists q c f)
    (hg : Gets s q c a pid r sem es) (hr : r ≠ .sync) :
    Leads s q c f a (({ s with rdAvailsem := sem }.take pid r).1,
      ({ s with rdAvailsem := sem }.take pid r).2 ++ es) := by
  rw [take_eq]
  rcases h.bufalloc s.unused with ⟨i, c', f', p, heq, ha, hp, hi⟩ | ⟨heq, hf, hc⟩
  · rw [heq]
    refine ⟨q ++ [i], c', f', .takes hg hr ha hi, ?_⟩
    rw [request_lists]
    exact hp.enqueue hi
  · generalize s.lists.bufalloc s.unused = t at heq ⊢
    obtain ⟨t, p⟩ := t
    cases heq
    exact ⟨q, c, f, .panicked hg hf fun i hi => eq_false_of_ne_true (hc i hi), h⟩

/-- A call that asks for a buffer. -/
theorem rdsbufalloc_leads {pid : Pid} {r : Req} (h : Holds s.lists q c f)
    (hw : Wants s q c a pid r es) (hcalls : s.calls pid = none)
    (hr : 0 < s.rdAvailsem.count → r ≠ .sync) :
    Leads s q c f a ((s.rdsbufalloc pid r).1, (s.rdsbufalloc pid r).2 ++ es) := by
  unfold Device.rdsbufalloc
  dsimp only
  cases ht : (s.rdAvailsem.wait pid).1 with
  | true =>
    rw [if_pos rfl]
    exact take_leads h (.wait hw hcalls ht) (hr (Sema.wait_true_count ht))
  | false =>
    rw [if_neg (by simp)]
    exact ⟨q, c, f, .waits hw hcalls ht, h⟩

theorem hasBlk_eq (s : Device) (blk : UInt32) (i : Bufid) :
    s.hasBlk blk i = true ↔ (s.buf i).rdBlknum = blk := by
  unfold Device.hasBlk
  exact decide_eq_true_iff

/-- The search of the queue, which follows that of the cache unless it finds valid data. -/
theorem queued_cases (h : Holds s.lists q c f) (blk : UInt32) {r : Found}
    (hr : r = match s.lists.recent (s.hasBlk blk) with
      | .at i => if (s.buf i).rdOp = .write then .at i else .nowhere
      | r => r) :
    (∃ i, r = .at i ∧ q.reverse.find? (s.hasBlk blk) = some i ∧ (s.buf i).rdOp = .write) ∨
      r = .nowhere ∧
        ∀ i, q.reverse.find? (s.hasBlk blk) = some i → (s.buf i).rdOp ≠ .write := by
  subst hr
  rw [h.recent_eq]
  cases hfind : q.reverse.find? (s.hasBlk blk) with
  | none => exact .inr ⟨rfl, fun i hi => by cases hi⟩
  | some i =>
    by_cases hop : (s.buf i).rdOp = .write
    · exact .inl ⟨i, if_pos hop, rfl, hop⟩
    · exact .inr ⟨if_neg hop, fun j hj => Option.some.inj hj ▸ hop⟩

/-- The searches of `rdsRead`. -/
theorem lookup_cases (h : Holds s.lists q c f) (blk : UInt32) :
    (∃ i, s.lookup blk = .at i ∧ (c.find? (s.hasBlk blk) = some i ∧ (s.buf i).rdValid = true ∨
        q.reverse.find? (s.hasBlk blk) = some i ∧ (s.buf i).rdOp = .write)) ∨
      s.lookup blk = .nowhere ∧
        (∀ i, c.find? (s.hasBlk blk) = some i → (s.buf i).rdValid = false) ∧
        ∀ i, q.reverse.find? (s.hasBlk blk) = some i → (s.buf i).rdOp ≠ .write := by
  unfold Device.lookup
  rw [h.cached_eq]
  cases hfind : c.find? (s.hasBlk blk) with
  | none =>
    rcases queued_cases h blk rfl with ⟨i, hi, hq⟩ | ⟨hn, hq⟩
    · exact .inl ⟨i, hi, .inr hq⟩
    · exact .inr ⟨hn, (fun i hi => by cases hi), hq⟩
  | some i =>
    by_cases hv : (s.buf i).rdValid = true
    · exact .inl ⟨i, if_pos hv, .inl ⟨rfl, hv⟩⟩
    · have hinv : ∀ j, some i = some j → (s.buf j).rdValid = false := fun j hj =>
        Option.some.inj hj ▸ eq_false_of_ne_true hv
      rcases queued_cases h blk rfl with ⟨j, hj, hq⟩ | ⟨hn, hq⟩
      · exact .inl ⟨j, (if_neg hv).trans hj, .inr hq⟩
      · exact .inr ⟨(if_neg hv).trans hn, hinv, hq⟩

theorem rdsRead_leads {pid : Pid} {blk : UInt32} (h : Holds s.lists q c f)
    (hcalls : s.calls pid = none) : Leads s q c f (.read pid blk) (s.rdsRead pid blk) := by
  unfold Device.rdsRead
  by_cases hstate : s.rdState ≠ .open
  · rw [if_pos hstate]
    exact ⟨q, c, f, .refused hstate, h⟩
  rw [if_neg hstate]
  rcases lookup_cases h blk with ⟨i, hi, hfind⟩ | ⟨hn, hc, hq⟩
  · rw [hi]
    rcases hfind with ⟨hfind, hvalid⟩ | ⟨hfind, hop⟩
    · exact ⟨q, c, f, .cached hcalls hfind hvalid, h⟩
    · exact ⟨q, c, f, .queued hcalls hfind hop, h⟩
  · rw [hn]
    exact rdsbufalloc_leads h (.read hc hq) hcalls fun _ => nofun

/-- The searches of `rdsWrite`. -/
theorem pending_cases (h : Holds s.lists q c f) (blk : UInt32) :
    (∃ i, s.pending blk = .at i ∧ i ∈ q ∧ (s.buf i).rdBlknum = blk ∧ (s.buf i).rdOp = .write) ∨
      s.pending blk = .nowhere ∧
        NoWrite s.buf q blk := by
  unfold Device.pending
  rw [h.requested_eq]
  cases hfind : q.find? fun i => s.hasBlk blk i && decide ((s.buf i).rdOp = .write) with
  | some i =>
    have hi := List.find?_some hfind
    rw [Bool.and_eq_true, hasBlk_eq, decide_eq_true_iff] at hi
    exact .inl ⟨i, rfl, List.mem_of_find?_eq_some hfind, hi⟩
  | none =>
    refine .inr ⟨rfl, fun i hi hop hblk => ?_⟩
    exact List.find?_eq_none.mp hfind i hi (by simp [hasBlk_eq, hblk, hop])

theorem reusable_cases (h : Holds s.lists q c f) (blk : UInt32) :
    (∃ i a b, s.reusable blk = .at i ∧ c = a ++ i :: b ∧ (s.buf i).rdBlknum = blk ∧
        (∀ j ∈ a, (s.buf j).rdBlknum ≠ blk) ∧ s.unused i = true) ∨
      s.reusable blk = .nowhere ∧ ∀ i, c.find? (s.hasBlk blk) = some i → s.unused i = false := by
  unfold Device.reusable
  rw [h.cached_eq]
  cases hfind : c.find? (s.hasBlk blk) with
  | none => exact .inr ⟨rfl, nofun⟩
  | some i =>
    by_cases hun : s.unused i = true
    · obtain ⟨hblk, a, b, hc, hfirst⟩ := List.find?_eq_some_iff_append.mp hfind
      refine .inl ⟨i, a, b, if_pos hun, hc, (hasBlk_eq s blk i).mp hblk, fun j hj hb => ?_, hun⟩
      have hj' := hfirst j hj
      rw [(hasBlk_eq s blk j).mpr hb] at hj'
      cases hj'
    · refine .inr ⟨if_neg hun, fun j hj => ?_⟩
      exact Option.some.inj hj ▸ eq_false_of_ne_true hun

/-- `rdsWrite` with the cached copy. -/
theorem reuse_leads {pid : Pid} {blk : UInt32} {data : Block} {i : Bufid} {l m : List Bufid}
    (h : Holds s.lists q (l ++ i :: m) f) (hcalls : s.calls pid = none)
    (hq : NoWrite s.buf q blk)
    (hblk : (s.buf i).rdBlknum = blk) (hfirst : ∀ j ∈ l, (s.buf j).rdBlknum ≠ blk)
    (hun : s.unused i = true) :
    Leads s q (l ++ i :: m) f (.write pid blk data) (s.reuse pid blk data i) := by
  have hp := h.unlink_cached
  have hi : i ∉ q ++ (l ++ m) ++ f := by
    have hperm : (q ++ (l ++ i :: m) ++ f).Perm (i :: (q ++ (l ++ m) ++ f)) := by
      simp only [← List.append_assoc]
      simp only [List.append_assoc (q ++ l), List.cons_append]
      exact List.perm_middle
    exact (List.nodup_cons.mp (hperm.nodup_iff.mp h.nodup)).1
  unfold Device.reuse
  dsimp only
  by_cases hcount : s.rdAvailsem.count - 1 < 0
  · rw [if_pos hcount]
    exact ⟨q ++ [i], l ++ m, f, .reused hcalls hq rfl hblk hfirst hun (by omega) hi, hp.enqueue hi⟩
  · rw [if_neg hcount]
    exact ⟨q, l ++ m, f, .reset hcalls hq rfl hblk hfirst hun (by omega) hi, hp⟩

/-- `rdsRead` with its message. -/
theorem readDone_leads {pid : Pid} {blk : UInt32} {i : Bufid} (h : Holds s.lists q c f)
    (hcalls : s.calls pid = some (.receive (some blk))) (hm : s.prmsg pid = some (some i)) :
    Leads s q c f (.receive pid) (s.readDone pid blk i) := by
  unfold Device.readDone
  dsimp only
  by_cases hhang : (s.buf i).rdRefcnt - 1 ≤ 0 ∧ s.lists.rdNext .chead ≠ .buf i
  · rw [if_pos hhang]
    exact ⟨q, c, f, .hung hcalls hm (by omega) hhang.2, h⟩
  · rw [if_neg hhang]
    have hend : 1 < (s.buf i).rdRefcnt ∨ s.lists.rdNext .chead = .buf i := by
      by_cases href : 1 < (s.buf i).rdRefcnt
      · exact .inl href
      · exact .inr (not_not.mp fun hne => hhang ⟨by omega, hne⟩)
    exact ⟨q, c, f, .received hcalls hm hend, h⟩

theorem rdsWrite_leads {pid : Pid} {blk : UInt32} {data : Block} (h : Holds s.lists q c f)
    (hcalls : s.calls pid = none) : Leads s q c f (.write pid blk data) (s.rdsWrite pid blk data) := by
  unfold Device.rdsWrite
  by_cases hstate : s.rdState ≠ .open
  · rw [if_pos hstate]
    exact ⟨q, c, f, .refused hstate, h⟩
  rw [if_neg hstate]
  rcases pending_cases h blk with ⟨i, hi, hmem, hblk, hop⟩ | ⟨hn, hq⟩
  · rw [hi]
    exact ⟨q, c, f, .replaced hcalls hmem hblk hop, h⟩
  rw [hn]
  rcases reusable_cases h blk with ⟨i, l, m, hi, rfl, hblk, hfirst, hun⟩ | ⟨hn, hc⟩
  · rw [hi]
    exact reuse_leads h hcalls hq hblk hfirst hun
  · rw [hn]
    have hleads := rdsbufalloc_leads h (@Wants.write _ _ _ _ _ data hq hc) hcalls fun _ => nofun
    rwa [List.append_nil] at hleads

/-- `rdsprocess` behind its `wait`. -/
theorem serve_request {sem : Sema} {i : Bufid} (h : s.lists.rdNext .rhead = .buf i) :
    { s with rdReqsem := sem }.serve =
      match (s.buf i).rdOp with
      | .read => ({ s with rdReqsem := sem, com := .reading i }, [])
      | .write =>
        ({ s with
            rdReqsem := sem
            rdBlk := (s.buf i).rdBlknum
            lists := (s.lists.unlink i).cache i
            buf := update s.buf i { s.buf i with rdRefcnt := 0 }
            rdAvailsem := s.rdAvailsem.signal
            com := .writing (s.buf i).rdBlknum (s.buf i).rdBlock }, [])
      | .sync =>
        ({ { s with rdReqsem := sem }.send (s.buf i).rdPid none with
            lists := (s.lists.unlink i).free i
            rdAvailsem := s.rdAvailsem.signal
            com := .idle }, []) := by
  unfold Device.serve
  rewrite [show Device.lists { s with rdReqsem := sem } = s.lists from rfl, h]
  rfl

theorem serve_leads {sem : Sema} (h : Based s q c f) (hs : Serves s a sem) :
    Leads s q c f a { s with rdReqsem := sem }.serve := by
  have hunits := hs.takes.units_pos h.reqsemOk
  have hreq := h.requests
  have hserving := hs.serving
  cases q with
  | nil =>
    -- the unit stands for a request
    rw [List.length_nil] at hreq
    omega
  | cons i q =>
    rw [serve_request h.holds.next_rhead]
    have hi : i ∉ q ++ c ++ f := (List.nodup_cons.mp h.holds.nodup).1
    have hp : Holds (s.lists.unlink i) q c f := Holds.unlink_request (a := []) h.holds
    cases hop : (s.buf i).rdOp with
    | read => exact ⟨i :: q, c, f, .servesRead hs rfl hop, h.holds⟩
    | write => exact ⟨q, i :: c, f, .servesWrite hs rfl hop, hp.cache_new hi⟩
    | sync => exact absurd hop (h.noSync i List.mem_cons_self)

/-- The end of a read request. -/
theorem reply_leads {i : Bufid} (h : Based s q c f) (hcom : s.com = .reading i) (halone : s.alone i) :
    Leads s q c f .comReply ((s.reply i).notify i) := by
  have hhead := h.head i hcom
  cases q with
  | nil => cases hhead
  | cons j q =>
    cases Option.some.inj hhead
    have hi : i ∉ q ++ c ++ f := (List.nodup_cons.mp h.holds.nodup).1
    have hp : Holds ((s.lists.unlink i).cache i) q (i :: c) f :=
      (Holds.unlink_request (a := []) h.holds).cache_new hi
    have hne : ∀ j ∈ q, (s.buf j).rdBlknum ≠ (s.buf i).rdBlknum := by
      have hq : Thread.Threaded s.lists.rdNext (.buf i :: (q.map Node.buf ++ [.rtail])) :=
        (Thread.threaded_cons_cons.mp h.holds.requests.threaded).2
      have hlen := length_lt_of_nodup (List.nodup_cons.mp h.holds.requests_nodup).2
      unfold Device.alone at halone
      rw [search_eq (by simp) hlen hq] at halone
      cases hfind : q.find? (s.hasBlk (s.buf i).rdBlknum) with
      | none => exact fun j hj hb => List.find?_eq_none.mp hfind j hj ((hasBlk_eq _ _ _).mpr hb)
      | some j =>
        rw [hfind] at halone
        cases halone
    -- the search behind the reply finds none either
    have hblk : ((s.reply i).buf i).rdBlknum = (s.buf i).rdBlknum := by
      change (update s.buf i _ i).rdBlknum = _
      rw [update_self]
    have hnone : q.find? ((s.reply i).hasBlk ((s.reply i).buf i).rdBlknum) = none := by
      refine List.find?_eq_none.mpr fun j hj hb => ?_
      have hji : j ≠ i := by
        rintro rfl
        exact hi (by simp [hj])
      rw [hasBlk_eq, hblk] at hb
      change (update s.buf i _ j).rdBlknum = _ at hb
      rw [update_of_ne hji] at hb
      exact hne j hj hb
    have hnotify : (s.reply i).notify i = (s.reply i, []) := by
      unfold Device.notify
      rw [show (s.reply i).lists = (s.lists.unlink i).cache i from rfl, hp.requested_eq, hnone]
      rfl
    rw [hnotify]
    exact ⟨q, i :: c, f, .replied hcom rfl hne, hp⟩

/-- **A step is one of the steps**, and the pointers hold lists again. -/
theorem step_leads (h : Based s q c f) (hp : s.Plain a) (hst : s.step a = some (s', es)) :
    Leads s q c f a (s', es) := by
  cases a with
  | read pid blk =>
    simp only [Device.step] at hst
    split at hst
    · rename_i hg
      rw [← Option.some.inj hst]
      exact rdsRead_leads h.holds hg.2
    · cases hst
  | write pid blk data =>
    simp only [Device.step] at hst
    split at hst
    · rename_i hg
      rw [← Option.some.inj hst]
      exact rdsWrite_leads h.holds hg.2
    · cases hst
  | sync pid =>
    simp only [Device.step] at hst
    split at hst
    · rename_i hg
      rw [← Option.some.inj hst]
      unfold Device.rdsControl
      by_cases hstate : s.rdState ≠ .open
      · rw [if_pos hstate]
        exact ⟨q, c, f, .refused hstate, h.holds⟩
      · rw [if_neg hstate]
        have hcount : s.rdAvailsem.count ≤ 0 := hp
        have hleads := rdsbufalloc_leads h.holds .sync hg.2 fun hpos => absurd hcount (by omega)
        rwa [List.append_nil] at hleads
    · cases hst
  | woken pid =>
    cases hc : s.calls pid with
    | none => simp [Device.step, hc] at hst
    | some k =>
      cases k with
      | bufalloc r stale =>
        simp only [Device.step, hc] at hst
        split at hst
        · rename_i hg
          rw [← Option.some.inj hst]
          have hr : r ≠ .sync := by
            rintro rfl
            exact hp stale hc
          have hleads := take_leads h.holds (.woken hc hg.2) hr
          rwa [List.append_nil] at hleads
        · cases hst
      | semreset i blk data stale => simp [Device.step, hc] at hst
      | receive blk => simp [Device.step, hc] at hst
  | resumed pid =>
    cases hc : s.calls pid with
    | none => simp [Device.step, hc] at hst
    | some k =>
      cases k with
      | bufalloc r stale => simp [Device.step, hc] at hst
      | semreset i blk data stale =>
        simp only [Device.step, hc] at hst
        split at hst
        · rw [← Option.some.inj hst]
          have hi : i ∉ q ++ c ++ f := (h.held i).mpr ⟨pid, blk, data, stale, hc⟩
          exact ⟨q ++ [i], c, f, .resumed hc, h.holds.enqueue hi⟩
        · cases hst
      | receive blk => simp [Device.step, hc] at hst
  | receive pid =>
    simp only [Device.step] at hst
    split at hst
    · cases hst
    cases hc : s.calls pid with
    | none => simp [hc] at hst
    | some k =>
      cases k with
      | bufalloc r stale => simp [hc] at hst
      | semreset i blk data stale => simp [hc] at hst
      | receive blk =>
        cases blk with
        | none => exact absurd hc (h.noSyncCall pid)
        | some blk =>
          cases hm : s.prmsg pid with
          | none => simp [hc, hm] at hst
          | some m =>
            cases m with
            | none => exact absurd hm (h.messages pid)
            | some i =>
              rw [hc, hm] at hst
              rw [← Option.some.inj hst]
              exact readDone_leads h.holds hc hm
  | comWait =>
    simp only [Device.step] at hst
    split at hst
    · rename_i hg
      cases ht : (s.rdReqsem.wait rdComproc).1 with
      | true =>
        rw [if_pos ht] at hst
        rw [← Option.some.inj hst]
        exact serve_leads h (.wait hg.2 ht)
      | false =>
        rw [if_neg (by simp [ht])] at hst
        rw [← Option.some.inj hst]
        exact ⟨q, c, f, .comWaits hg.2 ht, h.holds⟩
    · cases hst
  | comWoken =>
    simp only [Device.step] at hst
    split at hst
    · rename_i hg
      rw [← Option.some.inj hst]
      exact serve_leads h (.woken hg.2.1 hg.2.2)
    · cases hst
  | comReply =>
    simp only [Device.step] at hst
    split at hst
    · cases hst
    cases hcom : s.com with
    | idle => simp [hcom] at hst
    | waiting => simp [hcom] at hst
    | reading i =>
      rw [hcom] at hst
      rw [← Option.some.inj hst]
      exact reply_leads h hcom (hp i hcom)
    | writing blk data =>
      rw [hcom] at hst
      rw [← Option.some.inj hst]
      exact ⟨q, c, f, .answered hcom, h.holds⟩

/-! ## The invariant is kept -/

section Holders

variable {calls : Pid → Option RdsCall} {pid p : Pid} {i j : Bufid}

/-- A call that goes on holds no buffer. -/
theorem holder_update {k : Option RdsCall} (hk : ∀ i blk data stale, k ≠ some (.semreset i blk data stale)) :
    Holder (update calls pid k) j p ↔ Holder calls j p ∧ p ≠ pid := by
  unfold Holder
  by_cases hp : p = pid
  · subst hp
    rw [update_self]
    constructor
    · rintro ⟨blk, data, stale, h⟩
      exact absurd h (hk j blk data stale)
    · exact fun h => absurd rfl h.2
  · rw [update_of_ne hp]
    exact ⟨fun h => ⟨h, hp⟩, fun h => h.1⟩

/-- That a write is complete changes no holder. -/
theorem holder_written {blk : UInt32} :
    Holder (fun p => (calls p).map (RdsCall.written blk)) j p ↔ Holder calls j p := by
  unfold Holder
  dsimp only
  cases hc : calls p with
  | none => simp
  | some k =>
    cases k with
    | bufalloc r stale => simp [RdsCall.written]
    | semreset i b data stale => simp [RdsCall.written]
    | receive b => simp [RdsCall.written]

theorem holder_wrote {s : Device} {blk : UInt32} {data : Block} :
    Holder (s.wrote pid blk data).1.calls j p ↔ Holder s.calls j p ∧ p ≠ pid := by
  have hupd := @holder_update (fun p => (s.calls p).map (RdsCall.written blk)) pid p j none nofun
  rw [holder_written] at hupd
  exact hupd

theorem request_holder {s : Device} {r : Req} :
    Holder (s.request pid i r).1.calls j p ↔ Holder s.calls j p ∧ p ≠ pid := by
  cases r with
  | read blk => exact holder_update (k := some (.receive (some blk))) nofun
  | write blk data => exact holder_wrote
  | sync => exact holder_update (k := some (.receive none)) nofun

theorem written_receive {blk : UInt32} {b : Option UInt32} :
    (calls p).map (RdsCall.written blk) = some (.receive b) ↔ calls p = some (.receive b) := by
  cases hc : calls p with
  | none => simp
  | some k =>
    cases k with
    | bufalloc r stale => simp [RdsCall.written]
    | semreset i b data stale => simp [RdsCall.written]
    | receive b => simp [RdsCall.written]

/-- A process holds one buffer. -/
theorem Holder.unique (h : Holder calls i p) (h' : Holder calls j p) : i = j := by
  obtain ⟨blk, data, stale, h⟩ := h
  obtain ⟨blk', data', stale', h'⟩ := h'
  rw [h] at h'
  cases h'
  rfl

theorem not_holder {k : Option RdsCall} (h : calls pid = k)
    (hk : ∀ i blk data stale, k ≠ some (.semreset i blk data stale)) : ¬ Holder calls i pid := by
  rintro ⟨blk, data, stale, hc⟩
  exact hk i blk data stale (h.symm.trans hc)

/-- A call takes a buffer into `semreset`. -/
theorem holder_reset {blk : UInt32} {data : Block} {stale : Bool} :
    Holder (update calls pid (some (.semreset i blk data stale))) j p ↔
      (p = pid ∧ j = i) ∨ (p ≠ pid ∧ Holder calls j p) := by
  unfold Holder
  by_cases hp : p = pid
  · subst hp
    rw [update_self]
    simp [eq_comm]
  · rw [update_of_ne hp]
    simp [hp]

theorem exists_holder_ne (hnot : ¬ Holder calls j pid) :
    (∃ p, Holder calls j p) ↔ ∃ p, Holder calls j p ∧ p ≠ pid := by
  refine exists_congr fun p => ⟨fun hj => ⟨hj, ?_⟩, fun hj => hj.1⟩
  rintro rfl
  exact hnot hj

end Holders

theorem Gets.not_holder {pid : Pid} {r : Req} {sem : Sema} (h : Gets s q c a pid r sem es)
    (j : Bufid) : ¬ Holder s.calls j pid := by
  cases h with
  | wait hw hcalls ht => exact Rds.not_holder hcalls nofun
  | woken hc hr => exact Rds.not_holder hc nofun

/-- The buffers that are left. -/
theorem Alloc.mem {test : Bufid → Bool} {i : Bufid} (h : Alloc test c f i c' f') (j : Bufid) :
    j ∈ q ++ [i] ++ c' ++ f' ↔ j ∈ q ++ c ++ f := by
  cases h with
  | free h =>
    subst h
    simp only [List.mem_append, List.mem_cons]
    tauto
  | cache hf hc ht hb =>
    subst hc
    simp only [List.mem_append, List.mem_cons]
    tauto

theorem noSyncCall_wrote {pid : Pid} {blk : UInt32} {data : Block}
    (h : ∀ p, s.calls p ≠ some (.receive none)) :
    ∀ p, (s.wrote pid blk data).1.calls p ≠ some (.receive none) :=
  (forall_update_iff (fun p => (s.calls p).map (RdsCall.written blk))
    fun _ k => k ≠ some (RdsCall.receive none)).mpr
    ⟨nofun, fun p _ hc => h p (written_receive.mp hc)⟩

/-- **A request enters the queue.** Its buffer is no longer held, or was in
another list. -/
theorem Based.request {pid : Pid} {r : Req} {sem : Sema} {i : Bufid} {p : Ptrs}
    (h : Based s q c f) (hr : r ≠ .sync)
    (hmem : ∀ j, j ∉ q ++ [i] ++ c' ++ f' ↔ ∃ p, Holder s.calls j p ∧ p ≠ pid)
    (hp : Holds ({ s with rdAvailsem := sem, lists := p }.request pid i r).1.lists (q ++ [i]) c' f') :
    Based ({ s with rdAvailsem := sem, lists := p }.request pid i r).1 (q ++ [i]) c' f' := by
  have hiq : ∀ j ∈ q, j ≠ i := by
    rintro j hj rfl
    exact (List.nodup_append.mp hp.requests_nodup).2.2 j hj j (by simp) rfl
  have hhead : ∀ j, s.com = .reading j → (q ++ [i]).head? = some j := fun j hj => by
    rw [List.head?_append, h.head j hj]
    rfl
  have hheadRead : ∀ b j, s.com = .reading j → (update s.buf i b j).rdOp = .read := fun b j hj => by
    rw [update_of_ne (hiq j (List.mem_of_head? (h.head j hj)))]
    exact h.headRead j hj
  have hunits := Sema.signal_units h.reqsemOk
  have hreq := h.requests
  have hlen : s.rdReqsem.signal.units + s.com.serving = (q ++ [i]).length := by
    rw [List.length_append, List.length_singleton]
    omega
  have hholder : ∀ j p', Holder ({ s with rdAvailsem := sem, lists := p }.request pid i r).1.calls j p' ↔
      Holder s.calls j p' ∧ p' ≠ pid := fun j p' =>
    request_holder (s := { s with rdAvailsem := sem, lists := p })
  have hheld : ∀ j, j ∉ q ++ [i] ++ c' ++ f' ↔
      ∃ p', Holder ({ s with rdAvailsem := sem, lists := p }.request pid i r).1.calls j p' := fun j => by
    rw [hmem]
    exact exists_congr fun p' => (hholder j p').symm
  have honce : ∀ j p' p'', Holder ({ s with rdAvailsem := sem, lists := p }.request pid i r).1.calls j p' →
      Holder ({ s with rdAvailsem := sem, lists := p }.request pid i r).1.calls j p'' → p' = p'' :=
    fun j p' p'' hj hj' => h.once j p' p'' ((hholder j p').mp hj).1 ((hholder j p'').mp hj').1
  have hsync : ∀ b : Rdbuff, b.rdOp ≠ .sync → ∀ j ∈ q ++ [i], (update s.buf i b j).rdOp ≠ .sync := by
    intro b hb j hj
    rcases List.mem_append.mp hj with hj | hj
    · rw [update_of_ne (hiq j hj)]
      exact h.noSync j hj
    · rw [List.mem_singleton.mp hj, update_self]
      exact hb
  cases r with
  | sync => exact absurd rfl hr
  | read blk =>
    refine ⟨hp, hheld, honce, hhead, hheadRead _, hsync _ nofun, ?_, ?_, Sema.signal_ok h.reqsemOk, hlen⟩
    · exact (forall_update_iff s.calls fun _ k => k ≠ some (.receive none)).mpr
        ⟨nofun, fun p' _ => h.noSyncCall p'⟩
    · exact (forall_update_iff s.prmsg fun _ m => m ≠ some none).mpr
        ⟨nofun, fun p' _ => h.messages p'⟩
  | write blk data =>
    refine ⟨hp, hheld, honce, hhead, hheadRead _, hsync _ nofun, noSyncCall_wrote h.noSyncCall, h.messages,
      Sema.signal_ok h.reqsemOk, hlen⟩

/-- The invariant speaks of the lists, and of these parts of the state. -/
theorem Based.congr (h : Based s q c f) (hp : Holds s'.lists q c f)
    (hcalls : ∀ i pid, Holder s'.calls i pid ↔ Holder s.calls i pid) (hcom : s'.com = s.com)
    (hbuf : ∀ i, (s'.buf i).rdOp = (s.buf i).rdOp) (hsync : ∀ pid, s'.calls pid ≠ some (.receive none))
    (hm : ∀ pid, s'.prmsg pid ≠ some none) (hsem : s'.rdReqsem = s.rdReqsem) : Based s' q c f := by
  refine ⟨hp, fun i => ?_, fun i p p' hp hp' => ?_, fun i hi => ?_, fun i hi => ?_, fun i hi => ?_,
    hsync, hm, ?_, ?_⟩
  · rw [h.held]
    exact exists_congr fun p => (hcalls i p).symm
  · exact h.once i p p' ((hcalls i p).mp hp) ((hcalls i p').mp hp')
  · exact h.head i (hcom ▸ hi)
  · rw [hbuf]
    exact h.headRead i (hcom ▸ hi)
  · rw [hbuf]
    exact h.noSync i hi
  · rw [hsem]
    exact h.reqsemOk
  · rw [hsem, hcom]
    exact h.requests

theorem update_rdOp (buf : Bufid → Rdbuff) {i : Bufid} {b : Rdbuff} (hb : b.rdOp = (buf i).rdOp)
    (j : Bufid) : (update buf i b j).rdOp = (buf j).rdOp := by
  by_cases hj : j = i
  · rw [hj, update_self, hb]
  · rw [update_of_ne hj]

/-- The first request goes to the head of the cache. -/
theorem mem_moved {q c f : List Bufid} {i : Bufid} (j : Bufid) :
    j ∈ q ++ (i :: c) ++ f ↔ j ∈ (i :: q) ++ c ++ f := by
  simp only [List.mem_append, List.mem_cons]
  tauto

/-- **Each step keeps the invariant.** -/
theorem Does.based (h : Based s q c f) (hd : Does s q c f a s' q' c' f' es)
    (hp : Holds s'.lists q' c' f') : Based s' q' c' f' := by
  cases hd with
  | refused hstate => exact h
  | cached hcalls hfind hvalid => exact h
  | queued hcalls hfind hop => exact h
  | @waits _ pid r _ hw hcalls ht =>
    refine h.congr hp (fun i p => ?_) rfl (fun _ => rfl) ?_ h.messages rfl
    · have hnot := not_holder (i := i) hcalls nofun
      refine (holder_update (k := some (.bufalloc r false)) nofun).trans
        ⟨fun hi => hi.1, fun hi => ⟨hi, ?_⟩⟩
      rintro rfl
      exact hnot hi
    · exact (forall_update_iff s.calls fun _ k => k ≠ some (.receive none)).mpr
        ⟨nofun, fun p' _ => h.noSyncCall p'⟩
  | @takes _ pid r sem es i c' f' p hg hr ha hi =>
    refine h.request hr (fun j => ?_) hp
    rw [ha.mem, h.held]
    exact exists_holder_ne (hg.not_holder j)
  | panicked hg hf hc => exact { h with holds := hp }
  | @replaced pid blk data i hcalls hi hblk hop =>
    refine h.congr hp (fun j p => ?_) rfl (update_rdOp s.buf rfl) (noSyncCall_wrote h.noSyncCall)
      h.messages rfl
    have hnot := not_holder (i := j) hcalls nofun
    refine holder_wrote.trans ⟨fun hj => hj.1, fun hj => ⟨hj, ?_⟩⟩
    rintro rfl
    exact hnot hj
  | @reused pid blk data i l m p hcalls hq hc hblk hfirst hun hcount hi =>
    refine h.request (r := .write blk data) nofun (fun j => ?_) hp
    have hmem : j ∈ q ++ [i] ++ (l ++ m) ++ f ↔ j ∈ q ++ c ++ f := by
      rw [hc]
      simp only [List.mem_append, List.mem_cons]
      tauto
    rw [hmem, h.held]
    exact exists_holder_ne (not_holder hcalls nofun)
  | @reset pid blk data i l m p hcalls hq hc hblk hfirst hun hcount hi =>
    have hmem : ∀ j, j ∈ q ++ c ++ f ↔ j = i ∨ j ∈ q ++ (l ++ m) ++ f := fun j => by
      rw [hc]
      simp only [List.mem_append, List.mem_cons]
      tauto
    have hnone : ∀ p, ¬ Holder s.calls i p := fun p hip =>
      (h.held i).mpr ⟨p, hip⟩ ((hmem i).mpr (.inl rfl))
    have hnot : ∀ j, ¬ Holder s.calls j pid := fun j => not_holder hcalls nofun
    refine { h with holds := hp, held := fun j => ?_, once := fun j p p' hj hj' => ?_, noSyncCall := ?_ }
    · constructor
      · intro hj
        by_cases hji : j = i
        · exact ⟨pid, holder_reset.mpr (.inl ⟨rfl, hji⟩)⟩
        · obtain ⟨p, hjp⟩ := (h.held j).mp fun hj' => ((hmem j).mp hj').elim hji hj
          refine ⟨p, holder_reset.mpr (.inr ⟨?_, hjp⟩)⟩
          rintro rfl
          exact hnot j hjp
      · rintro ⟨p, hjp⟩ hj
        rcases holder_reset.mp hjp with ⟨-, rfl⟩ | ⟨-, hjp⟩
        · exact hi hj
        · exact (h.held j).mpr ⟨p, hjp⟩ ((hmem j).mpr (.inr hj))
    · rcases holder_reset.mp hj with ⟨rfl, rfl⟩ | ⟨-, hjp⟩
      · rcases holder_reset.mp hj' with ⟨rfl, -⟩ | ⟨-, hjp'⟩
        · rfl
        · exact absurd hjp' (hnone p')
      · rcases holder_reset.mp hj' with ⟨-, rfl⟩ | ⟨-, hjp'⟩
        · exact absurd hjp (hnone p)
        · exact h.once j p p' hjp hjp'
    · exact (forall_update_iff s.calls fun _ k => k ≠ some (.receive none)).mpr
        ⟨nofun, fun p' _ => h.noSyncCall p'⟩
  | @resumed pid blk data stale i hcalls =>
    refine h.request (r := .write blk data) (p := s.lists) nofun (fun j => ?_) hp
    have hmem : j ∉ q ++ [i] ++ c ++ f ↔ j ∉ q ++ c ++ f ∧ j ≠ i := by
      simp only [List.mem_append, List.mem_cons]
      tauto
    have hpid : Holder s.calls i pid := ⟨blk, data, stale, hcalls⟩
    rw [hmem, h.held]
    constructor
    · rintro ⟨⟨p, hjp⟩, hji⟩
      refine ⟨p, hjp, ?_⟩
      rintro rfl
      exact hji (hjp.unique hpid)
    · rintro ⟨p, hjp, hne⟩
      refine ⟨⟨p, hjp⟩, ?_⟩
      rintro rfl
      exact hne (h.once j p pid hjp hpid)
  | @received pid blk i hcalls hm hend =>
    refine h.congr hp (fun j p => ?_) rfl (update_rdOp s.buf rfl) ?_ ?_ rfl
    · have hnot := not_holder (i := j) hcalls nofun
      refine (holder_update (k := none) nofun).trans ⟨fun hj => hj.1, fun hj => ⟨hj, ?_⟩⟩
      rintro rfl
      exact hnot hj
    · exact (forall_update_iff s.calls fun _ k => k ≠ some (.receive none)).mpr
        ⟨nofun, fun p' _ => h.noSyncCall p'⟩
    · exact (forall_update_iff s.prmsg fun _ m => m ≠ some none).mpr
        ⟨nofun, fun p' _ => h.messages p'⟩
  | hung hcalls hm href hhead => exact { h with holds := hp }
  | comWaits hcom ht =>
    have hreq := h.requests
    rw [hcom] at hreq
    refine { h with
      holds := hp
      head := nofun
      headRead := nofun
      reqsemOk := Sema.wait_ok h.reqsemOk rdComproc
      requests := ?_ }
    rw [Sema.wait_units, if_neg (by simp [ht])]
    exact hreq
  | @servesRead _ sem i q' hs hq hop =>
    have hreq := h.requests
    have hserving := hs.serving
    have hunits := hs.takes.units
    refine { h with
      holds := hp
      head := ?_
      headRead := ?_
      reqsemOk := hs.takes.ok h.reqsemOk
      requests := ?_ }
    · rintro j ⟨⟩
      rw [hq]
      rfl
    · rintro j ⟨⟩
      exact hop
    · change sem.units + 1 = _
      omega
  | @servesWrite _ sem i q' p hs hq hop =>
    subst hq
    have hreq := h.requests
    have hserving := hs.serving
    have hunits := hs.takes.units
    rw [List.length_cons] at hreq
    refine { h with
      holds := hp
      held := fun j => (not_congr (mem_moved j)).trans (h.held j)
      head := nofun
      headRead := nofun
      noSync := fun j hj => ?_
      reqsemOk := hs.takes.ok h.reqsemOk
      requests := ?_ }
    · refine fun hop => h.noSync j (List.mem_cons_of_mem i hj) (Eq.trans ?_ hop)
      exact (update_rdOp (i := i) (b := { s.buf i with rdRefcnt := 0 }) s.buf rfl j).symm
    · change sem.units + 0 = _
      omega
  | @replied i q' p hcom hq halone =>
    subst hq
    have hreq := h.requests
    rw [hcom, List.length_cons] at hreq
    refine { h with
      holds := hp
      held := fun j => (not_congr (mem_moved j)).trans (h.held j)
      head := nofun
      headRead := nofun
      noSync := fun j hj => ?_
      messages := ?_
      requests := ?_ }
    · refine fun hop => h.noSync j (List.mem_cons_of_mem i hj) (Eq.trans ?_ hop)
      exact (update_rdOp (i := i) (b := { s.buf i with rdBlock := s.server s.rdBlk, rdRefcnt := 1 })
        s.buf rfl j).symm
    · refine (forall_update_iff s.prmsg fun _ m => m ≠ some none).mpr ⟨?_, fun p' _ => h.messages p'⟩
      change some ((s.prmsg (s.buf i).rdPid).getD (some i)) ≠ some none
      cases hm : s.prmsg (s.buf i).rdPid with
      | none => nofun
      | some m =>
        cases m with
        | none => exact absurd hm (h.messages _)
        | some k => nofun
    · change s.rdReqsem.units + 0 = _
      change s.rdReqsem.units + 1 = _ at hreq
      omega
  | answered hcom =>
    have hreq := h.requests
    rw [hcom] at hreq
    exact { h with holds := hp, head := nofun, headRead := nofun, requests := hreq }

/-- A step of the device, and the invariant behind it. -/
theorem step_based (h : Based s q c f) (hp : s.Plain a) (hst : s.step a = some (s', es)) :
    ∃ q' c' f', Does s q c f a s' q' c' f' es ∧ Based s' q' c' f' := by
  obtain ⟨q', c', f', hd, hl⟩ := step_leads h hp hst
  exact ⟨q', c', f', hd, hd.based h hl⟩

theorem rdsInit_holds : Holds rdsInit [] [] (List.finRange RD_BUFFS) := by
  refine ⟨?_, ?_, ?_, rfl, List.nodup_finRange _⟩
  · exact DoubleLinks.links_cons_cons.mpr ⟨⟨rfl, rfl⟩, DoubleLinks.links_singleton _⟩
  · exact DoubleLinks.links_cons_cons.mpr ⟨⟨rfl, rfl⟩, DoubleLinks.links_singleton _⟩
  · unfold Thread.Threaded
    decide +kernel

theorem boot_based (disk : UInt32 → Block) (blk : UInt32) (mem : Bufid → Rdbuff) :
    Based (boot disk blk mem) [] [] (List.finRange RD_BUFFS) := by
  refine ⟨rdsInit_holds, fun i => ?_, nofun, nofun, nofun, nofun, nofun, nofun, rfl, rfl⟩
  constructor
  · exact fun hi => absurd (List.mem_finRange i) hi
  · rintro ⟨pid, blk, data, stale, h⟩
    cases h

end Xinu.Rds
