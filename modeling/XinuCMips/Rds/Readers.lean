import XinuCMips.Rds.Stored

/-!
# The callers of the remote disk

What the processes that wait are owed. A monitor follows the calls: it keeps the
last data of each block, and for each read under way the block and what its data
was when the read began.

* `Expect`, `coherent` — the monitor;
* `Callers`            — the invariant of the calls that wait;
* `Callers.wrote`, `Callers.pushRead`, `Callers.pushWrite`, `Callers.serve`,
  `Callers.reply`, `Callers.receive` — what happens to the calls keeps it.
-/

namespace Xinu.Rds

open Function

/-- What reads must return. -/
structure Expect where
  last : UInt32 → Block
  pending : Pid → Option (UInt32 × Block)

/-- **Reads return the last data.** A read gets the data that was last written
to its block when it began; no call panics, or is stuck in a loop. -/
def coherent (disk : UInt32 → Block) : Monitor Event Expect where
  init := ⟨disk, fun _ => none⟩
  next e
    | .asked pid blk => some { e with pending := update e.pending pid (some (blk, e.last blk)) }
    | .got pid blk data =>
      if e.pending pid = some (blk, data) then some { e with pending := update e.pending pid none }
      else none
    | .wrote _ blk data => some { e with last := update e.last blk data }
    | .synced _ | .failed _ => some e
    | .panicked | .hung | .lost => none

/-- The call has searched the lists for the block, waits, and no write of the block
has been completed since. -/
def Awaits (k : Option RdsCall) (blk : UInt32) : Prop :=
  (∃ r, k = some (.bufalloc r false) ∧ r.blk? = some blk) ∨
    ∃ i data, k = some (.semreset i blk data false)

/-- **The calls that wait.** A call that has found neither a write request nor a
valid copy would still find none; a read request, and the buffer of a message,
have a reader, who is owed its data. -/
structure Callers (e : Expect) (content : UInt32 → Block) (buf : Bufid → Rdbuff)
    (calls : Pid → Option RdsCall) (prmsg : Pid → Option (Option Bufid)) (q c : List Bufid) : Prop where
  waiting : ∀ pid blk, Awaits (calls pid) blk → NoWrite buf q blk ∧ NoValid buf c blk
  asked : ∀ pid blk, calls pid = some (.bufalloc (.read blk) false) →
    e.pending pid = some (blk, e.last blk)
  reads : ∀ i ∈ q, (buf i).rdOp = .read → calls (buf i).rdPid = some (.receive (some (buf i).rdBlknum)) ∧
    prmsg (buf i).rdPid = none ∧
    e.pending (buf i).rdPid = some ((buf i).rdBlknum, content (buf i).rdBlknum)
  readers : q.Pairwise fun i j => (buf i).rdOp = .read → (buf j).rdOp = .read →
    (buf i).rdPid ≠ (buf j).rdPid
  told : ∀ pid i, prmsg pid = some (some i) → i ∈ c ∧ 0 < (buf i).rdRefcnt ∧ (buf i).rdPid = pid ∧
    calls pid = some (.receive (some (buf i).rdBlknum)) ∧
    e.pending pid = some ((buf i).rdBlknum, (buf i).rdBlock)

namespace Callers

variable {e : Expect} {content : UInt32 → Block} {buf buf' : Bufid → Rdbuff}
  {calls : Pid → Option RdsCall} {prmsg : Pid → Option (Option Bufid)} {q c c' : List Bufid}
  {i : Bufid} {pid : Pid} {blk : UInt32} {data : Block}

/-- The reader of a request is not a process that does something else. -/
theorem pid_ne (h : Callers e content buf calls prmsg q c) (hpid : ∀ b, calls pid ≠ some (.receive b))
    (hi : i ∈ q) (hop : (buf i).rdOp = .read) : (buf i).rdPid ≠ pid := by
  rintro rfl
  exact hpid _ (h.reads i hi hop).1

/-- Copies without references leave the cache. -/
theorem shrink (h : Callers e content buf calls prmsg q c) (hsub : c'.Sublist c)
    (hkeep : ∀ i ∈ c, 0 < (buf i).rdRefcnt → i ∈ c') : Callers e content buf calls prmsg q c' :=
  { h with
    waiting := fun pid blk ha =>
      ⟨(h.waiting pid blk ha).1, fun i hi => (h.waiting pid blk ha).2 i (hsub.subset hi)⟩
    told := fun pid i hm => ⟨hkeep i (h.told pid i hm).1 (h.told pid i hm).2.1, (h.told pid i hm).2⟩ }

/-- Of a request, what it asks for and who asks matters. -/
theorem congr (h : Callers e content buf calls prmsg q c)
    (hq : ∀ i ∈ q, (buf' i).rdOp = (buf i).rdOp ∧ (buf' i).rdBlknum = (buf i).rdBlknum ∧
      (buf' i).rdPid = (buf i).rdPid)
    (hc : ∀ i ∈ c, buf' i = buf i) : Callers e content buf' calls prmsg q c := by
  refine ⟨fun pid blk ha => ⟨fun i hi => ?_, fun i hi => ?_⟩, h.asked, fun i hi => ?_, ?_,
    fun pid i hm => ?_⟩
  · rw [(hq i hi).1, (hq i hi).2.1]
    exact (h.waiting pid blk ha).1 i hi
  · rw [hc i hi]
    exact (h.waiting pid blk ha).2 i hi
  · rw [(hq i hi).1, (hq i hi).2.1, (hq i hi).2.2]
    exact h.reads i hi
  · refine h.readers.imp_of_mem fun hi hj hp => ?_
    rw [(hq _ hi).1, (hq _ hi).2.2, (hq _ hj).1, (hq _ hj).2.2]
    exact hp
  · obtain ⟨hi, hrest⟩ := h.told pid i hm
    rw [hc i hi]
    exact ⟨hi, hrest⟩

/-- A process that is in no call begins one, and is owed something else. -/
theorem ask (h : Callers e content buf calls prmsg q c) (hpid : calls pid = none)
    (v : Option (UInt32 × Block)) :
    Callers { e with pending := update e.pending pid v } content buf calls prmsg q c := by
  have hne : ∀ b, calls pid ≠ some (.receive b) := fun b hb => by
    rw [hpid] at hb
    cases hb
  have hother : ∀ p, p ≠ pid → update e.pending pid v p = e.pending p := fun p hp =>
    update_of_ne hp _ _
  refine { h with asked := fun p blk hp => ?_, reads := fun i hi hop => ?_, told := fun p i hm => ?_ }
  · refine (hother p ?_).trans (h.asked p blk hp)
    rintro rfl
    rw [hpid] at hp
    cases hp
  · obtain ⟨hc, hm, hpend⟩ := h.reads i hi hop
    exact ⟨hc, hm, (hother _ (h.pid_ne hne hi hop)).trans hpend⟩
  · obtain ⟨hi, href, hp, hc, hpend⟩ := h.told p i hm
    refine ⟨hi, href, hp, hc, (hother p ?_).trans hpend⟩
    rintro rfl
    exact hne _ hc

/-- A call of another kind. -/
theorem setCall (h : Callers e content buf calls prmsg q c) (hpid : ∀ b, calls pid ≠ some (.receive b))
    {k : Option RdsCall}
    (hwait : ∀ blk, Awaits k blk → NoWrite buf q blk ∧ NoValid buf c blk)
    (hask : ∀ blk, k = some (.bufalloc (.read blk) false) → e.pending pid = some (blk, e.last blk)) :
    Callers e content buf (update calls pid k) prmsg q c := by
  refine { h with
    waiting := fun p blk ha => ?_
    asked := fun p blk hp => ?_
    reads := fun i hi hop => ?_
    told := fun p i hm => ?_ }
  · by_cases hp : p = pid
    · rw [hp, update_self] at ha
      exact hwait blk ha
    · rw [update_of_ne hp] at ha
      exact h.waiting p blk ha
  · by_cases hpp : p = pid
    · rw [hpp, update_self] at hp
      rw [hpp]
      exact hask blk hp
    · rw [update_of_ne hpp] at hp
      exact h.asked p blk hp
  · obtain ⟨hc, hm, hpend⟩ := h.reads i hi hop
    refine ⟨?_, hm, hpend⟩
    rw [update_of_ne (h.pid_ne hpid hi hop)]
    exact hc
  · obtain ⟨hi, href, hp, hc, hpend⟩ := h.told p i hm
    refine ⟨hi, href, hp, ?_, hpend⟩
    rw [update_of_ne]
    · exact hc
    · rintro rfl
      exact hpid _ hc

theorem written_bufalloc {k : Option RdsCall} {r : Req}
    (h : k.map (RdsCall.written blk) = some (.bufalloc r false)) :
    k = some (.bufalloc r false) ∧ r.blk? ≠ some blk := by
  obtain ⟨k, rfl, hw⟩ := Option.map_eq_some_iff.mp h
  cases k with
  | receive b => cases hw
  | semreset i b data stale => cases hw
  | bufalloc r' stale =>
    obtain ⟨rfl, hstale⟩ := RdsCall.bufalloc.inj hw
    rw [Bool.or_eq_false_iff, decide_eq_false_iff_not] at hstale
    rw [hstale.1]
    exact ⟨rfl, hstale.2⟩

theorem written_semreset {k : Option RdsCall} {b : UInt32}
    (h : k.map (RdsCall.written blk) = some (.semreset i b data false)) :
    k = some (.semreset i b data false) ∧ b ≠ blk := by
  obtain ⟨k, rfl, hw⟩ := Option.map_eq_some_iff.mp h
  cases k with
  | receive b => cases hw
  | bufalloc r stale => cases hw
  | semreset i' b' data' stale =>
    obtain ⟨rfl, rfl, rfl, hstale⟩ := RdsCall.semreset.inj hw
    rw [Bool.or_eq_false_iff, decide_eq_false_iff_not] at hstale
    rw [hstale.1]
    exact ⟨rfl, hstale.2⟩

/-- Behind a complete write of a block, no call awaits the block. -/
theorem written_awaits {k : Option RdsCall} {b : UInt32} (ha : Awaits (k.map (RdsCall.written blk)) b) :
    Awaits k b ∧ b ≠ blk := by
  rcases ha with ⟨r, hr, hb⟩ | ⟨i, data, hi⟩
  · obtain ⟨hc, hne⟩ := written_bufalloc hr
    refine ⟨.inl ⟨r, hc, hb⟩, ?_⟩
    rintro rfl
    exact hne hb
  · obtain ⟨hc, hne⟩ := written_semreset hi
    exact ⟨.inr ⟨i, data, hc⟩, hne⟩

/-- A write is complete. -/
theorem written (h : Callers e content buf calls prmsg q c) :
    Callers { e with last := update e.last blk data } content buf
      (fun p => (calls p).map (RdsCall.written blk)) prmsg q c := by
  refine ⟨fun p b ha => h.waiting p b (written_awaits ha).1, fun p b hp => ?_, fun i hi hop => ?_,
    h.readers, fun p i hm => ?_⟩
  · obtain ⟨hc, hne⟩ := written_bufalloc hp
    have hb : b ≠ blk := fun hb => hne (congrArg some hb)
    rw [h.asked p b hc]
    exact congrArg some (Prod.ext rfl (update_of_ne hb _ _).symm)
  · obtain ⟨hc, hrest⟩ := h.reads i hi hop
    exact ⟨written_receive.mpr hc, hrest⟩
  · obtain ⟨hi, href, hp, hc, hpend⟩ := h.told p i hm
    exact ⟨hi, href, hp, written_receive.mpr hc, hpend⟩

/-- A write request enters the queue, and no call awaits its block. -/
theorem pushWrite (h : Callers e content buf calls prmsg q c) (hop : (buf i).rdOp = .write)
    (hno : ∀ p, ¬ Awaits (calls p) (buf i).rdBlknum) :
    Callers e content buf calls prmsg (q ++ [i]) c := by
  refine { h with
    waiting := fun p b ha => ⟨fun j hj => ?_, (h.waiting p b ha).2⟩
    reads := fun j hj hjop => ?_
    readers := ?_ }
  · rcases List.mem_append.mp hj with hj | hj
    · exact (h.waiting p b ha).1 j hj
    · rw [List.mem_singleton.mp hj]
      rintro - rfl
      exact hno p ha
  · rcases List.mem_append.mp hj with hj | hj
    · exact h.reads j hj hjop
    · rw [List.mem_singleton.mp hj, hop] at hjop
      cases hjop
  · refine List.pairwise_append.mpr ⟨h.readers, List.pairwise_singleton _ _, fun j hj k hk => ?_⟩
    rw [List.mem_singleton.mp hk, hop]
    exact fun _ hk => nomatch hk

/-- A read request enters the queue, and its reader waits. -/
theorem pushRead (h : Callers e content buf calls prmsg q c) (hop : (buf i).rdOp = .read)
    (hpid : ∀ b, calls (buf i).rdPid ≠ some (.receive b))
    (hpend : e.pending (buf i).rdPid = some ((buf i).rdBlknum, content (buf i).rdBlknum)) :
    Callers e content buf (update calls (buf i).rdPid (some (.receive (some (buf i).rdBlknum))))
      (update prmsg (buf i).rdPid none) (q ++ [i]) c := by
  have h' := h.setCall (k := some (.receive (some (buf i).rdBlknum))) hpid
    (fun _ ha => by rcases ha with ⟨r, ⟨⟩, -⟩ | ⟨i, data, ⟨⟩⟩) nofun
  have hne : ∀ j ∈ q, (buf j).rdOp = .read → (buf j).rdPid ≠ (buf i).rdPid := fun j hj =>
    h.pid_ne hpid hj
  refine ⟨fun p b ha => ⟨fun j hj => ?_, (h'.waiting p b ha).2⟩, h'.asked, fun j hj hjop => ?_, ?_,
    fun p j hm => ?_⟩
  · rcases List.mem_append.mp hj with hj | hj
    · exact (h'.waiting p b ha).1 j hj
    · rw [List.mem_singleton.mp hj, hop]
      nofun
  · rcases List.mem_append.mp hj with hj | hj
    · obtain ⟨hc, hm, hpend⟩ := h'.reads j hj hjop
      exact ⟨hc, (update_of_ne (hne j hj hjop) _ _).trans hm, hpend⟩
    · rw [List.mem_singleton.mp hj, update_self, update_self]
      exact ⟨rfl, rfl, hpend⟩
  · refine List.pairwise_append.mpr ⟨h.readers, List.pairwise_singleton _ _, fun j hj k hk => ?_⟩
    rw [List.mem_singleton.mp hk]
    exact fun hjop _ => hne j hj hjop
  · by_cases hp : p = (buf i).rdPid
    · rw [hp, update_self] at hm
      cases hm
    · rw [update_of_ne hp] at hm
      exact h'.told p j hm

/-- A write request is sent to the server, and its buffer goes to the cache. -/
theorem serve (h : Callers e content buf calls prmsg (i :: q) c) (hnd : (i :: q).Nodup) (hic : i ∉ c)
    (hop : (buf i).rdOp = .write) (hlast : ∀ j ∈ q, (buf j).rdBlknum ≠ (buf i).rdBlknum) :
    Callers e (update content (buf i).rdBlknum data) (update buf i { buf i with rdRefcnt := 0 }) calls
      prmsg q (i :: c) := by
  have hq : ∀ j ∈ q, update buf i { buf i with rdRefcnt := 0 } j = buf j :=
    Stored.update_outside (List.nodup_cons.mp hnd).1
  have hc : ∀ j ∈ c, update buf i { buf i with rdRefcnt := 0 } j = buf j := Stored.update_outside hic
  refine ⟨fun p b ha => ⟨fun j hj => ?_, fun j hj => ?_⟩, h.asked, fun j hj hjop => ?_, ?_,
    fun p j hm => ?_⟩
  · rw [hq j hj]
    exact (h.waiting p b ha).1 j (List.mem_cons_of_mem i hj)
  · rcases List.mem_cons.mp hj with rfl | hj
    · rw [update_self]
      exact fun _ => (h.waiting p b ha).1 j List.mem_cons_self hop
    · rw [hc j hj]
      exact (h.waiting p b ha).2 j hj
  · rw [hq j hj] at hjop ⊢
    rw [update_of_ne (hlast j hj)]
    exact h.reads j (List.mem_cons_of_mem i hj) hjop
  · refine (List.pairwise_cons.mp h.readers).2.imp_of_mem fun hi hj hp => ?_
    rw [hq _ hi, hq _ hj]
    exact hp
  · obtain ⟨hj, hrest⟩ := h.told p j hm
    rw [hc j hj]
    exact ⟨List.mem_cons_of_mem i hj, hrest⟩

/-- A read request is answered, and its reader told. -/
theorem reply (h : Callers e content buf calls prmsg (i :: q) c) (hnd : (i :: q).Nodup) (hic : i ∉ c)
    (hop : (buf i).rdOp = .read) (hblank : (buf i).rdValid = false)
    (hdata : data = content (buf i).rdBlknum) :
    Callers e content (update buf i { buf i with rdBlock := data, rdRefcnt := 1 }) calls
      (update prmsg (buf i).rdPid (some (some i))) q (i :: c) := by
  have hq : ∀ j ∈ q, update buf i { buf i with rdBlock := data, rdRefcnt := 1 } j = buf j :=
    Stored.update_outside (List.nodup_cons.mp hnd).1
  have hc : ∀ j ∈ c, update buf i { buf i with rdBlock := data, rdRefcnt := 1 } j = buf j :=
    Stored.update_outside hic
  obtain ⟨hcall, hmsg, hpend⟩ := h.reads i List.mem_cons_self hop
  obtain ⟨hfirst, hrest⟩ := List.pairwise_cons.mp h.readers
  refine ⟨fun p b ha => ⟨fun j hj => ?_, fun j hj => ?_⟩, h.asked, fun j hj hjop => ?_, ?_,
    fun p j hm => ?_⟩
  · rw [hq j hj]
    exact (h.waiting p b ha).1 j (List.mem_cons_of_mem i hj)
  · rcases List.mem_cons.mp hj with rfl | hj
    · rw [update_self]
      intro hv
      change (buf j).rdValid = true at hv
      rw [hblank] at hv
      cases hv
    · rw [hc j hj]
      exact (h.waiting p b ha).2 j hj
  · rw [hq j hj] at hjop ⊢
    rw [update_of_ne (hfirst j hj hop hjop).symm]
    exact h.reads j (List.mem_cons_of_mem i hj) hjop
  · refine hrest.imp_of_mem fun hi hj hp => ?_
    rw [hq _ hi, hq _ hj]
    exact hp
  · by_cases hp : p = (buf i).rdPid
    · rw [hp, update_self] at hm
      cases Option.some.inj (Option.some.inj hm)
      rw [hp, update_self, hdata]
      exact ⟨List.mem_cons_self, Int.one_pos, rfl, hcall, hpend⟩
    · rw [update_of_ne hp] at hm
      obtain ⟨hj, hrest⟩ := h.told p j hm
      rw [hc j hj]
      exact ⟨List.mem_cons_of_mem i hj, hrest⟩

/-- A reader takes its message. -/
theorem receive (h : Callers e content buf calls prmsg q c) (hm : prmsg pid = some (some i))
    (hiq : i ∉ q) {n : Int} :
    Callers { e with pending := update e.pending pid none } content
      (update buf i { buf i with rdRefcnt := n }) (update calls pid none) (update prmsg pid none) q c := by
  have hq : ∀ j ∈ q, update buf i { buf i with rdRefcnt := n } j = buf j := Stored.update_outside hiq
  obtain ⟨-, -, hpid, hcall, -⟩ := h.told pid i hm
  have hne : ∀ j ∈ q, (buf j).rdOp = .read → (buf j).rdPid ≠ pid := by
    rintro j hj hop rfl
    rw [(h.reads j hj hop).2.1] at hm
    cases hm
  have hcalls : ∀ p k, update calls pid none p = some k → p ≠ pid ∧ calls p = some k := by
    intro p k hp
    by_cases hpp : p = pid
    · rw [hpp, update_self] at hp
      cases hp
    · rw [update_of_ne hpp] at hp
      exact ⟨hpp, hp⟩
  refine ⟨fun p b ha => ?_, fun p b hp => ?_, fun j hj hjop => ?_, ?_, fun p j hmj => ?_⟩
  · have ha' : Awaits (calls p) b := by
      rcases ha with ⟨r, hr, hb⟩ | ⟨k, data, hk⟩
      · exact .inl ⟨r, (hcalls p _ hr).2, hb⟩
      · exact .inr ⟨k, data, (hcalls p _ hk).2⟩
    refine ⟨fun j hj => ?_, fun j hj => ?_⟩
    · rw [hq j hj]
      exact (h.waiting p b ha').1 j hj
    · have hj' := (h.waiting p b ha').2 j hj
      by_cases hji : j = i
      · rw [hji] at hj' ⊢
        rw [update_self]
        exact hj'
      · rw [update_of_ne hji]
        exact hj'
  · obtain ⟨hpp, hp⟩ := hcalls p _ hp
    exact (update_of_ne hpp _ _).trans (h.asked p b hp)
  · rw [hq j hj] at hjop ⊢
    obtain ⟨hc, hmj, hpend⟩ := h.reads j hj hjop
    rw [update_of_ne (hne j hj hjop), update_of_ne (hne j hj hjop)]
    exact ⟨hc, hmj, (update_of_ne (hne j hj hjop) _ _).trans hpend⟩
  · refine h.readers.imp_of_mem fun hi hj hp => ?_
    rw [hq _ hi, hq _ hj]
    exact hp
  · by_cases hp : p = pid
    · rw [hp, update_self] at hmj
      cases hmj
    · rw [update_of_ne hp] at hmj
      obtain ⟨hj, href, hjp, hc, hpend⟩ := h.told p j hmj
      have hji : j ≠ i := by
        rintro rfl
        exact hp (hjp.symm.trans hpid)
      rw [update_of_ne hji, update_of_ne hp]
      exact ⟨hj, href, hjp, hc, (update_of_ne hp _ _).trans hpend⟩

end Callers

end Xinu.Rds
