import XinuCMips.Rds.Steps

/-!
# The data of the remote disk

The last data of a block is in the write request for it, if there is one; if
not, in the request that is with the server, or at the server. A cached copy
that is valid has it as well.

* `Stored` — the invariant of the data in the buffers;
* `Stored.enqueueRead`, `Stored.enqueueWrite`, `Stored.replace`, `Stored.serve`,
  `Stored.reply`, `Stored.sublist` — what happens to the buffers keeps it.
-/

namespace Xinu.Rds

open Function

/-- No valid copy of the block. -/
def NoValid (buf : Bufid → Rdbuff) (c : List Bufid) (blk : UInt32) : Prop :=
  ∀ i ∈ c, (buf i).rdValid = true → (buf i).rdBlknum ≠ blk

/-- **The data in the buffers.** `last` is the last data of each block, `content`
what the server holds when it has answered the request that it is busy with. -/
structure Stored (last content : UInt32 → Block) (buf : Bufid → Rdbuff) (q c : List Bufid) : Prop where
  writes : ∀ i ∈ q, (buf i).rdOp = .write → (buf i).rdBlock = last (buf i).rdBlknum
  /-- A write request is the last request for its block. -/
  order : q.Pairwise fun i j => (buf i).rdOp = .write → (buf j).rdBlknum ≠ (buf i).rdBlknum
  /-- The buffer of a read request has no data yet. -/
  blank : ∀ i ∈ q, (buf i).rdOp = .read → (buf i).rdValid = false
  valid : ∀ i ∈ c, (buf i).rdValid = true → (buf i).rdBlock = last (buf i).rdBlknum ∧
    (buf i).rdRefcnt ≤ 0 ∧ ∀ j ∈ q, (buf j).rdBlknum ≠ (buf i).rdBlknum
  /-- A valid copy is the first copy of its block. -/
  first : c.Pairwise fun i j => (buf i).rdBlknum = (buf j).rdBlknum → (buf j).rdValid = false
  server : ∀ blk, NoWrite buf q blk → content blk = last blk

namespace Stored

variable {last content : UInt32 → Block} {buf buf' : Bufid → Rdbuff} {q c c' : List Bufid}
  {i : Bufid} {b : Rdbuff} {blk : UInt32} {data : Block}

/-! ## What the searches tell -/

/-- If the last request for a block is no write, none is. -/
theorem noWrite (h : Stored last content buf q c) {test : Bufid → Bool}
    (ht : ∀ i, test i = true ↔ (buf i).rdBlknum = blk)
    (hq : ∀ i, q.reverse.find? test = some i → (buf i).rdOp ≠ .write) : NoWrite buf q blk := by
  intro i hi hop hblk
  obtain ⟨l, m, rfl⟩ := List.append_of_mem hi
  -- behind a write request there is none for its block, so the search finds it
  have hm : ∀ j ∈ m, (buf j).rdBlknum ≠ blk := fun j hj => by
    have hpair := (List.pairwise_append.mp h.order).2.1
    rw [← hblk]
    exact (List.pairwise_cons.mp hpair).1 j hj hop
  refine hq i (List.find?_eq_some_iff_append.mpr ⟨(ht i).mpr hblk, m.reverse, l.reverse, ?_, ?_⟩) hop
  · simp
  · intro j hj
    have hj' := mt (ht j).mp (hm j (List.mem_reverse.mp hj))
    simpa using hj'

/-- If the first copy of a block is not valid, none is. -/
theorem noValid (h : Stored last content buf q c) {test : Bufid → Bool}
    (ht : ∀ i, test i = true ↔ (buf i).rdBlknum = blk)
    (hc : ∀ i, c.find? test = some i → (buf i).rdValid = false) : NoValid buf c blk := by
  intro i hi hv hblk
  cases hfind : c.find? test with
  | none => exact List.find?_eq_none.mp hfind i hi ((ht i).mpr hblk)
  | some j =>
    have hj := hc j hfind
    obtain ⟨htj, l, m, rfl, hl⟩ := List.find?_eq_some_iff_append.mp hfind
    have hjb := (ht j).mp htj
    rcases List.mem_append.mp hi with hil | hil
    · have hti := hl i hil
      rw [(ht i).mpr hblk] at hti
      cases hti
    rcases List.mem_cons.mp hil with rfl | him
    · rw [hj] at hv
      cases hv
    · have hpair := (List.pairwise_append.mp h.first).2.1
      rw [(List.pairwise_cons.mp hpair).1 i him (hjb.trans hblk.symm)] at hv
      cases hv

/-- Behind the first copy of a block, none is valid. -/
theorem noValid_behind {l m : List Bufid} (h : Stored last content buf q (l ++ i :: m))
    (hblk : (buf i).rdBlknum = blk) (hl : ∀ j ∈ l, (buf j).rdBlknum ≠ blk) : NoValid buf (l ++ m) blk := by
  intro j hj hv hjb
  rcases List.mem_append.mp hj with hj | hj
  · exact hl j hj hjb
  · have hpair := (List.pairwise_append.mp h.first).2.1
    rw [(List.pairwise_cons.mp hpair).1 j hj (hblk.trans hjb.symm)] at hv
    cases hv

/-! ## What happens to the buffers -/

theorem update_outside {l : List Bufid} (hi : i ∉ l) : ∀ j ∈ l, update buf i b j = buf j := by
  intro j hj
  refine update_of_ne ?_ _ _
  rintro rfl
  exact hi hj

/-- Copies leave the cache. -/
theorem sublist (h : Stored last content buf q c) (hsub : c'.Sublist c) : Stored last content buf q c' :=
  { h with
    valid := fun i hi => h.valid i (hsub.subset hi)
    first := h.first.sublist hsub }

/-- A request enters the queue, for a block without a write request and without
a valid copy; a write request changes the last data. -/
theorem enqueue (h : Stored last content buf q c) (hiq : i ∉ q) (hic : i ∉ c)
    (hw : NoWrite buf q b.rdBlknum) (hv : NoValid buf c b.rdBlknum)
    (hread : b.rdOp = .read → b.rdValid = false ∧ data = last b.rdBlknum)
    (hwrite : b.rdOp = .write → b.rdBlock = data) (hop : b.rdOp ≠ .sync) :
    Stored (update last b.rdBlknum data) content (update buf i b) (q ++ [i]) c := by
  have hq : ∀ j ∈ q, update buf i b j = buf j := update_outside hiq
  have hc : ∀ j ∈ c, update buf i b j = buf j := update_outside hic
  refine ⟨fun j hj => ?_, ?_, fun j hj => ?_, fun j hj => ?_, ?_, fun blk hnw => ?_⟩
  · rcases List.mem_append.mp hj with hj | hj
    · rw [hq j hj]
      intro hop
      rw [update_of_ne (hw j hj hop)]
      exact h.writes j hj hop
    · rw [List.mem_singleton.mp hj, update_self, update_self]
      exact hwrite
  · rw [List.pairwise_append]
    refine ⟨h.order.imp_of_mem fun hi hj hp => ?_, List.pairwise_singleton _ _, fun j hj k hk => ?_⟩
    · rw [hq _ hi, hq _ hj]
      exact hp
    · rw [List.mem_singleton.mp hk, update_self, hq j hj]
      exact fun hop => (hw j hj hop).symm
  · rcases List.mem_append.mp hj with hj | hj
    · rw [hq j hj]
      exact h.blank j hj
    · rw [List.mem_singleton.mp hj, update_self]
      exact fun hop => (hread hop).1
  · rw [hc j hj]
    intro hvj
    obtain ⟨hdata, href, hreq⟩ := h.valid j hj hvj
    refine ⟨?_, href, fun k hk => ?_⟩
    · rw [update_of_ne (hv j hj hvj)]
      exact hdata
    · rcases List.mem_append.mp hk with hk | hk
      · rw [hq k hk]
        exact hreq k hk
      · rw [List.mem_singleton.mp hk, update_self]
        exact (hv j hj hvj).symm
  · refine h.first.imp_of_mem fun hi hj hp => ?_
    rw [hc _ hi, hc _ hj]
    exact hp
  · have hnw' : NoWrite buf q blk := fun j hj hop => by
      have hj' := hnw j (List.mem_append_left _ hj)
      rw [hq j hj] at hj'
      exact hj' hop
    rw [h.server blk hnw']
    by_cases hblk : blk = b.rdBlknum
    · -- the new request is a read, or there is a write request for the block
      cases hbop : b.rdOp with
      | read =>
        rw [hblk, update_self]
        exact (hread hbop).2.symm
      | write =>
        refine absurd hblk.symm ?_
        have hi' := hnw i (by simp)
        rw [update_self] at hi'
        exact hi' hbop
      | sync => exact absurd hbop hop
    · rw [update_of_ne hblk]

/-- A write request gets new data. -/
theorem replace (h : Stored last content buf q c) (hi : i ∈ q) (hic : i ∉ c) (hop : (buf i).rdOp = .write)
    (hnd : q.Nodup) :
    Stored (update last (buf i).rdBlknum data) content
      (update buf i { buf i with rdBlock := data }) q c := by
  have hc : ∀ j ∈ c, update buf i { buf i with rdBlock := data } j = buf j := update_outside hic
  have hfield : ∀ j, (update buf i { buf i with rdBlock := data } j).rdOp = (buf j).rdOp ∧
      (update buf i { buf i with rdBlock := data } j).rdBlknum = (buf j).rdBlknum ∧
      (update buf i { buf i with rdBlock := data } j).rdValid = (buf j).rdValid := by
    intro j
    by_cases hj : j = i
    · rw [hj, update_self]
      exact ⟨rfl, rfl, rfl⟩
    · rw [update_of_ne hj]
      exact ⟨rfl, rfl, rfl⟩
  -- it is the only write request for its block
  have honly : ∀ j ∈ q, (buf j).rdOp = .write → j ≠ i → (buf j).rdBlknum ≠ (buf i).rdBlknum := by
    intro j hj hjop hne
    obtain ⟨l, m, rfl⟩ := List.append_of_mem hi
    rcases List.mem_append.mp hj with hj | hj
    · exact ((List.pairwise_append.mp h.order).2.2 j hj i List.mem_cons_self hjop).symm
    · have hjm := (List.mem_cons.mp hj).resolve_left hne
      exact (List.pairwise_cons.mp (List.pairwise_append.mp h.order).2.1).1 j hjm hop
  refine ⟨fun j hj => ?_, ?_, fun j hj => ?_, fun j hj => ?_, ?_, fun blk hnw => ?_⟩
  · rw [(hfield j).1, (hfield j).2.1]
    intro hjop
    by_cases hji : j = i
    · rw [hji, update_self, update_self]
    · rw [update_of_ne hji, update_of_ne (honly j hj hjop hji)]
      exact h.writes j hj hjop
  · refine h.order.imp fun {j k} hp => ?_
    rw [(hfield j).1, (hfield j).2.1, (hfield k).2.1]
    exact hp
  · rw [(hfield j).1, (hfield j).2.2]
    exact h.blank j hj
  · rw [hc j hj]
    intro hvj
    obtain ⟨hdata, href, hreq⟩ := h.valid j hj hvj
    refine ⟨?_, href, fun k hk => ?_⟩
    · rw [update_of_ne (hreq i hi).symm]
      exact hdata
    · rw [(hfield k).2.1]
      exact hreq k hk
  · refine h.first.imp_of_mem fun hi hj hp => ?_
    rw [hc _ hi, hc _ hj]
    exact hp
  · have hnw' : NoWrite buf q blk := fun j hj hjop => by
      have hj' := hnw j hj
      rw [(hfield j).1, (hfield j).2.1] at hj'
      exact hj' hjop
    rw [update_of_ne (hnw' i hi hop).symm]
    exact h.server blk hnw'

/-- The first request becomes the first of the cache. Where it is valid then, it
was a write request. -/
theorem move {content' : UInt32 → Block} (h : Stored last content buf (i :: q) c)
    (hnd : (i :: q).Nodup) (hic : i ∉ c) (hblk : b.rdBlknum = (buf i).rdBlknum)
    (hvalid : b.rdValid = true →
      b.rdBlock = last b.rdBlknum ∧ b.rdRefcnt ≤ 0 ∧ (buf i).rdOp = .write)
    (hserver : ∀ blk, NoWrite buf q blk → content' blk = last blk) :
    Stored last content' (update buf i b) q (i :: c) := by
  have hq : ∀ j ∈ q, update buf i b j = buf j := update_outside (List.nodup_cons.mp hnd).1
  have hc : ∀ j ∈ c, update buf i b j = buf j := update_outside hic
  refine ⟨fun j hj => ?_, ?_, fun j hj => ?_, fun j hj => ?_, ?_, fun blk hnw => ?_⟩
  · rw [hq j hj]
    exact h.writes j (List.mem_cons_of_mem i hj)
  · refine (List.pairwise_cons.mp h.order).2.imp_of_mem fun hi hj hp => ?_
    rw [hq _ hi, hq _ hj]
    exact hp
  · rw [hq j hj]
    exact h.blank j (List.mem_cons_of_mem i hj)
  · rcases List.mem_cons.mp hj with rfl | hj
    · rw [update_self]
      intro hv
      obtain ⟨hdata, href, hop⟩ := hvalid hv
      refine ⟨hdata, href, fun k hk => ?_⟩
      rw [hq k hk, hblk]
      exact (List.pairwise_cons.mp h.order).1 k hk hop
    · rw [hc j hj]
      intro hv
      obtain ⟨hdata, href, hreq⟩ := h.valid j hj hv
      refine ⟨hdata, href, fun k hk => ?_⟩
      rw [hq k hk]
      exact hreq k (List.mem_cons_of_mem i hk)
  · rw [List.pairwise_cons]
    refine ⟨fun j hj => ?_, h.first.imp_of_mem fun hi hj hp => ?_⟩
    · rw [update_self, hc j hj, hblk]
      intro hjb
      refine eq_false_of_ne_true fun hv => ?_
      exact (h.valid j hj hv).2.2 i List.mem_cons_self hjb
    · rw [hc _ hi, hc _ hj]
      exact hp
  · refine hserver blk fun j hj hop => ?_
    have hj' := hnw j hj
    rw [hq j hj] at hj'
    exact hj' hop

/-- A write request is sent to the server. -/
theorem serve (h : Stored last content buf (i :: q) c) (hnd : (i :: q).Nodup) (hic : i ∉ c)
    (hop : (buf i).rdOp = .write) :
    Stored last (update content (buf i).rdBlknum (buf i).rdBlock)
      (update buf i { buf i with rdRefcnt := 0 }) q (i :: c) := by
  have hdata := h.writes i List.mem_cons_self hop
  refine h.move hnd hic rfl (fun _ => ⟨hdata, le_rfl, hop⟩) fun blk hnw => ?_
  by_cases hblk : blk = (buf i).rdBlknum
  · rw [hblk, update_self]
    exact hdata
  · rw [update_of_ne hblk]
    refine h.server blk fun j hj hjop => ?_
    rcases List.mem_cons.mp hj with rfl | hj
    · exact fun hjb => hblk hjb.symm
    · exact hnw j hj hjop

/-- A read request is answered. -/
theorem reply (h : Stored last content buf (i :: q) c) (hnd : (i :: q).Nodup) (hic : i ∉ c)
    (hop : (buf i).rdOp = .read) :
    Stored last content (update buf i { buf i with rdBlock := data, rdRefcnt := 1 }) q (i :: c) := by
  have hblank := h.blank i List.mem_cons_self hop
  refine h.move hnd hic rfl (fun hv => ?_) fun blk hnw => ?_
  · change (buf i).rdValid = true at hv
    rw [hblank] at hv
    cases hv
  · refine h.server blk fun j hj hjop => ?_
    rcases List.mem_cons.mp hj with rfl | hj
    · rw [hop] at hjop
      cases hjop
    · exact hnw j hj hjop

/-- A reference to a buffer that is not valid is given back. -/
theorem release (h : Stored last content buf q c) (hiq : i ∉ q) (hv : (buf i).rdValid = false)
    {n : Int} : Stored last content (update buf i { buf i with rdRefcnt := n }) q c := by
  have hq : ∀ j ∈ q, update buf i { buf i with rdRefcnt := n } j = buf j := update_outside hiq
  have hfield : ∀ j, (update buf i { buf i with rdRefcnt := n } j).rdBlknum = (buf j).rdBlknum ∧
      (update buf i { buf i with rdRefcnt := n } j).rdValid = (buf j).rdValid := by
    intro j
    by_cases hj : j = i
    · rw [hj, update_self]
      exact ⟨rfl, rfl⟩
    · rw [update_of_ne hj]
      exact ⟨rfl, rfl⟩
  refine ⟨fun j hj => ?_, ?_, fun j hj => ?_, fun j hj => ?_, ?_, fun blk hnw => ?_⟩
  · rw [hq j hj]
    exact h.writes j hj
  · refine h.order.imp_of_mem fun hi hj hp => ?_
    rw [hq _ hi, hq _ hj]
    exact hp
  · rw [hq j hj]
    exact h.blank j hj
  · rw [(hfield j).2]
    intro hvj
    have hji : j ≠ i := by
      rintro rfl
      rw [hv] at hvj
      cases hvj
    obtain ⟨hdata, href, hreq⟩ := h.valid j hj hvj
    rw [update_of_ne hji]
    refine ⟨hdata, href, fun k hk => ?_⟩
    rw [hq k hk]
    exact hreq k hk
  · refine h.first.imp fun {j k} hp => ?_
    rw [(hfield j).1, (hfield k).1, (hfield k).2]
    exact hp
  · refine h.server blk fun j hj hop => ?_
    have hj' := hnw j hj
    rw [hq j hj] at hj'
    exact hj' hop

end Stored

end Xinu.Rds
