import XinuCMips.Heap.FreeList

/-!
# Whole runs of the allocator

The heap starts as the one block that `sysinit` lays out and is changed by
`getmem`, `getstk`, `freemem` and `freestk` in any order. The callers' side
of the contract is a list of live blocks: every block handed out, with the
size it was requested with, until it is given back with that size.

The invariant `HeapInv` is a coalesced tiling of the heap whose free tiles
are the free list and whose used tiles are the live blocks, rounded up.
`heapStep_inv` preserves it through every call, and `heap_accounting` reads
the properties of a run off it.

* `heapStep_inv`     — one call keeps the tiling;
* `heapReachable_inv` — so every run keeps it;
* `heap_accounting`  — the free list is sorted, coalesced, inside the heap
  and exact, and together with the live blocks it covers the heap;
* `freemem_live_ok`  — giving back a live block never fails.
-/

namespace Xinu

open Thread Tiling

variable {B : HeapBounds}

/-! ## Runs -/

/-- A call of the allocator. -/
inductive HeapCall where
  | getmem (nbytes : Nat)
  | getstk (nbytes : Nat)
  | freemem (blkaddr nbytes : Nat)
  | freestk (p nbytes : Nat)

/-- Memory, and the blocks in the callers' hands: first address and
requested size. -/
structure HeapState where
  mem : Mem
  live : List (Nat × Nat)

/-- Lowest address of a block of `nbytes` whose highest word is at `p`. -/
def stkbase (p nbytes : Nat) : Nat := p + 4 - roundmb nbytes

/-- The callers' obligations: sizes that survive rounding, and only live
blocks are given back. -/
def HeapCall.Ok (s : HeapState) : HeapCall → Prop
  | .getmem n | .getstk n => 0 < n ∧ n ≤ 2 ^ 32 - 8
  | .freemem b n => (b, n) ∈ s.live
  | .freestk p n => roundmb n ≤ p + 4 ∧ (stkbase p n, n) ∈ s.live

variable (B) in
/-- One call; what it hands out becomes live, what it takes back is not. -/
def heapStep (s : HeapState) : HeapCall → HeapState
  | .getmem n =>
    let r := getmem B n s.mem
    ⟨r.2, (r.1.map fun a => (a, n)).toList ++ s.live⟩
  | .getstk n =>
    let r := getstk B n s.mem
    ⟨r.2, (r.1.map fun p => (stkbase p n, n)).toList ++ s.live⟩
  | .freemem b n => ⟨(freemem B b n s.mem).2, s.live.erase (b, n)⟩
  | .freestk p n => ⟨(freestk B p n s.mem).2, s.live.erase (stkbase p n, n)⟩

variable (B) in
/-- The states of all runs that start with the list `sysinit` builds. -/
inductive HeapReachable : HeapState → Prop
  | init (m : Mem) : HeapReachable ⟨initMemlist B m, []⟩
  | step {s : HeapState} {c : HeapCall} : HeapReachable s → c.Ok s → HeapReachable (heapStep B s c)

/-- The memory behind the live blocks: sizes are rounded up. -/
def HeapState.regions (s : HeapState) : List (Nat × Nat) :=
  s.live.map fun p => (p.1, roundmb p.2)

/-! ## The invariant -/

variable (B) in
/-- The heap is a coalesced tiling of free blocks and live regions. -/
structure HeapInv (s : HeapState) (ts : List Tile) : Prop where
  coalesced : Coalesced 8 ts
  width_eq : width ts = B.maxheap - B.minheap
  stored : Stored B s.mem (spans true B.minheap ts)
  used : (spans false B.minheap ts).Perm s.regions
  sizes : ∀ b n, (b, n) ∈ s.live → 0 < n ∧ n ≤ 2 ^ 32 - 8
  total : mlength s.mem B.memlist = ((spans true B.minheap ts).map Prod.snd).sum

theorem HeapInv.geometry {s : HeapState} {ts : List Tile} (h : HeapInv B s ts) :
    Geometry B (spans true B.minheap ts) where
  spaced := h.coalesced.spaced _
  pos _ hb := spans_pos h.coalesced hb
  inside b hb := by
    have := spans_bounds hb
    have := h.width_eq
    have := B.nonempty
    omega

/-- The bytes on the free list fit in a word. -/
theorem HeapInv.total_le {s : HeapState} {ts : List Tile} (h : HeapInv B s ts) :
    mlength s.mem B.memlist + ((spans false B.minheap ts).map Prod.snd).sum =
      B.maxheap - B.minheap := by
  rw [h.total, ← h.width_eq]
  exact sum_spans _ _

/-- The list that `sysinit` builds is one free tile. -/
theorem heapInv_init (m : Mem) :
    HeapInv B ⟨initMemlist B m, []⟩ [⟨true, B.maxheap - B.minheap⟩] := by
  have hne := B.nonempty
  have hbelow := B.memlist_below
  refine ⟨⟨by simpa using hne, by simp, List.isChain_singleton _⟩, by simp, ⟨?_, ?_⟩,
    List.Perm.refl _, by simp, ?_⟩
  · show Threaded _ [B.memlist, B.minheap, 0]
    rw [threaded_cons_cons, threaded_cons_cons]
    refine ⟨?_, ?_, threaded_singleton _ _⟩
    · show mnext (setMlength (setMlength _ _ _) _ _) _ = _
      rw [mnext_setMlength (by omega), mnext_setMlength (by omega), mnext_setMnext (by omega),
        mnext_setMnext_same]
    · show mnext (setMlength (setMlength _ _ _) _ _) _ = _
      rw [mnext_setMlength (by omega), mnext_setMlength (by omega), mnext_setMnext_same]
  · intro b hb
    have hb : b = (B.minheap, B.maxheap - B.minheap) := by simpa using hb
    subst hb
    exact mlength_setMlength_same ..
  · show mlength (setMlength (setMlength _ _ _) _ _) _ = _
    rw [mlength_setMlength (by omega), mlength_setMlength_same]
    simp

/-! ## One call -/

/-- Handing out the block carved from the tiling. -/
theorem HeapInv.alloc {s : HeapState} {ts : List Tile} (h : HeapInv B s ts) {n r : Nat}
    {m' : Mem} {bs : List (Nat × Nat)} (h0 : 0 < n) (hn : n ≤ 2 ^ 32 - 8) {ts' : List Tile}
    (hc : Coalesced 8 ts') (hcar : Carved 8 B.minheap (roundmb n) r ts bs ts')
    (hst : Stored B m' bs)
    (hml : mlength m' B.memlist = usub (mlength s.mem B.memlist) (roundmb n)) :
    HeapInv B ⟨m', (r, n) :: s.live⟩ ts' := by
  have haddr := B.addressable
  have hsum := h.total_le
  have hsum' := sum_spans B.minheap ts'
  have hperm := (hcar.used_perm.map Prod.snd).sum_nat
  rw [hcar.width_eq, h.width_eq] at hsum'
  rw [List.map_cons, List.sum_cons] at hperm
  refine ⟨hc, by rw [hcar.width_eq, h.width_eq], by rw [hcar.free_eq]; exact hst, ?_, ?_, ?_⟩
  · exact hcar.used_perm.trans (h.used.cons _)
  · intro b k hk
    rcases List.mem_cons.mp hk with heq | hk
    · rw [(Prod.mk.inj heq).2]
      exact ⟨h0, hn⟩
    · exact h.sizes b k hk
  · rw [show mlength (HeapState.mk m' ((r, n) :: s.live)).mem B.memlist = _ from hml]
    simp only at hperm
    unfold usub uint32
    omega

/-- `getmem` and `getstk`: either nothing changes or a block is handed out. -/
theorem HeapInv.allocated {s : HeapState} {ts : List Tile} (h : HeapInv B s ts) {n : Nat}
    {res : Option Nat × Mem} {cut : Option (Nat × List (Nat × Nat))} (h0 : 0 < n)
    (hn : n ≤ 2 ^ 32 - 8)
    (hcut : ∀ r bs, cut = some (r, bs) →
      ∃ ts', Coalesced 8 ts' ∧ Carved 8 B.minheap (roundmb n) r ts bs ts')
    (hres : Allocated B (roundmb n) s.mem res cut) :
    ∃ ts', HeapInv B ⟨res.2, (res.1.map fun a => (a, n)).toList ++ s.live⟩ ts' := by
  cases cut with
  | none =>
    have hres : res = (none, s.mem) := hres
    exact ⟨ts, by rw [hres]; exact h⟩
  | some rbs =>
    obtain ⟨r, bs⟩ := rbs
    obtain ⟨hr, hst, hml⟩ := hres
    obtain ⟨ts', hc, hcar⟩ := hcut r bs rfl
    exact ⟨ts', by rw [hr]; exact h.alloc h0 hn hc hcar hst hml⟩

/-- Where a live block lies in the tiling. -/
theorem HeapInv.live_split {s : HeapState} {ts : List Tile} (h : HeapInv B s ts) {b n : Nat}
    (hb : (b, n) ∈ s.live) :
    ∃ t₁ t₂, ts = t₁ ++ ⟨false, roundmb n⟩ :: t₂ ∧ b = B.minheap + width t₁ := by
  have hreg : (b, roundmb n) ∈ s.regions := List.mem_map.mpr ⟨(b, n), hb, rfl⟩
  exact exists_used_split (h.used.mem_iff.mpr hreg)

/-- A live block, given back, lies between two parts of the free list. -/
theorem HeapInv.between {s : HeapState} {t₁ t₂ : List Tile} {n : Nat}
    (h : HeapInv B s (t₁ ++ ⟨false, n⟩ :: t₂)) :
    spans true B.minheap (t₁ ++ ⟨false, n⟩ :: t₂) =
        spans true B.minheap t₁ ++ spans true (B.minheap + width t₁ + n) t₂ ∧
      Between B (spans true B.minheap t₁) (spans true (B.minheap + width t₁ + n) t₂)
        (B.minheap + width t₁) n := by
  have hw := h.width_eq
  have hne := B.nonempty
  rw [width_append, width_cons] at hw
  refine ⟨by rw [spans_append, spans_cons_other (by simp)], fun b hb => ?_, fun b hb => ?_, ?_, ?_⟩
  · exact h.coalesced.below_used hb
  · exact (spans_bounds hb).1
  · omega
  · simp only at hw
    omega

/-- Giving a live block back: its tile becomes free and merges. -/
theorem HeapInv.free {s : HeapState} {ts : List Tile} (h : HeapInv B s ts) {b n : Nat}
    (hb : (b, n) ∈ s.live) :
    (freemem B b n s.mem).1 = OK ∧
      ∃ ts', HeapInv B ⟨(freemem B b n s.mem).2, s.live.erase (b, n)⟩ ts' := by
  obtain ⟨h0, hn⟩ := h.sizes _ _ hb
  obtain ⟨t₁, t₂, rfl, rfl⟩ := h.live_split hb
  obtain ⟨hsplit, hbetween⟩ := h.between
  have haddr := B.addressable
  have hst := h.stored
  have hg := h.geometry
  rw [hsplit] at hst hg
  obtain ⟨hok, hst', hml⟩ := freemem_refines hg hst h0 hn hbetween
  obtain ⟨ts', hc, hfree, hused, hw⟩ := @putBack_tiles 8 _ B.minheap _ _ h.coalesced
  -- the live regions lose exactly this block
  have hlive : s.live.Perm ((B.minheap + width t₁, n) :: s.live.erase (B.minheap + width t₁, n)) :=
    List.perm_cons_erase hb
  have hregs := h.used.trans (hlive.map _)
  rw [spans_append, @spans_cons_same false ⟨false, roundmb n⟩ rfl, List.map_cons] at hregs
  have hperm := (List.perm_middle.symm.trans hregs).cons_inv
  refine ⟨hok, ts', hc, by rw [hw, h.width_eq], by rw [hfree]; exact hst', ?_, ?_, ?_⟩
  · rw [hused]
    exact hperm
  · exact fun b k hk => h.sizes b k (List.mem_of_mem_erase hk)
  · -- the byte count
    have hsum := h.total_le
    have hsum' := sum_spans B.minheap ts'
    rw [hw, h.width_eq, hused, List.map_append, List.sum_append] at hsum'
    rw [spans_append, @spans_cons_same false ⟨false, roundmb n⟩ rfl, List.map_append,
      List.map_cons, List.sum_append, List.sum_cons] at hsum
    show mlength (freemem B _ n s.mem).2 B.memlist = _
    rw [hml]
    simp only at hsum
    unfold uint32
    omega

/-- `freestk` takes a stack by its highest word. -/
theorem HeapInv.freestk_eq {s : HeapState} {ts : List Tile} (h : HeapInv B s ts) {p n : Nat}
    (hp : roundmb n ≤ p + 4) (hb : (stkbase p n, n) ∈ s.live) :
    freestk B p n s.mem = freemem B (stkbase p n) n s.mem := by
  obtain ⟨h0, hn⟩ := h.sizes _ _ hb
  obtain ⟨t₁, t₂, rfl, hbase⟩ := h.live_split hb
  have hn8 := roundmb_bounds h0 hn
  have haddr := B.addressable
  have hhigh := h.between.2.high
  have hround : roundmb (roundmb n) = roundmb n := by
    unfold roundmb uint32
    omega
  have haddr' : uint32 (usub p (roundmb n) + 4) = stkbase p n := by
    unfold stkbase at hbase ⊢
    unfold usub uint32
    omega
  unfold freestk
  rw [haddr']
  unfold freemem
  rw [hround]
  have hin : ¬ (stkbase p n < B.minheap ∨ B.maxheap < stkbase p n) := by omega
  rw [if_neg (show ¬ (roundmb n = 0 ∨ _) by omega), if_neg (show ¬ (n = 0 ∨ _) by omega)]

/-- **One call keeps the tiling.** -/
theorem heapStep_inv {s : HeapState} {ts : List Tile} {c : HeapCall} (h : HeapInv B s ts)
    (hc : c.Ok s) : ∃ ts', HeapInv B (heapStep B s c) ts' := by
  cases c with
  | getmem n =>
    obtain ⟨h0, hn⟩ := hc
    have hn8 := (roundmb_bounds h0 hn).1
    exact h.allocated h0 hn (fun r bs hcut => takeFirst_tiles (by omega) hn8 h.coalesced hcut)
      (getmem_refines h.geometry h.stored h0 hn)
  | getstk n =>
    obtain ⟨h0, hn⟩ := hc
    have hn8 := (roundmb_bounds h0 hn).1
    have hres := h.allocated h0 hn
      (fun r bs hcut => takeLast_tiles (by omega) hn8 h.coalesced hcut)
      (getstk_refines h.geometry h.stored h0 hn).1
    simpa [heapStep, stkbase, Option.map_map, Function.comp_def] using hres
  | freemem b n => exact (h.free hc).2
  | freestk p n =>
    obtain ⟨hp, hb⟩ := hc
    show ∃ ts', HeapInv B ⟨(freestk B p n s.mem).2, _⟩ ts'
    rw [h.freestk_eq hp hb]
    exact (h.free hb).2

/-- Every run keeps a tiling. -/
theorem heapReachable_inv {s : HeapState} (h : HeapReachable B s) : ∃ ts, HeapInv B s ts := by
  induction h with
  | init m => exact ⟨_, heapInv_init m⟩
  | step _ hc ih =>
    obtain ⟨ts, hts⟩ := ih
    exact heapStep_inv hts hc

/-! ## What holds in every run -/

/-- Two address ranges have nothing in common. -/
def Apart (p q : Nat × Nat) : Prop := p.1 + p.2 ≤ q.1 ∨ q.1 + q.2 ≤ p.1

variable (B) in
/-- What the free list `free` and the live regions of a state satisfy. -/
structure HeapSound (s : HeapState) (free : List (Nat × Nat)) : Prop where
  /-- the memory holds exactly these blocks, linked from `memlist` -/
  stored : Stored B s.mem free
  /-- strictly sorted, disjoint, and never adjacent -/
  sorted : free.Pairwise fun p q => p.1 + p.2 < q.1
  inside : ∀ b ∈ free, 0 < b.2 ∧ B.minheap ≤ b.1 ∧ b.1 + b.2 ≤ B.maxheap
  /-- `memlist.mlength` is exact -/
  total : mlength s.mem B.memlist = (free.map Prod.snd).sum
  live_apart : s.regions.Pairwise Apart
  free_apart : ∀ b ∈ free, ∀ r ∈ s.regions, Apart b r
  /-- nothing of the heap is lost and nothing outside it is handed out -/
  covers : ∀ x, B.minheap ≤ x ∧ x < B.maxheap ↔
    ∃ p ∈ free ++ s.regions, p.1 ≤ x ∧ x < p.1 + p.2

/-- **The heap in every run.** The free list is linked from `memlist`,
strictly sorted with a gap between neighbours, inside the heap, and its
length field is exact; the live regions are disjoint from it and from each
other, and together with it they cover the heap. -/
theorem heap_accounting {s : HeapState} (h : HeapReachable B s) : ∃ free, HeapSound B s free := by
  obtain ⟨ts, hts⟩ := heapReachable_inv h
  have hg := hts.geometry
  have hw := hts.width_eq
  have hne := B.nonempty
  refine ⟨_, hts.stored, ?_, ?_, hts.total, ?_, ?_, fun x => ⟨?_, ?_⟩⟩
  · exact hg.spaced.imp fun h => by omega
  · exact fun b hb => ⟨hg.pos b hb, hg.inside b hb⟩
  · refine (hts.used.pairwise_iff fun h => h.symm).mp ?_
    exact (spans_pairwise false _ ts).imp Or.inl
  · exact fun b hb r hr => spans_disjoint hb (hts.used.mem_iff.mpr hr)
  · -- every address of the heap lies in a tile
    rintro ⟨hlo, hhi⟩
    obtain ⟨b, p, hp, hx⟩ := exists_span_mem hlo (show x < B.minheap + width ts by omega)
    refine ⟨p, List.mem_append.mpr ?_, hx⟩
    cases b with
    | true => exact Or.inl hp
    | false => exact Or.inr (hts.used.mem_iff.mp hp)
  · rintro ⟨p, hp, hx⟩
    have hin : B.minheap ≤ p.1 ∧ p.1 + p.2 ≤ B.minheap + width ts := by
      rcases List.mem_append.mp hp with hp | hp
      · exact spans_bounds hp
      · exact spans_bounds (hts.used.mem_iff.mpr hp)
    omega

/-- A heap of 48 bytes. -/
def smallHeap : HeapBounds where
  memlist := 8
  minheap := 16
  maxheap := 64
  memlist_pos := by decide
  memlist_below := by decide
  nonempty := by decide
  addressable := by decide

/-- A block and a stack are taken from the small heap, then the block is
given back: one stack is live, and the rest is one free block. -/
theorem heap_accounting_small :
    let s := heapStep smallHeap (heapStep smallHeap (heapStep smallHeap
      ⟨initMemlist smallHeap fun _ => 0, []⟩ (.getmem 10)) (.getstk 20)) (.freemem 16 10)
    s.live = [(40, 20)] ∧ ∃ free, HeapSound smallHeap s free := by
  refine ⟨by decide, heap_accounting (.step (.step (.step (.init _) ?_) ?_) ?_)⟩
  · exact ⟨by decide, by decide⟩
  · exact ⟨by decide, by decide⟩
  · show (16, 10) ∈ HeapState.live _
    decide

/-- Giving back a live block succeeds. -/
theorem freemem_live_ok {s : HeapState} (h : HeapReachable B s) {b n : Nat}
    (hb : (b, n) ∈ s.live) : (freemem B b n s.mem).1 = OK := by
  obtain ⟨ts, hts⟩ := heapReachable_inv h
  exact (hts.free hb).1

end Xinu
