import XinuCMips.Heap.Freeing
import XinuCMips.Kernel.Steps

/-!
# Buffer pools: `mkbufpool.c`

`mkbufpool` takes a block of memory for all buffers of a new pool, then a
semaphore that counts them, and links the buffers. When it finds no semaphore it
gives back the pool's number and leaves the memory taken.

## Results

* `semcreate_result`  — when a semaphore is created.
* `mkbufpool_fits`    — a call that has the memory goes by the semaphore.
* `mkbufpool_atomic`  — when a failing call changes nothing.
-/

namespace Xinu.Pools

open Tiling

def BP_MINB : Int := 8
def BP_MAXB : Int := 8192
def BP_MAXN : Int := 2048
def NBPOOLS : Nat := 20

/-- `sizeof(bpid32)`: the header of a buffer, its pool. -/
def headerSize : Nat := 4

/-- A pool: `struct bpentry`. -/
structure Bpentry where
  bpnext : Nat
  bpsem : Int
  bpsize : Nat

/-- The pool table beside the kernel. -/
structure PoolTable where
  kernel : Kernel QTab
  buftab : Nat → Bpentry
  nbpools : Nat

/-- Round request to a multiple of 4 bytes. -/
def roundBuf (bufsiz : Int) : Nat := (bufsiz.toNat + 3) / 4 * 4

/-- The memory of all buffers. -/
def poolBytes (bufsiz numbufs : Int) : Nat :=
  uint32 (numbufs.toNat * (roundBuf bufsiz + headerSize))

/-- The last loop: each buffer is linked to the next, `n` more to go. -/
def linkBufs (bufsiz : Nat) : Nat → Nat → Mem → Mem
  | 0, buf, m => Function.update m buf 0
  | n + 1, buf, m =>
    let next := uint32 (buf + bufsiz)
    linkBufs bufsiz n next (Function.update m buf next)

/-- `mkbufpool`: allocate memory for a buffer pool and link the buffers. -/
def mkbufpool (bufsiz numbufs : Int) (s : PoolTable) : Int × PoolTable :=
  if bufsiz < BP_MINB ∨ BP_MAXB < bufsiz ∨ numbufs < 1 ∨ BP_MAXN < numbufs ∨
      NBPOOLS ≤ s.nbpools then
    (SYSERR, s)
  else
    match getmem s.kernel.bounds (poolBytes bufsiz numbufs) s.kernel.mem with
    | (none, m) => (SYSERR, { s with kernel := { s.kernel with mem := m } })
    | (some buf, m) =>
      let poolid := s.nbpools
      let nbpools := s.nbpools + 1
      let k := semcreate numbufs { s.kernel with mem := m }
      let sem := k.v0 k.currpid
      let buftab := Function.update s.buftab poolid
        { bpnext := buf, bpsem := sem, bpsize := roundBuf bufsiz }
      if sem = SYSERR then (SYSERR, { kernel := k, buftab := buftab, nbpools := nbpools - 1 })
      else
        let m := linkBufs (roundBuf bufsiz + headerSize) (numbufs.toNat - 1) buf k.mem
        (poolid, { kernel := { k with mem := m }, buftab := buftab, nbpools := nbpools })

-- ---------------------------------------------------------------------------
-- What is to hold, and when it does
-- ---------------------------------------------------------------------------

/-- The free-memory list, its total, the semaphore table and `nbpools` are as they
were. -/
structure Unchanged (s s' : PoolTable) : Prop where
  freeList : ∀ bs, Stored s.kernel.bounds s.kernel.mem bs → Stored s.kernel.bounds s'.kernel.mem bs
  total : mlength s'.kernel.mem s.kernel.bounds.memlist =
    mlength s.kernel.mem s.kernel.bounds.memlist
  semtab : s'.kernel.semtab = s.kernel.semtab
  nbpools : s'.nbpools = s.nbpools

/-- A call that fails changes nothing. -/
def Atomic (bufsiz numbufs : Int) (s : PoolTable) : Prop :=
  (mkbufpool bufsiz numbufs s).1 = SYSERR → Unchanged s (mkbufpool bufsiz numbufs s).2

/-- The arguments are in range and a pool is left. -/
def Accepted (bufsiz numbufs : Int) (s : PoolTable) : Prop :=
  BP_MINB ≤ bufsiz ∧ bufsiz ≤ BP_MAXB ∧ 1 ≤ numbufs ∧ numbufs ≤ BP_MAXN ∧ s.nbpools < NBPOOLS

instance (bufsiz numbufs : Int) (s : PoolTable) : Decidable (Accepted bufsiz numbufs s) :=
  inferInstanceAs (Decidable (_ ∧ _))

/-- Some free block has room for `n` bytes. -/
def Fits (bs : List (Nat × Nat)) (n : Nat) : Prop := ∃ b ∈ bs, roundmb n ≤ b.2

/-- Some semaphore is free. -/
def SemFree (k : Kernel QTab) : Prop := ∃ sem, IsSem sem ∧ (k.semtab sem).sstate = .free

-- ---------------------------------------------------------------------------
-- The semaphore
-- ---------------------------------------------------------------------------

variable {k : Kernel QTab} {s : PoolTable} {bs : List (Nat × Nat)} {bufsiz numbufs : Int}

/-- `semcreate` fails when no semaphore is free, and then leaves the table as it
was. -/
theorem semcreate_result {count : Int} (hn : 0 ≤ k.nextsem ∧ k.nextsem < NSEM) (hc : 0 ≤ count) :
    (¬SemFree k → (semcreate count k).v0 (semcreate count k).currpid = SYSERR ∧
      (semcreate count k).semtab = k.semtab ∧ (semcreate count k).mem = k.mem) ∧
    (SemFree k → (semcreate count k).v0 (semcreate count k).currpid ≠ SYSERR) := by
  rw [semcreate, if_neg (not_lt.mpr hc)]
  rcases newsem_cases NSEM.toNat k hn with ⟨v, heq, -⟩ | ⟨sem, v, hs, hfree, -, -, heq⟩
  · rw [heq]
    refine ⟨fun _ => ⟨Function.update_self _ _ _, rfl, rfl⟩, fun ⟨sem, hs, hfree⟩ => ?_⟩
    obtain ⟨h0, h1⟩ := hs
    -- the entry is one of those looked at
    have hpos : (0 : Int) < NSEM := by decide
    have hdist := Int.emod_nonneg (sem - k.nextsem) hpos.ne'
    have hless := Int.emod_lt_of_pos (sem - k.nextsem) hpos
    have hnot := newsem_none _ k _ hn heq ((sem - k.nextsem) % NSEM).toNat (by omega)
    rw [Int.toNat_of_nonneg hdist, Int.add_emod_emod, add_sub_cancel,
      Int.emod_eq_of_lt h0 h1] at hnot
    exact absurd hfree hnot
  · rw [heq]
    refine ⟨fun hnone => absurd ⟨sem, hs, hfree⟩ hnone, fun _ hret => ?_⟩
    have hval : sem = SYSERR := (Function.update_self _ _ _).symm.trans hret
    have hneg : SYSERR < 0 := by decide
    have h0 := hs.1
    omega

-- ---------------------------------------------------------------------------
-- The memory
-- ---------------------------------------------------------------------------

theorem takeFirst_none {n : Nat} {bs : List (Nat × Nat)} :
    takeFirst n bs = none ↔ ∀ b ∈ bs, b.2 < n := by
  induction bs with
  | nil => simp [takeFirst]
  | cons b bs ih =>
    obtain ⟨a, l⟩ := b
    rw [takeFirst, List.forall_mem_cons, ← ih]
    by_cases heq : l = n
    · simp [heq]
    · rw [if_neg heq]
      by_cases hlt : n < l
      · rw [if_pos hlt]
        simp
        omega
      · rw [if_neg hlt]
        simp
        omega

/-- The memory of a pool is a request that `getmem` can round. -/
theorem poolBytes_bounds (h : Accepted bufsiz numbufs s) :
    0 < poolBytes bufsiz numbufs ∧ poolBytes bufsiz numbufs ≤ 2 ^ 32 - 8 := by
  obtain ⟨hmin, hmax, hone, hmany, -⟩ := h
  unfold BP_MINB at hmin
  unfold BP_MAXB at hmax
  unfold BP_MAXN at hmany
  have hbuf : roundBuf bufsiz ≤ 8192 := by unfold roundBuf; omega
  have hprod : numbufs.toNat * (roundBuf bufsiz + headerSize) ≤ 2048 * 8196 :=
    Nat.mul_le_mul (by omega) (by unfold headerSize; omega)
  have hpos : 0 < numbufs.toNat * (roundBuf bufsiz + headerSize) :=
    Nat.mul_pos (by omega) (by unfold headerSize; omega)
  unfold poolBytes uint32
  omega

/-- `getmem` finds a block exactly when one fits, and otherwise changes nothing. -/
theorem getmem_result (h : FreeList k.bounds k.mem bs) {n : Nat} (h0 : 0 < n)
    (hn : n ≤ 2 ^ 32 - 8) :
    (¬Fits bs n → getmem k.bounds n k.mem = (none, k.mem)) ∧
      (Fits bs n → ∃ buf m, getmem k.bounds n k.mem = (some buf, m) ∧
        mlength m k.bounds.memlist ≠ mlength k.mem k.bounds.memlist) := by
  have hfirst := getmem_refines h.geometry h.stored h0 hn
  have hround := roundmb_bounds h0 hn
  cases ht : takeFirst (roundmb n) bs with
  | none =>
    rw [ht] at hfirst
    refine ⟨fun _ => hfirst, fun ⟨b, hb, hfit⟩ => ?_⟩
    have hlt := takeFirst_none.mp ht b hb
    omega
  | some r =>
    rw [ht] at hfirst
    obtain ⟨hbuf, -, htotal⟩ := hfirst
    constructor
    · intro hnofit
      have hnone : takeFirst (roundmb n) bs = none :=
        takeFirst_none.mpr fun b hb => not_le.mp fun hle => hnofit ⟨b, hb, hle⟩
      rw [hnone] at ht
      cases ht
    · intro _
      refine ⟨r.1, (getmem k.bounds n k.mem).2, Prod.ext hbuf rfl, ?_⟩
      rw [htotal]
      unfold usub uint32
      omega

-- ---------------------------------------------------------------------------
-- The call
-- ---------------------------------------------------------------------------

theorem mkbufpool_refused (h : ¬Accepted bufsiz numbufs s) :
    mkbufpool bufsiz numbufs s = (SYSERR, s) := by
  unfold Accepted at h
  refine if_pos ?_
  omega

theorem mkbufpool_nofit (hf : FreeList s.kernel.bounds s.kernel.mem bs)
    (h : Accepted bufsiz numbufs s) (hfit : ¬Fits bs (poolBytes bufsiz numbufs)) :
    mkbufpool bufsiz numbufs s = (SYSERR, s) := by
  have hbytes := poolBytes_bounds h
  have hmem := (getmem_result hf hbytes.1 hbytes.2).1 hfit
  unfold Accepted at h
  rw [mkbufpool, if_neg (by omega), hmem]

/-- A call that has the memory goes by the semaphore: without one it fails and keeps
the memory. -/
theorem mkbufpool_fits (hf : FreeList s.kernel.bounds s.kernel.mem bs)
    (hn : 0 ≤ s.kernel.nextsem ∧ s.kernel.nextsem < NSEM) (h : Accepted bufsiz numbufs s)
    (hfit : Fits bs (poolBytes bufsiz numbufs)) :
    (¬SemFree s.kernel → (mkbufpool bufsiz numbufs s).1 = SYSERR ∧
      mlength (mkbufpool bufsiz numbufs s).2.kernel.mem s.kernel.bounds.memlist ≠
        mlength s.kernel.mem s.kernel.bounds.memlist) ∧
    (SemFree s.kernel → (mkbufpool bufsiz numbufs s).1 ≠ SYSERR) := by
  have hbytes := poolBytes_bounds h
  obtain ⟨buf, m, hmem, htotal⟩ := (getmem_result hf hbytes.1 hbytes.2).2 hfit
  obtain ⟨hmin, hmax, hone, hmany, hpool⟩ := h
  have hsem := @semcreate_result { s.kernel with mem := m } numbufs hn (by omega)
  rw [mkbufpool, if_neg (by omega), hmem]
  dsimp only
  constructor
  · intro hnone
    obtain ⟨hret, -, hm⟩ := hsem.1 hnone
    rw [if_pos hret]
    refine ⟨rfl, ?_⟩
    dsimp only
    rw [hm]
    exact htotal
  · intro hsome
    rw [if_neg (hsem.2 hsome)]
    have hneg : SYSERR < 0 := by decide
    dsimp only
    omega

/-- For every size and number of buffers, in every state with a sound free list, a
failing call changes nothing exactly when it does not get the memory and then find no
semaphore. -/
theorem mkbufpool_atomic (hf : FreeList s.kernel.bounds s.kernel.mem bs)
    (hn : 0 ≤ s.kernel.nextsem ∧ s.kernel.nextsem < NSEM) (bufsiz numbufs : Int) :
    Atomic bufsiz numbufs s ↔
      (Accepted bufsiz numbufs s → Fits bs (poolBytes bufsiz numbufs) → SemFree s.kernel) := by
  constructor
  · intro hatomic hacc hfit
    by_contra hnone
    obtain ⟨hret, htotal⟩ := (mkbufpool_fits hf hn hacc hfit).1 hnone
    exact htotal (hatomic hret).total
  · intro hsem hret
    by_cases hacc : Accepted bufsiz numbufs s
    · by_cases hfit : Fits bs (poolBytes bufsiz numbufs)
      · exact absurd hret ((mkbufpool_fits hf hn hacc hfit).2 (hsem hacc hfit))
      · rw [mkbufpool_nofit hf hacc hfit]
        exact ⟨fun _ h => h, rfl, rfl, rfl⟩
    · rw [mkbufpool_refused hacc]
      exact ⟨fun _ h => h, rfl, rfl, rfl⟩

/-- The pool table of a kernel with a small heap, and the entries of its semaphores. -/
def smallPools (sstate : SemState) : PoolTable where
  kernel := { sysinit smallHeap fun _ => 0 with
    semtab := fun sem => ⟨sstate, semqueue sem, 0⟩
    mem := initMemlist smallHeap fun _ => 0 }
  buftab := fun _ => ⟨0, 0, 0⟩
  nbpools := 0

/-- Two buffers of 8 bytes, with all semaphores free. -/
theorem mkbufpool_atomic_two :
    Accepted 8 2 (smallPools .free) ∧ Atomic 8 2 (smallPools .free) :=
  ⟨by decide, (mkbufpool_atomic (smallHeap_freeList _) (by decide) 8 2).mpr
    fun _ _ => ⟨0, ⟨by decide, by decide⟩, rfl⟩⟩

/-- Without a semaphore the call fails and the memory of the two buffers is gone from
the free list. -/
theorem mkbufpool_not_atomic : ¬Atomic 8 2 (smallPools .used) := by
  intro h
  have hret : (mkbufpool 8 2 (smallPools .used)).1 = SYSERR := by decide +kernel
  have htotal := (h hret).total
  revert htotal
  decide +kernel

end Xinu.Pools
