import XinuCMips.Lib.Follow
import XinuCMips.Pools.Device

/-!
# The buffers of a pool

The block that `mkbufpool` got is cut into buffers of one size, each with its
header in front. Every buffer is either on the list of the pool or handed out
(`Pooled`); the list is as long as the units of the pool's semaphore, those that
it counts and those of the processes that have been let go but have not run
yet. A process that gets past its `wait` therefore finds a buffer.

* `Pooled.take`, `Pooled.free`  — a buffer leaves the list and comes back;
* `mkbufpool_pooled`            — what `mkbufpool` leaves;
* `pool_safe`                   — every run is safe.
-/

namespace Xinu.Pools

open Follow Tiling

variable {s : PoolState} {poolid base size n : Nat} {fl : List Nat} {pid : Pid}

-- ---------------------------------------------------------------------------
-- What is to hold
-- ---------------------------------------------------------------------------

/-- A pointer, null or not. -/
def pointer (x : Nat) : Option Nat := if x = 0 then none else some x

/-- The link at the front of a free buffer. -/
def link (m : Mem) (a : Nat) : Option Nat := pointer (m a)

/-- `n` buffers of `size` bytes, header included, from `base` on. -/
def buffers (base size n : Nat) : List Nat := (List.range n).map fun i => base + i * size

/-- The semaphore of the pool. -/
def PoolState.semOf (s : PoolState) (poolid : Nat) : Sema := s.sem (s.buftab poolid).bpsem

/-- **What is to hold of the pool**: buffers handed out do not overlap and lie in
the block, the free ones are a list without a cycle that is as long as the
semaphore says, and a buffer goes back to its pool. -/
structure Safe (poolid base size n : Nat) (s : PoolState) : Prop where
  apart : s.held.Pairwise fun a b => a + size ≤ b ∨ b + size ≤ a
  inside : ∀ h ∈ s.held, base ≤ h ∧ h + size ≤ base + n * size
  free : ∃ fl, Follows (link s.mem) (pointer (s.buftab poolid).bpnext) fl ∧ fl.Nodup ∧
    (fl.length : Int) = max (s.semOf poolid).count 0 + (s.semOf poolid).released.length
  found : 0 < (s.semOf poolid).count ∨ (s.semOf poolid).released ≠ [] →
    (s.buftab poolid).bpnext ≠ 0
  home : ∀ h ∈ s.held, (s.freebuf (h + headerSize)).1 = OK ∧
    ((s.freebuf (h + headerSize)).2.buftab poolid).bpnext = h

-- ---------------------------------------------------------------------------
-- The buffers of the block
-- ---------------------------------------------------------------------------

/-- The block lies in memory, and its buffers have room for more than a header. -/
structure Block (base size n : Nat) : Prop where
  base_pos : 0 < base
  aligned : 4 ∣ base ∧ 4 ∣ size
  room : headerSize < size
  fits : base + n * size < 2 ^ 32

theorem mem_buffers {h : Nat} : h ∈ buffers base size n ↔ ∃ i < n, h = base + i * size := by
  unfold buffers
  rw [List.mem_map]
  constructor
  · rintro ⟨i, hi, rfl⟩
    exact ⟨i, List.mem_range.mp hi, rfl⟩
  · rintro ⟨i, hi, rfl⟩
    exact ⟨i, List.mem_range.mpr hi, rfl⟩

/-- Two buffers of the block are the same or lie apart. -/
theorem buffers_apart {a b : Nat} (ha : a ∈ buffers base size n) (hb : b ∈ buffers base size n)
    (hne : a ≠ b) : a + size ≤ b ∨ b + size ≤ a := by
  obtain ⟨i, -, rfl⟩ := mem_buffers.mp ha
  obtain ⟨j, -, rfl⟩ := mem_buffers.mp hb
  rcases Nat.lt_trichotomy i j with hij | rfl | hij
  · have hmul := Nat.mul_le_mul_right size (Nat.succ_le_of_lt hij)
    rw [Nat.succ_mul] at hmul
    omega
  · exact absurd rfl hne
  · have hmul := Nat.mul_le_mul_right size (Nat.succ_le_of_lt hij)
    rw [Nat.succ_mul] at hmul
    omega

theorem buffers_inside {h : Nat} (hh : h ∈ buffers base size n) :
    base ≤ h ∧ h + size ≤ base + n * size := by
  obtain ⟨i, hi, rfl⟩ := mem_buffers.mp hh
  have hmul := Nat.mul_le_mul_right size (Nat.succ_le_of_lt hi)
  rw [Nat.succ_mul] at hmul
  omega

theorem buffers_nodup (hsize : 0 < size) (base n : Nat) : (buffers base size n).Nodup := by
  refine List.Nodup.map (fun i j hij => ?_) List.nodup_range
  have hmul : i * size = j * size := Nat.add_left_cancel hij
  exact Nat.eq_of_mul_eq_mul_right hsize hmul

-- ---------------------------------------------------------------------------
-- The invariant
-- ---------------------------------------------------------------------------

/-- **Every buffer is free or handed out.** -/
structure Pooled (poolid base size n : Nat) (s : PoolState) (fl : List Nat) : Prop where
  number : poolid < s.nbpools
  small : s.nbpools ≤ NBPOOLS
  sem : ¬ s.badSem (s.buftab poolid).bpsem
  width : headerSize + (s.buftab poolid).bpsize = size
  chain : Follows (link s.mem) (pointer (s.buftab poolid).bpnext) fl
  slots : (fl ++ s.held).Perm (buffers base size n)
  header : ∀ h ∈ s.held, s.mem h = poolid
  semOk : (s.semOf poolid).Ok
  units : (fl.length : Int) = (s.semOf poolid).units
  callers : ∀ pid p, s.calls pid = some p → p = poolid

theorem pointer_some {x b : Nat} (h : pointer x = some b) : x = b ∧ b ≠ 0 := by
  unfold pointer at h
  by_cases hx : x = 0
  · rw [if_pos hx] at h
    cases h
  · rw [if_neg hx] at h
    obtain rfl := Option.some.inj h
    exact ⟨rfl, hx⟩

theorem signal_buftab (s : PoolState) (x : Int) : (s.signal x).buftab = s.buftab := by
  unfold PoolState.signal
  split <;> rfl

/-- The buffer `b` is put back on the list of the pool. -/
def PoolState.putBack (s : PoolState) (poolid b : Nat) : PoolState :=
  { s with
    mem := Function.update s.mem b (s.buftab poolid).bpnext
    buftab := Function.update s.buftab poolid { s.buftab poolid with bpnext := b }
    held := s.held.erase b }

/-- The first buffer `b` of the pool is handed out, and its semaphore is `e`. -/
def PoolState.handOut (s : PoolState) (poolid b : Nat) (e : Sema) (calls : Pid → Option Nat) :
    PoolState :=
  { s with
    mem := Function.update s.mem b poolid
    buftab := Function.update s.buftab poolid { s.buftab poolid with bpnext := s.mem b }
    sem := Function.update s.sem (s.buftab poolid).bpsem e
    calls := calls
    held := b :: s.held }

theorem take_eq {b : Nat} (hnext : (s.buftab poolid).bpnext = b) (e : Sema)
    (calls : Pid → Option Nat) :
    (PoolState.take { s.setSem (s.buftab poolid).bpsem e with calls := calls } poolid).2 =
      s.handOut poolid b e calls := by
  subst hnext
  rfl

namespace Pooled

variable (hb : Block base size n) (h : Pooled poolid base size n s fl)

include hb h

theorem nodup : (fl ++ s.held).Nodup :=
  h.slots.nodup_iff.mpr (buffers_nodup (Nat.zero_lt_of_lt hb.room) base n)

/-- `freebuf` finds the pool in the header. -/
theorem freebuf_eq {b : Nat} (hheld : b ∈ s.held) : s.freebuf (b + headerSize) =
    (OK, (s.putBack poolid b).signal (s.buftab poolid).bpsem) := by
  have hin := buffers_inside (h.slots.subset (List.mem_append_right fl hheld))
  have hroom := hb.room
  have hfits := hb.fits
  have haddr : usub (b + headerSize) headerSize = b := by
    unfold usub uint32
    omega
  have hnumber := h.number
  have hsmall := h.small
  have hpools : NBPOOLS = 20 := rfl
  unfold PoolState.freebuf
  dsimp only
  rw [haddr, h.header b hheld, if_neg (by omega)]
  rfl

/-- The invariant is what is wanted. -/
theorem safe : Safe poolid base size n s := by
  have hnd := h.nodup hb
  have hmem : ∀ x ∈ s.held, x ∈ buffers base size n := fun x hx =>
    h.slots.subset (List.mem_append_right fl hx)
  have hlen : (fl.length : Int) = max (s.semOf poolid).count 0 + (s.semOf poolid).released.length :=
    h.units.trans h.semOk.units_eq
  refine ⟨?_, fun x hx => buffers_inside (hmem x hx), ⟨fl, h.chain, ?_, hlen⟩, ?_, ?_⟩
  · refine (List.nodup_append.mp hnd).2.1.imp_of_mem fun {a b} ha hb hne => ?_
    exact buffers_apart (hmem a ha) (hmem b hb) hne
  · exact (List.nodup_append.mp hnd).1
  · -- a list that is not empty has a first buffer
    intro hunit hnull
    have hnil : fl = [] := by
      have hhead := h.chain.head?_eq
      rw [hnull] at hhead
      exact List.head?_eq_none_iff.mp hhead.symm
    rw [hnil, List.length_nil] at hlen
    rcases hunit with hc | hr
    · omega
    · have := List.length_pos_iff.mpr hr
      omega
  · intro x hx
    rw [h.freebuf_eq hb hx]
    refine ⟨rfl, ?_⟩
    show (((s.putBack poolid x).signal _).buftab poolid).bpnext = x
    rw [signal_buftab]
    show (Function.update s.buftab poolid _ poolid).bpnext = x
    rw [Function.update_self]

/-- **A buffer is given back.** -/
theorem free {b : Nat} (hheld : b ∈ s.held) :
    Pooled poolid base size n ((s.putBack poolid b).signal (s.buftab poolid).bpsem) (b :: fl) := by
  have hnd := h.nodup hb
  have hbfl : b ∉ fl := fun hm => (List.nodup_append.mp hnd).2.2 b hm b hheld rfl
  have hb0 : b ≠ 0 := by
    have hin := buffers_inside (h.slots.subset (List.mem_append_right fl hheld))
    have := hb.base_pos
    omega
  have hentry : (s.putBack poolid b).buftab poolid = { s.buftab poolid with bpnext := b } :=
    Function.update_self _ _ _
  have hsig : (s.putBack poolid b).signal (s.buftab poolid).bpsem =
      (s.putBack poolid b).setSem (s.buftab poolid).bpsem (s.semOf poolid).signal :=
    if_neg h.sem
  have hsem : ((s.putBack poolid b).setSem (s.buftab poolid).bpsem
      (s.semOf poolid).signal).semOf poolid = (s.semOf poolid).signal := by
    show Function.update s.sem _ _ ((s.putBack poolid b).buftab poolid).bpsem = _
    rw [hentry, Function.update_self]
  have hother : ∀ x ∈ s.held.erase b, x ∈ s.held ∧ x ≠ b := fun x hx =>
    ⟨List.mem_of_mem_erase hx,
      fun heq => (List.Nodup.not_mem_erase (List.nodup_append.mp hnd).2.1) (heq ▸ hx)⟩
  rw [hsig]
  refine ⟨h.number, h.small, ?_, ?_, ?_, ?_, fun x hx => ?_, ?_, ?_, h.callers⟩
  · show ¬ s.badSem ((s.putBack poolid b).buftab poolid).bpsem
    rw [hentry]
    exact h.sem
  · show headerSize + ((s.putBack poolid b).buftab poolid).bpsize = size
    rw [hentry]
    exact h.width
  · show Follows (link (Function.update s.mem b (s.buftab poolid).bpnext))
      (pointer ((s.putBack poolid b).buftab poolid).bpnext) (b :: fl)
    rw [hentry]
    refine ⟨if_neg hb0, ?_⟩
    unfold link
    rw [Function.update_self]
    refine h.chain.congr fun x hx => ?_
    rw [Function.update_of_ne (ne_of_mem_of_not_mem hx hbfl)]
    rfl
  · show (b :: fl ++ s.held.erase b).Perm (buffers base size n)
    refine List.Perm.trans ?_ h.slots
    rw [List.cons_append]
    exact List.perm_middle.symm.trans ((List.perm_cons_erase hheld).symm.append_left fl)
  · show Function.update s.mem b _ x = poolid
    obtain ⟨hmem, hne⟩ := hother x hx
    rw [Function.update_of_ne hne]
    exact h.header x hmem
  · rw [hsem]
    exact Sema.signal_ok h.semOk
  · rw [hsem, Sema.signal_units h.semOk, List.length_cons, ← h.units]
    rfl

/-- **A buffer is taken** by a process that has got a unit. -/
theorem take {e : Sema} (hunit : (s.semOf poolid).Takes pid e) {calls : Pid → Option Nat}
    (hcalls : ∀ pid p, calls pid = some p → p = poolid) : ∃ fl', Pooled poolid base size n
      (PoolState.take { s.setSem (s.buftab poolid).bpsem e with calls := calls } poolid).2 fl' := by
  have hnd := h.nodup hb
  have hpos := hunit.units_pos h.semOk
  have hlen := h.units
  match fl, h, hlen with
  | [], _, hlen =>
    rw [List.length_nil] at hlen
    omega
  | b :: fl, h, hlen =>
  obtain ⟨hhead, htail⟩ := h.chain
  obtain ⟨hnext, hb0⟩ := pointer_some hhead
  have hbfl : b ∉ fl ++ s.held := (List.nodup_cons.mp hnd).1
  refine ⟨fl, ?_⟩
  rw [take_eq hnext]
  have hentry : (s.handOut poolid b e calls).buftab poolid =
      { s.buftab poolid with bpnext := s.mem b } := Function.update_self _ _ _
  have hsem : (s.handOut poolid b e calls).semOf poolid = e := by
    show Function.update s.sem _ _ ((s.handOut poolid b e calls).buftab poolid).bpsem = _
    rw [hentry, Function.update_self]
  refine ⟨h.number, h.small, ?_, ?_, ?_, ?_, fun x hx => ?_, ?_, ?_, hcalls⟩
  · show ¬ s.badSem ((s.handOut poolid b e calls).buftab poolid).bpsem
    rw [hentry]
    exact h.sem
  · rw [hentry]
    exact h.width
  · rw [hentry]
    refine htail.congr fun x hx => ?_
    have hne : x ≠ b := fun heq => hbfl (List.mem_append_left _ (heq ▸ hx))
    show pointer (Function.update s.mem b poolid x) = pointer (s.mem x)
    rw [Function.update_of_ne hne]
  · exact List.perm_middle.trans h.slots
  · show Function.update s.mem b poolid x = poolid
    rcases List.mem_cons.mp hx with rfl | hx
    · exact Function.update_self _ _ _
    · have hne : x ≠ b := fun heq => hbfl (List.mem_append_right _ (heq ▸ hx))
      rw [Function.update_of_ne hne]
      exact h.header x hx
  · rw [hsem]
    exact hunit.ok h.semOk
  · rw [hsem, hunit.units, ← hlen, List.length_cons]
    omega

omit hb in
/-- A process has to wait for a buffer. -/
theorem waits (hwait : ((s.semOf poolid).wait pid).1 = false) :
    Pooled poolid base size n
      { s.setSem (s.buftab poolid).bpsem ((s.semOf poolid).wait pid).2 with
        calls := Function.update s.calls pid (some poolid) } fl := by
  have hsem : ∀ e, PoolState.semOf { s.setSem (s.buftab poolid).bpsem e with
      calls := Function.update s.calls pid (some poolid) } poolid = e := fun e =>
    Function.update_self _ _ _
  refine ⟨h.number, h.small, h.sem, h.width, h.chain, h.slots, h.header, ?_, ?_, fun q p hq => ?_⟩
  · rw [hsem]
    exact Sema.wait_ok h.semOk pid
  · rw [hsem, Sema.wait_units, hwait, if_neg Bool.false_ne_true]
    exact h.units
  · by_cases hqp : q = pid
    · subst hqp
      dsimp only at hq
      rw [Function.update_self] at hq
      exact (Option.some.inj hq).symm
    · dsimp only at hq
      rw [Function.update_of_ne hqp] at hq
      exact h.callers q p hq

/-- A word of a buffer that is handed out is written. -/
theorem store {addr : Nat} (hin : s.InBuffer poolid addr) (v : Nat) :
    Pooled poolid base size n { s with mem := Function.update s.mem addr v } fl := by
  obtain ⟨-, x, hx, hlo, hhi⟩ := hin
  have hwidth := h.width
  have hx' := h.slots.subset (List.mem_append_right fl hx)
  -- no buffer starts at that word
  have hoff : ∀ y ∈ buffers base size n, y ≠ addr := by
    intro y hy heq
    by_cases hxy : x = y
    · unfold headerSize at hlo
      omega
    · have := buffers_apart hx' hy hxy
      have := hb.room
      unfold headerSize at *
      omega
  refine ⟨h.number, h.small, h.sem, h.width, ?_, h.slots, fun y hy => ?_, h.semOk, h.units,
    h.callers⟩
  · refine h.chain.congr fun y hy => ?_
    show pointer (Function.update s.mem addr v y) = pointer (s.mem y)
    rw [Function.update_of_ne (hoff y (h.slots.subset (List.mem_append_left _ hy)))]
  · show Function.update s.mem addr v y = poolid
    rw [Function.update_of_ne (hoff y (h.slots.subset (List.mem_append_right _ hy)))]
    exact h.header y hy

/-- **One step.** -/
theorem step {a : Act} {o : Outcome} {s' : PoolState} (hst : s.step poolid a = some (o, s')) :
    ∃ fl', Pooled poolid base size n s' fl' := by
  cases a with
  | getbuf pid =>
    simp only [PoolState.step] at hst
    split at hst
    · have heq := Option.some.inj hst
      rw [show s' = (s.getbuf pid poolid).2 by rw [heq]]
      unfold PoolState.getbuf
      rw [if_neg (not_le.mpr h.number), if_neg h.sem]
      dsimp only
      cases hwait : ((s.sem (s.buftab poolid).bpsem).wait pid).1 with
      | true =>
        rw [if_pos rfl]
        exact h.take hb (.wait hwait) h.callers
      | false =>
        rw [if_neg Bool.false_ne_true]
        exact ⟨fl, h.waits hwait⟩
    · cases hst
  | resume pid =>
    simp only [PoolState.step] at hst
    split at hst
    · cases hst
    · rename_i p hp
      obtain rfl := h.callers pid p hp
      split at hst
      · rename_i hrel
        have heq := Option.some.inj hst
        rw [show s' = (s.resume pid p).2 by rw [heq]]
        refine h.take hb (.resume hrel) fun q p' hq => ?_
        by_cases hqp : q = pid
        · rw [hqp, Function.update_self] at hq
          cases hq
        · rw [Function.update_of_ne hqp] at hq
          exact h.callers q p' hq
      · cases hst
  | freebuf bufaddr =>
    simp only [PoolState.step] at hst
    split at hst
    · rename_i hheld
      obtain ⟨b, rfl⟩ : ∃ b, bufaddr = b + headerSize := ⟨bufaddr - headerSize, by omega⟩
      rw [Nat.add_sub_cancel] at hheld
      have heq := Option.some.inj hst
      rw [show s' = (s.freebuf (b + headerSize)).2 from (congrArg Prod.snd heq).symm,
        h.freebuf_eq hb hheld.2]
      exact ⟨_, h.free hb hheld.2⟩
    · cases hst
  | store addr v =>
    simp only [PoolState.step] at hst
    split at hst
    · rename_i hin
      have heq := Option.some.inj hst
      rw [show s' = { s with mem := Function.update s.mem addr v } from
        (congrArg Prod.snd heq).symm]
      exact ⟨fl, h.store hb hin v⟩
    · cases hst

end Pooled

-- ---------------------------------------------------------------------------
-- What `mkbufpool` leaves
-- ---------------------------------------------------------------------------

theorem buffers_succ (base size n : Nat) :
    buffers base size (n + 1) = base :: buffers (base + size) size n := by
  unfold buffers
  rw [List.range_succ_eq_map, List.map_cons, List.map_map, Nat.zero_mul, Nat.add_zero]
  congr 1
  refine List.map_congr_left fun i _ => ?_
  rw [Function.comp_apply, Nat.succ_mul]
  omega

/-- The loop writes nothing below its buffer. -/
theorem linkBufs_below {x buf : Nat} {m : Mem} (hfits : buf + (n + 1) * size < 2 ^ 32)
    (hx : x < buf) : linkBufs size n buf m x = m x := by
  induction n generalizing buf m with
  | zero => exact Function.update_of_ne (Nat.ne_of_lt hx) _ _
  | succ n ih =>
    rw [Nat.succ_mul] at hfits
    have hnext : uint32 (buf + size) = buf + size := Nat.mod_eq_of_lt (by omega)
    rw [linkBufs, hnext, ih (by omega) (by omega)]
    exact Function.update_of_ne (Nat.ne_of_lt hx) _ _

/-- **The loop links the buffers** from the first to the last. -/
theorem linkBufs_chain {buf : Nat} {m : Mem} (hsize : 0 < size) (hpos : 0 < buf)
    (hfits : buf + (n + 1) * size < 2 ^ 32) :
    Follows (link (linkBufs size n buf m)) (pointer buf) (buffers buf size (n + 1)) := by
  induction n generalizing buf m with
  | zero =>
    rw [buffers_succ]
    refine ⟨if_neg (by omega), ?_⟩
    show pointer (Function.update m buf 0 buf) = none
    rw [Function.update_self]
    rfl
  | succ n ih =>
    rw [Nat.succ_mul] at hfits
    have hnext : uint32 (buf + size) = buf + size := Nat.mod_eq_of_lt (by omega)
    rw [buffers_succ]
    refine ⟨if_neg (by omega), ?_⟩
    rw [linkBufs, hnext]
    unfold link
    rw [linkBufs_below (by omega) (by omega), Function.update_self]
    exact ih (by omega) (by omega)

variable {t : PoolTable} {bs : List (Nat × Nat)} {bufsiz numbufs : Int}

/-- The header and the rounded size of a buffer. -/
def bufSize (bufsiz : Int) : Nat := roundBuf bufsiz + headerSize

/-- The product that `mkbufpool` asks `getmem` for is computed without wrapping. -/
theorem poolBytes_eq (h : Accepted bufsiz numbufs t) :
    poolBytes bufsiz numbufs = numbufs.toNat * bufSize bufsiz := by
  obtain ⟨hmin, hmax, hone, hmany, -⟩ := h
  unfold BP_MAXB at hmax
  unfold BP_MAXN at hmany
  have hbuf : roundBuf bufsiz ≤ 8192 := by unfold roundBuf; omega
  have hprod : numbufs.toNat * bufSize bufsiz ≤ 2048 * 8196 :=
    Nat.mul_le_mul (by omega) (by unfold bufSize headerSize; omega)
  exact Nat.mod_eq_of_lt (lt_of_le_of_lt hprod (by decide))

/-- The block that `getmem` gives lies in the heap. -/
theorem getmem_block {B : HeapBounds} {m : Mem} {len base : Nat} (hf : FreeList B m bs)
    (h0 : 0 < len) (hlen : len ≤ 2 ^ 32 - 8) (hmem : (getmem B len m).1 = some base) :
    4 ∣ base ∧ B.minheap ≤ base ∧ base + len ≤ B.maxheap := by
  have hal := getmem_refines hf.geometry hf.stored h0 hlen
  have hround := roundmb_bounds h0 hlen
  cases htake : takeFirst (roundmb len) bs with
  | none =>
    rw [htake] at hal
    rw [show getmem B len m = (none, m) from hal] at hmem
    cases hmem
  | some r =>
    rw [htake] at hal
    obtain ⟨hbase, -, -⟩ := hal
    obtain rfl := Option.some.inj (hbase.symm.trans hmem)
    obtain ⟨pre, p, mid, post, rfl, -, hcut⟩ := takeFirst_cut htake
    have h8 := hf.blocks.aligned p (by simp)
    have hin := hf.blocks.inside p (by simp)
    have hlow := hcut.low
    have hhigh := hcut.high
    have hunits := roundmb_dvd len
    rcases hcut.rest with ⟨-, hwhole⟩ | ⟨q, -, -, hend⟩ <;> omega

/-- A semaphore that has been created has the count that was asked for. -/
theorem semcreate_new {k : Kernel QTab} {count : Int} (hn : 0 ≤ k.nextsem ∧ k.nextsem < NSEM)
    (hret : (semcreate count k).v0 (semcreate count k).currpid ≠ SYSERR) :
    ∃ sem, (semcreate count k).v0 (semcreate count k).currpid = sem ∧ IsSem sem ∧
      ((semcreate count k).semtab sem).sstate = .used ∧
      ((semcreate count k).semtab sem).scount = count := by
  by_cases hc : count < 0
  · rw [semcreate, if_pos hc] at hret
    exact absurd (Function.update_self _ _ _) hret
  · rw [semcreate, if_neg hc] at hret ⊢
    rcases newsem_cases NSEM.toNat k hn with ⟨v, heq, -⟩ | ⟨sem, v, hs, -, -, -, heq⟩
    · rw [heq] at hret
      exact absurd (Function.update_self _ _ _) hret
    · rw [heq]
      refine ⟨sem, Function.update_self _ _ _, hs, ?_⟩
      simp [Kernel.ret, Kernel.log, Kernel.setCount, Kernel.setSem]

/-- The pools with a new one that has the block at `base`. -/
def PoolTable.withPool (t : PoolTable) (k : Kernel QTab) (base : Nat) (sem bufsiz numbufs : Int) :
    PoolTable where
  kernel := { k with mem := linkBufs (bufSize bufsiz) (numbufs.toNat - 1) base k.mem }
  buftab := Function.update t.buftab t.nbpools
    { bpnext := base, bpsem := sem, bpsize := roundBuf bufsiz }
  nbpools := t.nbpools + 1

/-- A call that succeeds has its arguments in range, a block and a semaphore. -/
theorem mkbufpool_ok (hn : 0 ≤ t.kernel.nextsem ∧ t.kernel.nextsem < NSEM)
    (hret : (mkbufpool bufsiz numbufs t).1 ≠ SYSERR) :
    ∃ (base : Nat) (m : Mem) (k : Kernel QTab) (sem : Int), Accepted bufsiz numbufs t ∧
      getmem t.kernel.bounds (poolBytes bufsiz numbufs) t.kernel.mem = (some base, m) ∧
      IsSem sem ∧ (k.semtab sem).sstate = .used ∧ (k.semtab sem).scount = numbufs ∧
      mkbufpool bufsiz numbufs t =
        ((t.nbpools : Int), t.withPool k base sem bufsiz numbufs) := by
  have hacc : Accepted bufsiz numbufs t := by
    by_contra hacc
    rw [mkbufpool_refused hacc] at hret
    exact hret rfl
  have hacc' := hacc
  unfold Accepted at hacc'
  rw [mkbufpool, if_neg (by omega)] at hret ⊢
  rcases hmem : getmem t.kernel.bounds (poolBytes bufsiz numbufs) t.kernel.mem with
    ⟨_ | base, m⟩
  · rw [hmem] at hret
    exact absurd rfl hret
  · rw [hmem] at hret
    dsimp only at hret ⊢
    by_cases hsem : (semcreate numbufs { t.kernel with mem := m }).v0
        (semcreate numbufs { t.kernel with mem := m }).currpid = SYSERR
    · rw [if_pos hsem] at hret
      exact absurd rfl hret
    · rw [if_neg hsem]
      obtain ⟨sem, hv, hs, hused, hcount⟩ :=
        @semcreate_new { t.kernel with mem := m } numbufs hn hsem
      refine ⟨base, m, semcreate numbufs { t.kernel with mem := m }, sem, hacc, rfl, hs, hused,
        hcount, ?_⟩
      rw [hv]
      rfl

/-- **What `mkbufpool` leaves**: every buffer of the block is on the list of the
new pool. -/
theorem mkbufpool_pooled (hf : FreeList t.kernel.bounds t.kernel.mem bs)
    (hn : 0 ≤ t.kernel.nextsem ∧ t.kernel.nextsem < NSEM)
    (hret : (mkbufpool bufsiz numbufs t).1 ≠ SYSERR) :
    (mkbufpool bufsiz numbufs t).1 = t.nbpools ∧
      poolBytes bufsiz numbufs = numbufs.toNat * bufSize bufsiz ∧
      ∃ base, (getmem t.kernel.bounds (poolBytes bufsiz numbufs) t.kernel.mem).1 = some base ∧
        Block base (bufSize bufsiz) numbufs.toNat ∧
        Pooled t.nbpools base (bufSize bufsiz) numbufs.toNat (mkbufpool bufsiz numbufs t).2.boot
          (buffers base (bufSize bufsiz) numbufs.toNat) := by
  obtain ⟨base, m, k, sem, hacc, hmem, hsem, hused, hcount, heq⟩ := mkbufpool_ok hn hret
  have hbytes := poolBytes_bounds hacc
  have hprod := poolBytes_eq hacc
  obtain ⟨h4, hlow, hhigh⟩ := getmem_block hf hbytes.1 hbytes.2 (congrArg Prod.fst hmem)
  have hbase := t.kernel.bounds.memlist_pos
  have hbelow := t.kernel.bounds.memlist_below
  have hlimit := t.kernel.bounds.addressable
  obtain ⟨hmin, -, hone, -, hpool⟩ := hacc
  have hblock : Block base (bufSize bufsiz) numbufs.toNat := by
    refine ⟨by omega, ⟨h4, ?_⟩, ?_, by omega⟩
    · unfold bufSize roundBuf headerSize
      omega
    · unfold BP_MINB at hmin
      unfold bufSize roundBuf
      omega
  refine ⟨by rw [heq], hprod, base, congrArg Prod.fst hmem, hblock, ?_⟩
  obtain ⟨n, hlast⟩ : ∃ n, numbufs.toNat = n + 1 := ⟨numbufs.toNat - 1, by omega⟩
  rw [heq]
  have hentry : (t.withPool k base sem bufsiz numbufs).boot.buftab t.nbpools =
      { bpnext := base, bpsem := sem, bpsize := roundBuf bufsiz } := Function.update_self _ _ _
  have hcount' : (t.withPool k base sem bufsiz numbufs).boot.semOf t.nbpools =
      { count := numbufs } := by
    unfold PoolState.semOf
    rw [hentry]
    exact congrArg (fun c => ({ count := c } : Sema)) hcount
  refine ⟨Nat.lt_succ_self _, hpool, ?_, ?_, ?_, ?_, fun h hh => (nomatch hh), ?_, ?_,
    fun q p hq => (nomatch hq)⟩
  · rw [hentry]
    rintro (hbad | hfree)
    · obtain ⟨h0, h1⟩ := hsem
      unfold isbadsem at hbad
      dsimp only at hbad
      omega
    · exact of_decide_eq_false hfree hused
  · rw [hentry]
    exact Nat.add_comm _ _
  · rw [hentry, hlast]
    show Follows (link (linkBufs (bufSize bufsiz) (numbufs.toNat - 1) base k.mem)) _ _
    have hfits := hblock.fits
    rw [hlast] at hfits ⊢
    exact linkBufs_chain (Nat.zero_lt_of_lt hblock.room) hblock.base_pos hfits
  · exact (List.append_nil _).symm ▸ List.Perm.refl _
  · rw [hcount']
    unfold Sema.Ok
    dsimp only
    rw [List.length_nil]
    omega
  · rw [hcount', buffers, List.length_map, List.length_range]
    unfold Sema.units
    dsimp only
    rw [List.length_nil]
    omega

-- ---------------------------------------------------------------------------
-- Every run
-- ---------------------------------------------------------------------------

/-- **After every successful `mkbufpool`, every use of the pool is safe**: its
buffers lie in the block that `getmem` gave, apart from each other. -/
theorem pool_safe (hf : FreeList t.kernel.bounds t.kernel.mem bs)
    (hn : 0 ≤ t.kernel.nextsem ∧ t.kernel.nextsem < NSEM)
    (hret : (mkbufpool bufsiz numbufs t).1 ≠ SYSERR) :
    (mkbufpool bufsiz numbufs t).1 = t.nbpools ∧
      poolBytes bufsiz numbufs = numbufs.toNat * bufSize bufsiz ∧
      ∃ base, (getmem t.kernel.bounds (poolBytes bufsiz numbufs) t.kernel.mem).1 = some base ∧
        ∀ tr s, (machine (mkbufpool bufsiz numbufs t).2 t.nbpools).Run (fun _ _ => True) tr s →
          Safe t.nbpools base (bufSize bufsiz) numbufs.toNat s := by
  obtain ⟨hid, hprod, base, hmem, hblock, hboot⟩ := mkbufpool_pooled hf hn hret
  refine ⟨hid, hprod, base, hmem, fun tr s hrun => ?_⟩
  have hinv : ∃ fl, Pooled t.nbpools base (bufSize bufsiz) numbufs.toNat s fl := by
    refine Machine.Run.invariant (I := fun _ s => ∃ fl, Pooled t.nbpools base (bufSize bufsiz)
      numbufs.toNat s fl) hrun (fun s hs => ?_) fun tr es s s' a hs _ hst => ?_
    · obtain rfl : s = _ := hs
      exact ⟨_, hboot⟩
    · obtain ⟨fl, hs⟩ := hs
      obtain ⟨⟨o, s''⟩, hstep, heq⟩ := Option.map_eq_some_iff.mp hst
      obtain ⟨rfl, -⟩ := Prod.mk.inj heq
      exact hs.step hblock hstep
  obtain ⟨fl, hs⟩ := hinv
  exact hs.safe hblock

/-- Two processes take the two buffers of a pool, a third one waits for the one
that is given back. -/
theorem pool_safe_two :
    let t := (mkbufpool 8 2 (smallPools .free)).2
    ∃ tr s, (machine t 0).exec (fun _ _ => True) t.boot []
        [.getbuf 1, .getbuf 2, .getbuf 3, .freebuf 20, .resume 3] = some (s, tr) ∧
      tr.reverse = [.buf 20, .buf 32, .blocked, .status OK, .buf 20] ∧ Safe 0 16 12 2 s := by
  intro t
  have hrun : ((machine t 0).exec (fun _ _ => True) t.boot []
      [.getbuf 1, .getbuf 2, .getbuf 3, .freebuf 20, .resume 3]).any fun r =>
        r.2.reverse = [.buf 20, .buf 32, .blocked, .status OK, .buf 20] := by
    decide +kernel
  obtain ⟨⟨s, tr⟩, hst, htr⟩ := (Option.any_eq_true _ _).mp hrun
  obtain ⟨-, -, base, hmem, hsafe⟩ := @pool_safe (smallPools .free) _ 8 2 (smallHeap_freeList _)
    (by decide) (by decide +kernel)
  have hbase : (getmem smallHeap (poolBytes 8 2) (smallPools .free).kernel.mem).1 = some 16 := by
    decide +kernel
  obtain rfl := Option.some.inj (hbase.symm.trans hmem)
  exact ⟨tr, s, hst, of_decide_eq_true htr, hsafe tr s (Machine.exec_run (.start rfl) hst)⟩

/-- The list is as long as the count and the processes let go. -/
def Counted (poolid : Nat) (s : PoolState) : Prop :=
  ∃ fl, Follows (link s.mem) (pointer (s.buftab poolid).bpnext) fl ∧
    (fl.length : Int) = (s.semOf poolid).count + (s.semOf poolid).released.length

/-- **No list is as long as a negative count**: a second process waits for the only
buffer. -/
theorem pool_not_counted : ¬ ∀ (t : PoolTable) (bs : List (Nat × Nat)) (bufsiz numbufs : Int),
    FreeList t.kernel.bounds t.kernel.mem bs → (0 ≤ t.kernel.nextsem ∧ t.kernel.nextsem < NSEM) →
    (mkbufpool bufsiz numbufs t).1 ≠ SYSERR → ∀ tr s,
      (machine (mkbufpool bufsiz numbufs t).2 t.nbpools).Run (fun _ _ => True) tr s →
        Counted t.nbpools s := by
  intro hall
  have hrun : ((machine (mkbufpool 8 1 (smallPools .free)).2 0).exec (fun _ _ => True)
      (mkbufpool 8 1 (smallPools .free)).2.boot [] [.getbuf 1, .getbuf 2]).any fun r =>
        (r.1.semOf 0).count = -1 ∧ (r.1.semOf 0).released = [] := by
    decide +kernel
  obtain ⟨⟨s, tr⟩, hst, hval⟩ := (Option.any_eq_true _ _).mp hrun
  obtain ⟨hcount, hreleased⟩ := of_decide_eq_true hval
  obtain ⟨fl, -, hlen⟩ := hall (smallPools .free) _ 8 1 (smallHeap_freeList _) (by decide)
    (by decide +kernel) tr s (Machine.exec_run (.start rfl) hst)
  have hcount' : (s.semOf (smallPools .free).nbpools).count = -1 := hcount
  have hreleased' : (s.semOf (smallPools .free).nbpools).released = [] := hreleased
  rw [hcount', hreleased', List.length_nil] at hlen
  omega

end Xinu.Pools
