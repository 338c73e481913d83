import XinuCMips.Heap.Accounting
import XinuCMips.Heap.Allocation

/-!
# Stacks on the heap

A stack that `getstk` hands out is live until `freestk` takes it back. A size above
`2 ^ 32 - 8` is rounded to 0: such a stack is no memory at all, and taking and giving it back
changes nothing.

* `HeapReachable.takeStack`, `HeapReachable.giveStack` — what the two do to the live blocks.
-/

namespace Xinu

open Thread Tiling

variable {B : HeapBounds} {m m' : Mem} {live rest : List (Nat × Nat)} {n p : Nat}

/-- The block of a stack whose highest word is at `p`. -/
def stackBlock (p n : Nat) : List (Nat × Nat) := if roundmb n = 0 then [] else [(stkbase p n, n)]

theorem roundmb_eq_zero (h0 : 0 < n) (hn : n < 2 ^ 32) : roundmb n = 0 ↔ 2 ^ 32 - 8 < n := by
  unfold roundmb uint32
  omega

/-- Writing back what a cell holds, less nothing. -/
theorem setMlength_same {a : Nat} (h : mlength m a < 2 ^ 32) :
    setMlength m a (usub (mlength m a) 0) = m := by
  have hsame : usub (mlength m a) 0 = mlength m a := by
    unfold usub uint32
    omega
  rw [hsame]
  exact Function.update_eq_self _ _

/-- Taking a stack of no memory changes nothing. -/
theorem getstk_wraps_mem (h : HeapReachable B ⟨m, live⟩) (h0 : 0 < n) (hn : n < 2 ^ 32)
    (hz : roundmb n = 0) : (getstk B n m).2 = m := by
  obtain ⟨ts, hts⟩ := heapReachable_inv h
  have hst : Stored B m (spans true B.minheap ts) := hts.stored
  have hg := hts.geometry
  have htotal : mlength m B.memlist + _ = _ := hts.total_le
  have haddr := B.addressable
  have hbelow := B.memlist_below
  rcases List.eq_nil_or_concat (spans true B.minheap ts) with hnil | ⟨pre, c, hcat⟩
  · rw [hnil] at hst
    rw [getstk_empty hst]
  · rw [List.concat_eq_append] at hcat
    rw [hcat] at hst hg
    have hin : ∀ b ∈ pre ++ [c], 0 < b.1 ∧ b.1 + b.2 ≤ B.maxheap := fun b hb => by
      have := hg.inside b hb
      omega
    have hc := hin c (by simp)
    have hcpos := hg.pos c (by simp)
    have hlen : mlength m c.1 = c.2 := hst.lengths c (by simp)
    have hnext : mnext m B.memlist = nodeOf (pre ++ [c]) :=
      (show Stored B m ([] ++ (pre ++ [c])) from hst).next_prev
    have hloop := @getstkLoop_last B m 0 c [] (Nat.zero_le _) (by simp) pre [] B.maxheap (0, 0)
      hg.length_lt hst fun b hb => (hin b hb).1
    rw [prevNode_nil] at hloop
    rw [getstk, if_neg (by omega), hnext, hz]
    simp only [hloop]
    rw [if_neg (by omega), hlen, if_neg (by omega)]
    dsimp only
    have hfit := @setMlength_same m c.1 (by omega)
    rw [hlen] at hfit
    rw [hfit]
    exact setMlength_same (by omega)

/-- **A stack is taken.** -/
theorem HeapReachable.takeStack (h : HeapReachable B ⟨m, live⟩) (h0 : 0 < n) (hn : n < 2 ^ 32)
    (hget : getstk B n m = (some p, m')) : HeapReachable B ⟨m', stackBlock p n ++ live⟩ := by
  unfold stackBlock
  by_cases hz : roundmb n = 0
  · rw [if_pos hz, List.nil_append]
    have hsame := getstk_wraps_mem h h0 hn hz
    rw [hget] at hsame
    obtain rfl : m' = m := hsame
    exact h
  · rw [if_neg hz]
    have hle : n ≤ 2 ^ 32 - 8 := not_lt.mp fun hgt => hz ((roundmb_eq_zero h0 hn).mpr hgt)
    have hstep := @HeapReachable.step B ⟨m, live⟩ (.getstk n) h ⟨h0, hle⟩
    unfold heapStep at hstep
    dsimp only at hstep
    rw [hget] at hstep
    exact hstep

/-- Giving back a stack of no memory changes nothing. -/
theorem freestk_wraps (hz : roundmb n = 0) : (freestk B p n m).2 = m := by
  have hzero : roundmb 0 = 0 := rfl
  unfold freestk freemem
  rw [hz, if_pos (.inl rfl)]

/-- **A stack is given back.** -/
theorem HeapReachable.giveStack (h : HeapReachable B ⟨m, live⟩)
    (hlive : live.Perm (stackBlock p n ++ rest)) :
    (roundmb n ≠ 0 → (freestk B p n m).1 = OK) ∧
      ∃ live', HeapReachable B ⟨(freestk B p n m).2, live'⟩ ∧ live'.Perm rest := by
  unfold stackBlock at hlive
  by_cases hz : roundmb n = 0
  · rw [if_pos hz, List.nil_append] at hlive
    rw [freestk_wraps hz]
    exact ⟨fun hne => absurd hz hne, live, h, hlive⟩
  · rw [if_neg hz] at hlive
    have hmem : (stkbase p n, n) ∈ live := hlive.mem_iff.mpr (by simp)
    obtain ⟨ts, hts⟩ := heapReachable_inv h
    -- a live block lies above the list head
    have hhigh : roundmb n ≤ p + 4 := by
      obtain ⟨t₁, t₂, -, hbase⟩ := hts.live_split hmem
      have hpos := B.memlist_pos
      have hbelow := B.memlist_below
      unfold stkbase at hbase
      omega
    have hstep := @HeapReachable.step B ⟨m, live⟩ (.freestk p n) h ⟨hhigh, hmem⟩
    refine ⟨fun _ => ?_, live.erase (stkbase p n, n), hstep, ?_⟩
    · rw [hts.freestk_eq hhigh hmem]
      exact freemem_live_ok h hmem
    · exact ((List.perm_cons_erase hmem).symm.trans hlive).cons_inv

end Xinu
