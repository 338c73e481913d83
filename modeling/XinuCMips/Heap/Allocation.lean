import XinuCMips.Heap.FreeBlocks

/-!
# Allocation of any size

`getmem` and `getstk` round the size up in 32-bit arithmetic, so the largest
sizes become 0 and fit in any block. All others are handled safely.

* `getmem_safe_iff`, `getstk_safe_iff` — for every size, whether the call is
  safe.
-/

namespace Xinu

open Thread Tiling

variable {B : HeapBounds} {m : Mem} {bs bs' : List (Nat × Nat)} {a n : Nat}

/-! ## Safe calls -/

variable (B) in
/-- A call for `n` bytes from the list `bs` fails and changes nothing, or what
it returns is the place of at least `n` bytes that it has removed. -/
def AllocSafe (bs : List (Nat × Nat)) (n : Nat) (m : Mem) (place : Nat → Nat → Nat → Prop)
    (res : Option Nat × Mem) : Prop :=
  match res.1 with
  | none => res.2 = m
  | some p => ∃ a N bs', place p a N ∧ n ≤ N ∧ FreeList B res.2 bs' ∧ Removed bs bs' a N

/-- `getmem` returns the lowest address. -/
def Lowest (p a _N : Nat) : Prop := a = p

/-- `getstk` returns the highest word. -/
def HighestWord (p a N : Nat) : Prop := a + N = p + 4

/-- No region is as large as the sizes that rounding turns to 0. -/
theorem not_allocSafe {place : Nat → Nat → Nat → Prop} {res : Option Nat × Mem}
    (h : FreeList B m bs) (hn : 2 ^ 32 - 8 < n) (hsome : res.1 ≠ none) :
    ¬ AllocSafe B bs n m place res := by
  intro hsafe
  obtain ⟨p, hp⟩ := Option.ne_none_iff_exists'.mp hsome
  unfold AllocSafe at hsafe
  rw [hp] at hsafe
  obtain ⟨a, N, bs', -, hN, -, hrem⟩ := hsafe
  have := hrem.size_lt h.blocks
  omega

theorem roundmb_wraps (hn : 2 ^ 32 - 8 < n) (hn' : n < 2 ^ 32) : roundmb n = 0 := by
  unfold roundmb uint32
  omega

theorem roundmb_dvd (n : Nat) : 8 ∣ roundmb n := ⟨uint32 (7 + n) / 8, by unfold roundmb; omega⟩

/-- From the address of the first byte, as `getmem` and `getstk` find it. -/
theorem allocSafe_of_cut {place : Nat → Nat → Nat → Prop} {res : Option Nat × Mem} {p : Nat}
    {pre mid post : List (Nat × Nat)} {c : Nat × Nat} (h : FreeList B m (pre ++ c :: post))
    (hn0 : 0 < n) (hn : n ≤ 2 ^ 32 - 8) (hcut : Cut c mid a (roundmb n)) (hres : res.1 = some p)
    (hs : Stored B res.2 (pre ++ (mid ++ post))) (hplace : place p a (roundmb n)) :
    AllocSafe B (pre ++ c :: post) n m place res := by
  unfold AllocSafe
  rw [hres]
  exact ⟨a, roundmb n, _, hplace, (roundmb_bounds hn0 hn).2.1, hcut.freeList h (roundmb_dvd n) hs,
    hcut.removed h.blocks.sorted⟩

theorem getmem_empty (h : Stored B m []) (n : Nat) : getmem B n m = (none, m) := by
  have hnext : mnext m B.memlist = 0 := (show Stored B m ([] ++ []) from h).next_prev
  unfold getmem
  by_cases hn : n = 0
  · rw [if_pos hn]
  · rw [if_neg hn, hnext]
    cases B.maxheap with
    | zero => rfl
    | succ k => exact if_pos rfl

theorem getstk_empty (h : Stored B m []) (n : Nat) : getstk B n m = (none, m) := by
  have hnext : mnext m B.memlist = 0 := (show Stored B m ([] ++ []) from h).next_prev
  unfold getstk
  by_cases hn : n = 0
  · rw [if_pos hn]
  · have hloop : getstkLoop (roundmb n) B.maxheap B.memlist 0 (0, 0) m = (0, 0) := by
      cases B.maxheap with
      | zero => rfl
      | succ k => exact if_pos rfl
    rw [if_neg hn, hnext]
    simp only [hloop]
    exact if_pos trivial

/-- Rounded to 0, a size fits in the first block, whatever that is. -/
theorem getmem_wraps (h : FreeList B m bs) (hne : bs ≠ []) (hn : 2 ^ 32 - 8 < n)
    (hn' : n < 2 ^ 32) : (getmem B n m).1 ≠ none := by
  obtain ⟨c, rest, rfl⟩ := List.exists_cons_of_ne_nil hne
  have hnext : mnext m B.memlist = c.1 :=
    (show Stored B m ([] ++ c :: rest) from h.stored).next_prev
  have hin := h.blocks.inside c (by simp)
  have hpos := h.blocks.pos c (by simp)
  have hlen : mlength m c.1 = c.2 := h.stored.lengths c (by simp)
  have hbelow := B.memlist_below
  obtain ⟨k, hk⟩ : ∃ k, B.maxheap = k + 1 := ⟨B.maxheap - 1, by omega⟩
  rw [getmem, if_neg (by omega), hnext, hk, getmemLoop, if_neg (by omega), hlen,
    roundmb_wraps hn hn', if_neg (by omega), if_pos hpos]
  simp

/-- and in the last one. -/
theorem getstk_wraps (h : FreeList B m bs) (hne : bs ≠ []) (hn : 2 ^ 32 - 8 < n)
    (hn' : n < 2 ^ 32) : (getstk B n m).1 ≠ none := by
  obtain ⟨rest, c, rfl⟩ := List.eq_nil_or_concat bs |>.resolve_left hne
  rw [List.concat_eq_append] at h
  have hpos : ∀ b ∈ rest ++ [c], 0 < b.1 := fun b hb => by
    have := (h.blocks.inside b hb).1
    have := B.memlist_below
    omega
  have hnext : mnext m B.memlist = nodeOf (rest ++ [c]) :=
    (show Stored B m ([] ++ (rest ++ [c])) from h.stored).next_prev
  have hloop := @getstkLoop_last B m 0 c [] (Nat.zero_le _) (by simp) rest [] B.maxheap (0, 0)
    h.geometry.length_lt h.stored hpos
  have hc := hpos c (by simp)
  have hz : c.1 ≠ 0 := by omega
  rw [prevNode_nil] at hloop
  rw [getstk, if_neg (by omega), hnext, roundmb_wraps hn hn']
  simp only [hloop]
  rw [if_neg hz]
  split <;> simp

/-- **`getmem` is safe for the sizes that survive rounding.** -/
theorem getmem_safe_iff (h : FreeList B m bs) (hn' : n < 2 ^ 32) :
    AllocSafe B bs n m Lowest (getmem B n m) ↔ n ≤ 2 ^ 32 - 8 ∨ bs = [] := by
  constructor
  · intro hsafe
    by_contra hc
    rw [not_or, not_le] at hc
    exact not_allocSafe h hc.1 (getmem_wraps h hc.2 hc.1 hn') hsafe
  · rintro (hn | rfl)
    · by_cases hn0 : n = 0
      · rw [getmem, if_pos hn0]
        rfl
      · have hal := getmem_refines h.geometry h.stored (by omega) hn
        cases htake : takeFirst (roundmb n) bs with
        | none =>
          rw [htake] at hal
          rw [show getmem B n m = (none, m) from hal]
          rfl
        | some r =>
          rw [htake] at hal
          obtain ⟨pre, c, mid, post, rfl, hbs, hcut⟩ := takeFirst_cut htake
          obtain ⟨h1, h2, -⟩ := hal
          rw [hbs] at h2
          exact allocSafe_of_cut h (by omega) hn hcut h1 h2 rfl
    · rw [getmem_empty h.stored]
      rfl

/-- **`getstk` is safe for the sizes that survive rounding.** -/
theorem getstk_safe_iff (h : FreeList B m bs) (hn' : n < 2 ^ 32) :
    AllocSafe B bs n m HighestWord (getstk B n m) ↔ n ≤ 2 ^ 32 - 8 ∨ bs = [] := by
  constructor
  · intro hsafe
    by_contra hc
    rw [not_or, not_le] at hc
    exact not_allocSafe h hc.1 (getstk_wraps h hc.2 hc.1 hn') hsafe
  · rintro (hn | rfl)
    · by_cases hn0 : n = 0
      · rw [getstk, if_pos hn0]
        rfl
      · obtain ⟨hal, hlow⟩ := getstk_refines h.geometry h.stored (by omega) hn
        cases htake : takeLast (roundmb n) bs with
        | none =>
          rw [htake] at hal
          obtain ⟨h1, h2⟩ := Prod.mk.inj hal
          unfold AllocSafe
          rw [Option.map_eq_none_iff.mp h1]
          exact h2
        | some r =>
          rw [htake] at hal
          obtain ⟨pre, c, mid, post, rfl, hbs, hcut⟩ := takeLast_cut htake
          obtain ⟨h1, h2, -⟩ := hal
          obtain ⟨p, hp, hpa⟩ := Option.map_eq_some_iff.mp h1
          rw [hbs] at h2
          have hle := hlow p hp
          refine allocSafe_of_cut h (by omega) hn hcut hp h2 ?_
          unfold HighestWord
          omega
    · rw [getstk_empty h.stored]
      rfl

end Xinu
