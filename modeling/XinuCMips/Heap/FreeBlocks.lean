import XinuCMips.Heap.FreeList

/-!
# Blocks of a free list

The free-list invariant (`FreeList`) in terms of the blocks alone (`FreeBlocks`),
what cutting a region off a block does to it (`Cut`), and how blocks are
joined, shortened and inserted.
-/

namespace Xinu

open Thread Tiling

variable {B : HeapBounds} {m : Mem} {bs bs' : List (Nat × Nat)} {a b n : Nat}

/-! ## Free lists -/

variable (B) in
/-- Blocks of a free list: aligned to 8 bytes, not empty, sorted, disjoint and
inside the heap. -/
structure FreeBlocks (bs : List (Nat × Nat)) : Prop where
  aligned : ∀ p ∈ bs, 8 ∣ p.1 ∧ 8 ∣ p.2
  pos : ∀ p ∈ bs, 0 < p.2
  sorted : bs.Pairwise fun p q => p.1 + p.2 ≤ q.1
  inside : ∀ p ∈ bs, B.minheap ≤ p.1 ∧ p.1 + p.2 ≤ B.maxheap

theorem blocks_cons {c : Nat × Nat} {r : List (Nat × Nat)} : FreeBlocks B (c :: r) ↔
    ((8 ∣ c.1 ∧ 8 ∣ c.2) ∧ 0 < c.2 ∧ B.minheap ≤ c.1 ∧ c.1 + c.2 ≤ B.maxheap) ∧
      (∀ q ∈ r, c.1 + c.2 ≤ q.1) ∧ FreeBlocks B r := by
  constructor
  · intro h
    have hs := List.pairwise_cons.mp h.sorted
    exact ⟨⟨h.aligned c (by simp), h.pos c (by simp), h.inside c (by simp)⟩, hs.1,
      ⟨fun p hp => h.aligned p (by simp [hp]), fun p hp => h.pos p (by simp [hp]), hs.2,
        fun p hp => h.inside p (by simp [hp])⟩⟩
  · rintro ⟨⟨h1, h2, h3⟩, h4, h5⟩
    refine ⟨fun p hp => ?_, fun p hp => ?_, List.pairwise_cons.mpr ⟨h4, h5.sorted⟩, fun p hp => ?_⟩
    · rcases List.mem_cons.mp hp with rfl | hp
      · exact h1
      · exact h5.aligned p hp
    · rcases List.mem_cons.mp hp with rfl | hp
      · exact h2
      · exact h5.pos p hp
    · rcases List.mem_cons.mp hp with rfl | hp
      · exact h3
      · exact h5.inside p hp

theorem blocks_append {l r : List (Nat × Nat)} : FreeBlocks B (l ++ r) ↔
    FreeBlocks B l ∧ FreeBlocks B r ∧ ∀ p ∈ l, ∀ q ∈ r, p.1 + p.2 ≤ q.1 := by
  constructor
  · intro h
    have hs := List.pairwise_append.mp h.sorted
    exact ⟨⟨fun p hp => h.aligned p (by simp [hp]), fun p hp => h.pos p (by simp [hp]), hs.1,
        fun p hp => h.inside p (by simp [hp])⟩,
      ⟨fun p hp => h.aligned p (by simp [hp]), fun p hp => h.pos p (by simp [hp]), hs.2.1,
        fun p hp => h.inside p (by simp [hp])⟩, hs.2.2⟩
  · rintro ⟨hl, hr, hlr⟩
    exact ⟨List.forall_mem_append.mpr ⟨hl.aligned, hr.aligned⟩,
      List.forall_mem_append.mpr ⟨hl.pos, hr.pos⟩,
      List.pairwise_append.mpr ⟨hl.sorted, hr.sorted, hlr⟩,
      List.forall_mem_append.mpr ⟨hl.inside, hr.inside⟩⟩

variable (B) in
/-- The free-list invariant: such blocks, no two of which touch. -/
structure FreeList (m : Mem) (bs : List (Nat × Nat)) : Prop where
  stored : Stored B m bs
  blocks : FreeBlocks B bs
  apart : bs.Pairwise fun p q => p.1 + p.2 ≠ q.1

theorem FreeList.geometry (h : FreeList B m bs) : Geometry B bs where
  spaced := by
    refine (h.blocks.sorted.and h.apart).imp_of_mem fun {p q} hp hq hpq => ?_
    have hp8 := h.blocks.aligned p hp
    have hq8 := h.blocks.aligned q hq
    obtain ⟨hle, hne⟩ := hpq
    omega
  pos := h.blocks.pos
  inside := h.blocks.inside

/-- The addresses of a list of blocks. -/
def Covers (bs : List (Nat × Nat)) (x : Nat) : Prop := ∃ p ∈ bs, p.1 ≤ x ∧ x < p.1 + p.2

/-- The `n` bytes from `a` on were on the list and have been removed from it. -/
structure Removed (bs bs' : List (Nat × Nat)) (a n : Nat) : Prop where
  had : ∀ x, a ≤ x → x < a + n → Covers bs x
  left : ∀ x, Covers bs' x ↔ Covers bs x ∧ ¬ (a ≤ x ∧ x < a + n)

/-- A region of free memory is smaller than the heap. -/
theorem Removed.size_lt (h : Removed bs bs' a n) (hbs : FreeBlocks B bs) : n < 2 ^ 32 - 8 := by
  by_contra hn
  obtain ⟨p, hp, hp1, -⟩ := h.had a le_rfl (by omega)
  obtain ⟨q, hq, -, hq2⟩ := h.had (a + n - 1) (by omega) (by omega)
  have hlow := (hbs.inside p hp).1
  have hhigh := (hbs.inside q hq).2
  have haddr := B.addressable
  have hbelow := B.memlist_below
  omega

/-! ## Cutting a block -/

/-- What `mid` leaves of the block `p` when `n` bytes from `a` on are cut off
one of its ends. -/
structure Cut (p : Nat × Nat) (mid : List (Nat × Nat)) (a n : Nat) : Prop where
  low : p.1 ≤ a
  high : a + n ≤ p.1 + p.2
  rest : mid = [] ∧ p.2 = n ∨ ∃ q, mid = [q] ∧ 0 < q.2 ∧
    (q.1 = p.1 ∧ q.1 + q.2 = a ∧ a + n = p.1 + p.2 ∨
      a = p.1 ∧ q.1 = a + n ∧ q.1 + q.2 = p.1 + p.2)

theorem Cut.covers {p : Nat × Nat} {mid : List (Nat × Nat)} (h : Cut p mid a n) (x : Nat) :
    Covers mid x ↔ (p.1 ≤ x ∧ x < p.1 + p.2) ∧ ¬ (a ≤ x ∧ x < a + n) := by
  have hlow := h.low
  have hhigh := h.high
  rcases h.rest with ⟨rfl, hn⟩ | ⟨q, rfl, -, hq⟩
  · simp only [Covers, List.not_mem_nil, false_and, exists_false, false_iff]
    omega
  · simp only [Covers, List.mem_singleton, exists_eq_left]
    omega

theorem covers_append {l r : List (Nat × Nat)} {x : Nat} :
    Covers (l ++ r) x ↔ Covers l x ∨ Covers r x := by
  simp only [Covers, List.mem_append, or_and_right, exists_or]

theorem covers_cons {p : Nat × Nat} {r : List (Nat × Nat)} {x : Nat} :
    Covers (p :: r) x ↔ (p.1 ≤ x ∧ x < p.1 + p.2) ∨ Covers r x := by
  simp [Covers]

/-- Cutting a block removes the bytes cut off: they were on no other block. -/
theorem Cut.removed {p : Nat × Nat} {pre mid post : List (Nat × Nat)} (h : Cut p mid a n)
    (hsort : (pre ++ p :: post).Pairwise fun p q => p.1 + p.2 ≤ q.1) :
    Removed (pre ++ p :: post) (pre ++ (mid ++ post)) a n := by
  have hlow := h.low
  have hhigh := h.high
  rw [List.pairwise_append, List.pairwise_cons] at hsort
  obtain ⟨-, ⟨hpost, -⟩, hpre⟩ := hsort
  refine ⟨fun x h1 h2 => covers_append.mpr (Or.inr (covers_cons.mpr (Or.inl (by omega)))),
    fun x => ?_⟩
  rw [covers_append, covers_append, covers_append, covers_cons, h.covers x]
  have hout : Covers pre x ∨ Covers post x → ¬ (a ≤ x ∧ x < a + n) := by
    rintro (⟨q, hq, hqx⟩ | ⟨q, hq, hqx⟩)
    · have := hpre q hq p (by simp)
      omega
    · have := hpost q hq
      omega
  tauto

/-- Cutting whole units off keeps the free-list invariant. -/
theorem Cut.freeList {p : Nat × Nat} {pre mid post : List (Nat × Nat)} {m' : Mem}
    (h : Cut p mid a n) (hf : FreeList B m (pre ++ p :: post)) (hn : 8 ∣ n)
    (hs : Stored B m' (pre ++ (mid ++ post))) : FreeList B m' (pre ++ (mid ++ post)) := by
  have hsp := hf.geometry.spaced
  have hp8 := hf.blocks.aligned p (by simp)
  have hpin := hf.blocks.inside p (by simp)
  -- what is left of the block lies inside it
  have hmid : ∀ q ∈ mid, p.1 ≤ q.1 ∧ q.1 + q.2 ≤ p.1 + p.2 ∧ 0 < q.2 ∧ 8 ∣ q.1 ∧ 8 ∣ q.2 := by
    intro q hq
    have hlow := h.low
    have hhigh := h.high
    rcases h.rest with ⟨rfl, -⟩ | ⟨r, rfl, hr⟩
    · simp at hq
    · rw [List.mem_singleton] at hq
      subst hq
      omega
  have hone : mid.Pairwise fun p q => p.1 + p.2 + 8 ≤ q.1 := by
    rcases h.rest with ⟨rfl, -⟩ | ⟨r, rfl, -⟩ <;> simp
  have hall : (pre ++ (mid ++ post)).Pairwise fun p q => p.1 + p.2 + 8 ≤ q.1 := by
    rw [List.pairwise_append, List.pairwise_cons] at hsp
    obtain ⟨h1, ⟨h2, h3⟩, h4⟩ := hsp
    refine List.pairwise_append.mpr ⟨h1, List.pairwise_append.mpr ⟨hone, h3, fun q hq r hr => ?_⟩,
      fun q hq r hr => ?_⟩
    · have := hmid q hq
      have := h2 r hr
      omega
    · rcases List.mem_append.mp hr with hr | hr
      · have := hmid r hr
        have := h4 q hq p (by simp)
        omega
      · exact h4 q hq r (by simp [hr])
  have hmem : ∀ q ∈ pre ++ (mid ++ post), q ∈ mid ∨ q ∈ pre ++ p :: post := by
    intro q hq
    simp only [List.mem_append, List.mem_cons] at hq ⊢
    tauto
  refine ⟨hs, ⟨fun q hq => ?_, fun q hq => ?_, hall.imp fun h => by omega, fun q hq => ?_⟩,
    hall.imp fun h => by omega⟩
  · rcases hmem q hq with hq | hq
    · exact (hmid q hq).2.2.2
    · exact hf.blocks.aligned q hq
  · rcases hmem q hq with hq | hq
    · exact (hmid q hq).2.2.1
    · exact hf.blocks.pos q hq
  · rcases hmem q hq with hq | hq
    · have := hmid q hq
      omega
    · exact hf.blocks.inside q hq

theorem takeFirst_cut {n : Nat} : ∀ {bs : List (Nat × Nat)} {a : Nat} {bs' : List (Nat × Nat)},
    takeFirst n bs = some (a, bs') → ∃ pre p mid post, bs = pre ++ p :: post ∧
      bs' = pre ++ (mid ++ post) ∧ Cut p mid a n
  | [], _, _, h => by simp [takeFirst] at h
  | (c, l) :: bs, a, bs', h => by
    unfold takeFirst at h
    by_cases hex : l = n
    · rw [if_pos hex] at h
      obtain ⟨rfl, rfl⟩ : c = a ∧ bs = bs' := by simpa using h
      exact ⟨[], (c, l), [], bs, rfl, rfl, le_rfl, by simp [hex], Or.inl ⟨rfl, hex⟩⟩
    · rw [if_neg hex] at h
      by_cases hlt : n < l
      · rw [if_pos hlt] at h
        obtain ⟨rfl, rfl⟩ : c = a ∧ (c + n, l - n) :: bs = bs' := by simpa using h
        exact ⟨[], (c, l), [(c + n, l - n)], bs, rfl, rfl, le_rfl, by simp; omega,
          Or.inr ⟨_, rfl, by simp; omega, Or.inr ⟨rfl, rfl, by simp; omega⟩⟩⟩
      · rw [if_neg hlt, Option.map_eq_some_iff] at h
        obtain ⟨⟨a', r⟩, hr, heq⟩ := h
        obtain ⟨rfl, rfl⟩ : a' = a ∧ (c, l) :: r = bs' := by simpa using heq
        obtain ⟨pre, p, mid, post, rfl, rfl, hcut⟩ := takeFirst_cut hr
        exact ⟨(c, l) :: pre, p, mid, post, rfl, rfl, hcut⟩

theorem takeLast_cut {n : Nat} {bs bs' : List (Nat × Nat)} {a : Nat}
    (h : takeLast n bs = some (a, bs')) : ∃ pre p mid post, bs = pre ++ p :: post ∧
      bs' = pre ++ (mid ++ post) ∧ Cut p mid a n := by
  by_cases hnone : ∀ b ∈ bs, b.2 < n
  · rw [takeLast_none hnone] at h
    simp at h
  · obtain ⟨pre, c, post, rfl, hc, hpost⟩ := exists_last_fit hnone
    rw [takeLast_last hc hpost] at h
    by_cases hex : c.2 = n
    · rw [if_pos hex] at h
      obtain ⟨rfl, rfl⟩ : c.1 = a ∧ pre ++ post = bs' := by simpa using h
      exact ⟨pre, c, [], post, rfl, rfl, le_rfl, by omega, Or.inl ⟨rfl, hex⟩⟩
    · rw [if_neg hex] at h
      obtain ⟨rfl, rfl⟩ : c.1 + (c.2 - n) = a ∧ pre ++ (c.1, c.2 - n) :: post = bs' := by
        simpa using h
      exact ⟨pre, c, [(c.1, c.2 - n)], post, rfl, rfl, by omega, by omega,
        Or.inr ⟨_, rfl, by simp; omega, Or.inl ⟨rfl, rfl, by omega⟩⟩⟩

/-! ## Joining and inserting -/

/-- Two blocks that touch are one block. -/
theorem FreeBlocks.merge {l r : List (Nat × Nat)} {p q : Nat × Nat}
    (h : FreeBlocks B (l ++ p :: q :: r)) (ht : p.1 + p.2 = q.1) :
    FreeBlocks B (l ++ (p.1, p.2 + q.2) :: r) := by
  rw [blocks_append, blocks_cons, blocks_cons] at h
  obtain ⟨hl, ⟨hp, -, hq, hqr, hr⟩, hlp⟩ := h
  rw [blocks_append, blocks_cons]
  refine ⟨hl, ⟨by simp only; omega, fun c hc => ?_, hr⟩, fun c hc d hd => ?_⟩
  · have := hqr c hc
    simp only
    omega
  · rcases List.mem_cons.mp hd with rfl | hd
    · exact hlp c hc p (by simp)
    · exact hlp c hc d (by simp [hd])

/-- A block may shrink at its end. -/
theorem FreeBlocks.shorten {l r : List (Nat × Nat)} {p : Nat × Nat} {L : Nat}
    (h : FreeBlocks B (l ++ p :: r)) (h0 : 0 < L) (hle : L ≤ p.2) (h8 : 8 ∣ L) :
    FreeBlocks B (l ++ (p.1, L) :: r) := by
  rw [blocks_append, blocks_cons] at h ⊢
  obtain ⟨hl, ⟨hp, hpr, hr⟩, hlp⟩ := h
  refine ⟨hl, ⟨by simp only; omega, fun c hc => ?_, hr⟩, fun c hc d hd => ?_⟩
  · have := hpr c hc
    simp only
    omega
  · rcases List.mem_cons.mp hd with rfl | hd
    · exact hlp c hc p (by simp)
    · exact hlp c hc d (by simp [hd])

theorem FreeBlocks.mergeNext {l r : List (Nat × Nat)} {c : Nat × Nat} (h : FreeBlocks B (l ++ c :: r)) :
    FreeBlocks B (l ++ mergeNext c r) := by
  cases r with
  | nil => exact h
  | cons q r =>
    simp only [Tiling.mergeNext]
    by_cases ht : c.1 + c.2 = q.1
    · rw [if_pos ht]
      exact h.merge ht
    · rw [if_neg ht]
      exact h

theorem FreeBlocks.mergePrev {l r : List (Nat × Nat)} {c : Nat × Nat} (h : FreeBlocks B (l ++ c :: r)) :
    FreeBlocks B ((mergePrev l c).1 ++ (mergePrev l c).2 :: r) := by
  rcases List.eq_nil_or_concat l with rfl | ⟨l', p, rfl⟩
  · exact h
  · rw [List.concat_eq_append] at *
    simp only [Tiling.mergePrev, List.getLast?_concat, List.dropLast_concat]
    by_cases ht : p.1 + p.2 = c.1
    · rw [if_pos ht]
      have h' : FreeBlocks B (l' ++ p :: c :: r) := by simpa using h
      exact h'.merge ht
    · rw [if_neg ht]
      exact h

/-- A new block between those below and those above. -/
theorem FreeBlocks.insert {l r : List (Nat × Nat)} (h : FreeBlocks B (l ++ r)) (hb8 : 8 ∣ b) (hn8 : 8 ∣ n)
    (hn : 0 < n) (hlow : B.minheap ≤ b) (hhigh : b + n ≤ B.maxheap)
    (hl : ∀ p ∈ l, p.1 + p.2 ≤ b) (hr : ∀ q ∈ r, b + n ≤ q.1) : FreeBlocks B (l ++ (b, n) :: r) := by
  rw [blocks_append] at h ⊢
  rw [blocks_cons]
  refine ⟨h.1, ⟨⟨⟨hb8, hn8⟩, hn, hlow, hhigh⟩, hr, h.2.1⟩, fun c hc d hd => ?_⟩
  rcases List.mem_cons.mp hd with rfl | hd
  · exact hl c hc
  · exact h.2.2 c hc d hd

end Xinu
