import XinuCMips.Heap.Memlist

/-!
# The free list in memory refines a list of blocks

`Stored B m bs` says that the memory `m` holds exactly the blocks `bs`
(address and length), linked in that order from `memlist` to the null
pointer. Under the geometry of a sorted list (`Geometry`: blocks in
increasing order, at least eight bytes apart, inside the heap) the three
allocator calls act on `bs` as the list operations of `Tiling`:

* `getmem_refines` — `getmem` is `takeFirst`;
* `getstk_refines` — `getstk` is `takeLast`;
* `freemem_refines` — `freemem` is `putBack`.

All three edit the list at one place. `Stored.replace` is that edit: the
blocks before and after are left alone and the piece between is replaced.
-/

namespace Xinu

open Thread Tiling

variable {B : HeapBounds}

/-- The pointer to a list of blocks. -/
def nodeOf : List (Nat × Nat) → Nat
  | [] => 0
  | b :: _ => b.1

/-- The node whose `mnext` points past the blocks `pre`. -/
def prevNode (B : HeapBounds) (pre : List (Nat × Nat)) : Nat :=
  (B.memlist :: pre.map Prod.fst).getLast (List.cons_ne_nil _ _)

/-- Where the blocks of a sorted free list can lie. -/
structure Geometry (B : HeapBounds) (bs : List (Nat × Nat)) : Prop where
  spaced : bs.Pairwise fun p q => p.1 + p.2 + 8 ≤ q.1
  pos : ∀ b ∈ bs, 0 < b.2
  inside : ∀ b ∈ bs, B.minheap ≤ b.1 ∧ b.1 + b.2 ≤ B.maxheap

/-- The memory holds the blocks `bs`, linked from `memlist`. -/
structure Stored (B : HeapBounds) (m : Mem) (bs : List (Nat × Nat)) : Prop where
  linked : Threaded (mnext m) (B.memlist :: bs.map Prod.fst ++ [0])
  lengths : ∀ b ∈ bs, mlength m b.1 = b.2

@[simp] theorem prevNode_nil : prevNode B [] = B.memlist := rfl

@[simp] theorem prevNode_concat (pre : List (Nat × Nat)) (b : Nat × Nat) :
    prevNode B (pre ++ [b]) = b.1 := by
  simp [prevNode]

/-- The nodes up to and including `prevNode`. -/
theorem nodes_eq (pre : List (Nat × Nat)) :
    (B.memlist :: pre.map Prod.fst).dropLast ++ [prevNode B pre] =
      B.memlist :: pre.map Prod.fst :=
  List.dropLast_append_getLast _

theorem map_fst_nodeOf (post : List (Nat × Nat)) :
    ∃ r, post.map Prod.fst ++ [0] = nodeOf post :: r := by
  cases post with
  | nil => exact ⟨[], rfl⟩
  | cons b post => exact ⟨post.map Prod.fst ++ [0], rfl⟩

/-! ## Distances between nodes -/

/-- List nodes are at least one `struct memblk` apart. -/
def NodesApart (B : HeapBounds) (bs : List (Nat × Nat)) : Prop :=
  (B.memlist :: bs.map Prod.fst).Pairwise fun x y => x + 8 ≤ y

theorem Geometry.nodes_apart {bs : List (Nat × Nat)} (g : Geometry B bs) : NodesApart B bs := by
  refine List.pairwise_cons.mpr ⟨fun y hy => ?_, List.pairwise_map.mpr (g.spaced.imp ?_)⟩
  · obtain ⟨b, hb, rfl⟩ := List.mem_map.mp hy
    have := (g.inside b hb).1
    have := B.memlist_below
    omega
  · intro p q h
    omega

theorem NodesApart.above_memlist {bs : List (Nat × Nat)} (g : NodesApart B bs) :
    ∀ b ∈ bs, B.memlist + 8 ≤ b.1 :=
  fun _ hb => (List.pairwise_cons.mp g).1 _ (List.mem_map_of_mem hb)

/-- What lies before a position of the list, and what lies after it. -/
structure Around (B : HeapBounds) (pre rest : List (Nat × Nat)) : Prop where
  /-- the nodes before `prevNode` are below it -/
  before : ∀ x ∈ (B.memlist :: pre.map Prod.fst).dropLast, x + 8 ≤ prevNode B pre
  /-- `prevNode` is the last of the blocks before the position -/
  pre_le : ∀ b ∈ pre, b.1 = prevNode B pre ∨ b.1 + 8 ≤ prevNode B pre
  /-- the blocks after the position are above `prevNode` -/
  after : ∀ b ∈ rest, prevNode B pre + 8 ≤ b.1
  /-- `memlist` is `prevNode` or lies below it -/
  head : prevNode B pre = B.memlist ∨ B.memlist + 8 ≤ prevNode B pre

theorem NodesApart.around {pre rest : List (Nat × Nat)} (h : NodesApart B (pre ++ rest)) :
    Around B pre rest := by
  unfold NodesApart at h
  rw [List.map_append, ← List.cons_append, ← nodes_eq, List.pairwise_append] at h
  obtain ⟨hpre, -, hcross⟩ := h
  rw [List.pairwise_append] at hpre
  have hb : ∀ x ∈ (B.memlist :: pre.map Prod.fst).dropLast, x + 8 ≤ prevNode B pre :=
    fun x hx => hpre.2.2 x hx _ (by simp)
  have hmem : ∀ x ∈ B.memlist :: pre.map Prod.fst, x = prevNode B pre ∨ x + 8 ≤ prevNode B pre := by
    intro x hx
    rw [← nodes_eq, List.mem_append, List.mem_singleton] at hx
    exact hx.symm.imp id (hb x)
  refine ⟨hb, fun b hb' => hmem _ (List.mem_cons_of_mem _ (List.mem_map_of_mem hb')), ?_, ?_⟩
  · exact fun b hb' => hcross _ (by simp) _ (List.mem_map_of_mem hb')
  · exact (hmem B.memlist (List.mem_cons_self ..)).imp Eq.symm id

/-- A sorted free list has fewer blocks than the heap has addresses. -/
theorem Geometry.length_lt {bs : List (Nat × Nat)} (g : Geometry B bs) :
    bs.length < B.maxheap := by
  have hsub : ∀ a ∈ bs.map Prod.fst, a ∈ List.range B.maxheap := by
    intro a ha
    obtain ⟨b, hb, rfl⟩ := List.mem_map.mp ha
    have := g.inside b hb
    have := g.pos b hb
    exact List.mem_range.mpr (by omega)
  have hnodup : (bs.map Prod.fst).Nodup := by
    refine List.pairwise_map.mpr (g.spaced.imp fun h => ?_)
    omega
  -- address 0 is below the heap, so the blocks miss at least one address
  have h0 : (0 :: bs.map Prod.fst).Nodup := by
    refine List.nodup_cons.mpr ⟨fun h => ?_, hnodup⟩
    obtain ⟨b, hb, h⟩ := List.mem_map.mp h
    have := (g.inside b hb).1
    have := B.memlist_below
    omega
  have hle := (List.subperm_of_subset h0 (show _ ⊆ List.range B.maxheap from fun a ha => by
    rcases List.mem_cons.mp ha with rfl | ha
    · have := B.nonempty
      exact List.mem_range.mpr (by omega)
    · exact hsub a ha)).length_le
  simp only [List.length_cons, List.length_map, List.length_range] at hle
  omega

/-! ## The one edit -/

theorem Stored.next_prev {m : Mem} {pre rest : List (Nat × Nat)}
    (s : Stored B m (pre ++ rest)) : mnext m (prevNode B pre) = nodeOf rest := by
  obtain ⟨r, hr⟩ := map_fst_nodeOf rest
  have h := s.linked
  rw [List.map_append, List.cons_append, List.append_assoc, hr, ← List.cons_append, ← nodes_eq,
    List.append_assoc] at h
  exact h.next_eq

/-- **The one edit.** Suppose the memory changes only in the link of
`prevNode`, in the length kept in `memlist` and between `lo` and `hi`, a
region above the blocks `pre` and below the blocks `post`. If the new memory
threads `prevNode` through `mid'` to `post`, it stores the list with `mid`
replaced by `mid'`. -/
theorem Stored.edit {m m' : Mem} {pre mid mid' post : List (Nat × Nat)} {lo hi : Nat}
    (g : NodesApart B (pre ++ (mid ++ post))) (s : Stored B m (pre ++ (mid ++ post)))
    (hlo : prevNode B pre + 8 ≤ lo) (hhi : ∀ b ∈ post, hi ≤ b.1)
    (hw : ∀ x, x ≠ prevNode B pre → x ≠ B.memlist + 4 → x < lo ∨ hi ≤ x → m' x = m x)
    (hmid : Threaded (mnext m') (prevNode B pre :: mid'.map Prod.fst ++ [nodeOf post]))
    (hlen : ∀ b ∈ mid', mlength m' b.1 = b.2) :
    Stored B m' (pre ++ (mid' ++ post)) := by
  have ar := g.around
  obtain ⟨r, hr⟩ := map_fst_nodeOf post
  have hold := s.linked
  rw [List.map_append, List.map_append, List.cons_append, List.append_assoc, List.append_assoc, hr,
    ← List.cons_append, ← nodes_eq, List.append_assoc, List.singleton_append] at hold
  -- the untouched tail
  have hpost : Threaded (mnext m') (nodeOf post :: r) := by
    have h := (threaded_split.mp (show Threaded (mnext m)
      (((B.memlist :: pre.map Prod.fst).dropLast ++ prevNode B pre :: mid.map Prod.fst) ++
        nodeOf post :: r) by simpa using hold)).2
    refine h.congr fun x hx => ?_
    rw [← hr, List.dropLast_concat] at hx
    obtain ⟨b, hb, rfl⟩ := List.mem_map.mp hx
    have := hhi b hb
    have := ar.after b (by simp [hb])
    have := g.above_memlist b (by simp [hb])
    exact hw _ (by omega) (by omega) (by omega)
  -- the new middle, joined to the tail
  have hnew : Threaded (mnext m') (prevNode B pre :: (mid'.map Prod.fst ++ nodeOf post :: r)) := by
    rw [← List.cons_append]
    exact threaded_split.mpr ⟨hmid, hpost⟩
  -- the lengths of the blocks on either side
  have hlens : ∀ b ∈ pre ++ post, mlength m' b.1 = mlength m b.1 := by
    intro b hb
    rcases List.mem_append.mp hb with hb | hb
    · have := ar.pre_le b hb
      have := g.above_memlist b (by simp [hb])
      exact hw _ (by omega) (by omega) (by omega)
    · have := hhi b hb
      have := ar.after b (by simp [hb])
      have := g.above_memlist b (by simp [hb])
      exact hw _ (by omega) (by omega) (by omega)
  refine ⟨?_, ?_⟩
  · rw [List.map_append, List.map_append, List.cons_append, List.append_assoc, List.append_assoc,
      hr, ← List.cons_append, ← nodes_eq, List.append_assoc, List.singleton_append]
    rw [threaded_split] at hold ⊢
    refine ⟨hold.1.congr fun x hx => ?_, hnew⟩
    rw [List.dropLast_concat] at hx
    have hx8 := ar.before x hx
    have hx' : x = B.memlist ∨ B.memlist + 8 ≤ x := by
      rcases List.mem_cons.mp (List.dropLast_subset _ hx) with rfl | hx
      · exact Or.inl rfl
      · obtain ⟨b, hb, rfl⟩ := List.mem_map.mp hx
        exact Or.inr (g.above_memlist b (by simp [hb]))
    exact hw x (by omega) (by omega) (by omega)
  · intro b hb
    rcases List.mem_append.mp hb with hb | hb
    · rw [hlens b (by simp [hb])]
      exact s.lengths b (by simp [hb])
    · rcases List.mem_append.mp hb with hb | hb
      · exact hlen b hb
      · rw [hlens b (by simp [hb])]
        exact s.lengths b (by simp [hb])

/-! ## `getmem` -/

/-- What an allocation of `n` bytes leaves in memory, given the outcome of
the corresponding list operation. -/
def Allocated (B : HeapBounds) (n : Nat) (m : Mem) (res : Option Nat × Mem) :
    Option (Nat × List (Nat × Nat)) → Prop
  | none => res = (none, m)
  | some (r, bs) => res.1 = some r ∧ Stored B res.2 bs ∧
      mlength res.2 B.memlist = usub (mlength m B.memlist) n

/-- The exact-fit edit: `prevNode` skips the block `c`. -/
theorem Stored.unlink {m : Mem} {pre post : List (Nat × Nat)} {c : Nat × Nat}
    (g : Geometry B (pre ++ c :: post)) (s : Stored B m (pre ++ c :: post)) (v : Nat) :
    Stored B (setMlength (setMnext m (prevNode B pre) (mnext m c.1)) B.memlist v) (pre ++ post) ∧
      mlength (setMnext m (prevNode B pre) (mnext m c.1)) B.memlist = mlength m B.memlist := by
  have ar := g.nodes_apart.around
  have hhead := ar.head
  have hc := ar.after c (by simp)
  have hnext : mnext m c.1 = nodeOf post := by
    have h := (show Stored B m ((pre ++ [c]) ++ post) by simpa using s).next_prev
    rwa [prevNode_concat] at h
  refine ⟨?_, by rw [mlength_setMnext (by omega)]⟩
  have g' : NodesApart B (pre ++ ([c] ++ post)) := by simpa using g.nodes_apart
  have s' : Stored B m (pre ++ ([c] ++ post)) := by simpa using s
  have h := @Stored.edit B m
    (setMlength (setMnext m (prevNode B pre) (mnext m c.1)) B.memlist v) pre [c] [] post c.1 c.1
    g' s' hc ?_ ?_ ?_ (by simp)
  · simpa using h
  · intro b hb
    have := (List.pairwise_append.mp g.spaced).2.1
    have := (List.pairwise_cons.mp this).1 b hb
    omega
  · intro x hx hx' _
    simp [setMlength, setMnext, hx, hx']
  · rw [List.map_nil, List.singleton_append, threaded_cons_cons,
      mnext_setMlength (by omega), mnext_setMnext_same]
    exact ⟨hnext, threaded_singleton _ _⟩

/-- The shrinking edit: the block `c` is replaced by a smaller one that lies
inside it. -/
theorem Stored.resize {m m' : Mem} {pre post : List (Nat × Nat)} {c c' : Nat × Nat}
    (g : Geometry B (pre ++ c :: post)) (s : Stored B m (pre ++ c :: post))
    (hlo : c.1 ≤ c'.1) (hhi : c'.1 ≤ c.1 + c.2)
    (hw : ∀ x, x ≠ prevNode B pre → x ≠ B.memlist + 4 → x ≠ c'.1 → x ≠ c'.1 + 4 → m' x = m x)
    (hprev : mnext m' (prevNode B pre) = c'.1) (hnext : mnext m' c'.1 = mnext m c.1)
    (hlen : mlength m' c'.1 = c'.2) : Stored B m' (pre ++ c' :: post) := by
  have hc := g.nodes_apart.around.after c (by simp)
  have hcn : mnext m c.1 = nodeOf post := by
    have h := (show Stored B m ((pre ++ [c]) ++ post) by simpa using s).next_prev
    rwa [prevNode_concat] at h
  have g' : NodesApart B (pre ++ ([c] ++ post)) := by simpa using g.nodes_apart
  have s' : Stored B m (pre ++ ([c] ++ post)) := by simpa using s
  have h := @Stored.edit B m m' pre [c] [c'] post c.1 (c.1 + c.2 + 8) g' s' hc ?_ ?_ ?_ ?_
  · simpa using h
  · intro b hb
    have := (List.pairwise_append.mp g.spaced).2.1
    exact (List.pairwise_cons.mp this).1 b hb
  · intro x h1 h2 h3
    exact hw x h1 h2 (by omega) (by omega)
  · rw [List.map_singleton, List.cons_append, List.singleton_append, threaded_cons_cons,
      threaded_cons_cons]
    exact ⟨hprev, hnext.trans hcn, threaded_singleton _ _⟩
  · intro b hb
    rw [List.mem_singleton.mp hb]
    exact hlen

/-- **The search loop.** Started at a position of the stored list, the loop
of `getmem` does what `takeFirst` does to the blocks from there on. -/
theorem getmemLoop_refines {m : Mem} {n : Nat} (hn : 8 ≤ n) :
    ∀ {rest pre : List (Nat × Nat)} {fuel : Nat}, rest.length < fuel →
      Geometry B (pre ++ rest) → Stored B m (pre ++ rest) →
      Allocated B n m (getmemLoop B n fuel (prevNode B pre) (nodeOf rest) m)
        ((takeFirst n rest).map fun r => (r.1, pre ++ r.2)) := by
  intro rest
  induction rest with
  | nil =>
    intro pre fuel hf _ _
    obtain ⟨k, rfl⟩ : ∃ k, fuel = k + 1 := ⟨fuel - 1, by simp at hf; omega⟩
    simp [getmemLoop, nodeOf, takeFirst, Allocated]
  | cons c rest ih =>
    intro pre fuel hf g s
    obtain ⟨k, rfl⟩ : ∃ k, fuel = k + 1 := ⟨fuel - 1, by simp at hf; omega⟩
    obtain ⟨a, l⟩ := c
    have hin := g.inside (a, l) (by simp)
    have hbelow := B.memlist_below
    have hpos := B.memlist_pos
    have haddr := B.addressable
    have hal : mlength m a = l := s.lengths (a, l) (by simp)
    simp only [nodeOf]
    rw [getmemLoop, if_neg (by simp only at hin; omega), hal, takeFirst]
    have ar := g.nodes_apart.around
    have hhead := ar.head
    have ha := ar.after (a, l) (by simp)
    simp only at ha hin
    by_cases hexact : l = n
    · -- exact fit
      rw [if_pos hexact, if_pos hexact]
      obtain ⟨hst, hml⟩ := s.unlink g (usub (mlength m B.memlist) n)
      simp only [Option.map_some, Allocated]
      rw [hml]
      exact ⟨trivial, hst, mlength_setMlength_same ..⟩
    · rw [if_neg hexact, if_neg hexact]
      by_cases hlt : n < l
      · -- split: the leftover takes the block's place
        have hu : uint32 (a + n) = a + n := Nat.mod_eq_of_lt (by omega)
        have hs : usub l n = l - n := by
          unfold usub uint32
          omega
        rw [if_pos hlt, if_pos hlt, hu]
        simp only [Option.map_some, Allocated]
        rw [mlength_setMnext (show a + 4 ≠ a + n by omega), mlength_setMnext (by omega), hal, hs,
          mnext_setMnext (show a ≠ prevNode B pre by omega)]
        refine ⟨trivial, s.resize g (by simp) (by simp; omega) ?_ ?_ ?_ ?_, ?_⟩
        · intro x h1 h2 h3 h4
          simp only at h3 h4
          simp [setMlength, setMnext, h1, h2, h3, h4]
        · rw [mnext_setMlength (by omega), mnext_setMlength (by omega), mnext_setMnext (by omega),
            mnext_setMnext_same]
        · rw [mnext_setMlength (by simp only; omega), mnext_setMlength (by simp),
            mnext_setMnext_same]
        · rw [mlength_setMlength (by simp only; omega), mlength_setMlength_same]
        · rw [mlength_setMlength_same, mlength_setMlength (by omega), mlength_setMnext (by omega),
            mlength_setMnext (by omega)]
      · -- too small: move on
        rw [if_neg hlt, if_neg hlt, Option.map_map]
        have hnext : mnext m a = nodeOf rest := by
          have h := (show Stored B m ((pre ++ [(a, l)]) ++ rest) by simpa using s).next_prev
          rwa [prevNode_concat] at h
        have h := @ih (pre ++ [(a, l)]) k (by simpa using hf) (by simpa using g) (by simpa using s)
        rw [prevNode_concat] at h
        rw [hnext]
        simpa [Function.comp_def] using h

/-- Rounding a nonzero request that leaves room for it. -/
theorem roundmb_bounds {n : Nat} (h0 : 0 < n) (hn : n ≤ 2 ^ 32 - 8) :
    8 ≤ roundmb n ∧ n ≤ roundmb n ∧ roundmb n ≤ n + 7 := by
  unfold roundmb uint32
  omega

/-- **`getmem` is first fit.** -/
theorem getmem_refines {m : Mem} {bs : List (Nat × Nat)} {n : Nat} (g : Geometry B bs)
    (s : Stored B m bs) (h0 : 0 < n) (hn : n ≤ 2 ^ 32 - 8) :
    Allocated B (roundmb n) m (getmem B n m) (takeFirst (roundmb n) bs) := by
  have hnext : mnext m B.memlist = nodeOf bs :=
    (show Stored B m ([] ++ bs) from s).next_prev
  have h := @getmemLoop_refines B m _ (roundmb_bounds h0 hn).1 bs [] B.maxheap g.length_lt g s
  rw [getmem, if_neg (by omega), hnext]
  simpa using h

/-! ## `getstk` -/

/-- Nothing fits: the scan keeps its candidate. -/
theorem getstkLoop_none {m : Mem} {n : Nat} :
    ∀ {rest pre : List (Nat × Nat)} {fuel : Nat} {fit : Nat × Nat}, rest.length < fuel →
      Stored B m (pre ++ rest) → (∀ b ∈ rest, 0 < b.1 ∧ b.2 < n) →
      getstkLoop n fuel (prevNode B pre) (nodeOf rest) fit m = fit := by
  intro rest
  induction rest with
  | nil =>
    intro pre fuel fit hf _ _
    obtain ⟨k, rfl⟩ : ∃ k, fuel = k + 1 := ⟨fuel - 1, by simp at hf; omega⟩
    simp [getstkLoop, nodeOf]
  | cons c rest ih =>
    intro pre fuel fit hf s hsmall
    obtain ⟨k, rfl⟩ : ∃ k, fuel = k + 1 := ⟨fuel - 1, by simp at hf; omega⟩
    have hc := hsmall c (by simp)
    have hlen : mlength m c.1 = c.2 := s.lengths c (by simp)
    have s' : Stored B m ((pre ++ [c]) ++ rest) := by simpa using s
    have hnext := s'.next_prev
    rw [prevNode_concat] at hnext
    rw [nodeOf, getstkLoop, if_neg (by omega), hlen, if_neg (by omega), hnext]
    have h := @ih (pre ++ [c]) k fit (by simpa using hf) s'
      fun b hb => hsmall b (List.mem_cons_of_mem _ hb)
    rwa [prevNode_concat] at h

/-- **The scan of `getstk`** ends with the last block that fits and the node
before it. -/
theorem getstkLoop_last {m : Mem} {n : Nat} {c : Nat × Nat} {post : List (Nat × Nat)}
    (hc : n ≤ c.2) (hpost : ∀ b ∈ post, b.2 < n) :
    ∀ {mid pre : List (Nat × Nat)} {fuel : Nat} {fit : Nat × Nat},
      (mid ++ c :: post).length < fuel → Stored B m (pre ++ (mid ++ c :: post)) →
      (∀ b ∈ mid ++ c :: post, 0 < b.1) →
      getstkLoop n fuel (prevNode B pre) (nodeOf (mid ++ c :: post)) fit m =
        (c.1, prevNode B (pre ++ mid)) := by
  intro mid
  induction mid with
  | nil =>
    intro pre fuel fit hf s hpos
    obtain ⟨k, rfl⟩ : ∃ k, fuel = k + 1 := ⟨fuel - 1, by simp at hf; omega⟩
    have hcpos := hpos c (by simp)
    have hlen : mlength m c.1 = c.2 := s.lengths c (by simp)
    have s' : Stored B m ((pre ++ [c]) ++ post) := by simpa using s
    have hnext := s'.next_prev
    rw [prevNode_concat] at hnext
    rw [List.nil_append, nodeOf, getstkLoop, if_neg (by omega), hlen, if_pos hc, hnext]
    have h := @getstkLoop_none B m n post (pre ++ [c]) k (c.1, prevNode B pre) (by simpa using hf)
      s' fun b hb => ⟨hpos b (by simp [hb]), hpost b hb⟩
    rw [prevNode_concat] at h
    rw [h, List.append_nil]
  | cons d mid ih =>
    intro pre fuel fit hf s hpos
    obtain ⟨k, rfl⟩ : ∃ k, fuel = k + 1 := ⟨fuel - 1, by simp at hf; omega⟩
    have hdpos := hpos d (by simp)
    have s' : Stored B m ((pre ++ [d]) ++ (mid ++ c :: post)) := by simpa using s
    have hnext := s'.next_prev
    rw [prevNode_concat] at hnext
    rw [List.cons_append, nodeOf, getstkLoop, if_neg (by omega), hnext]
    have h := @ih (pre ++ [d]) k (if n ≤ mlength m d.1 then (d.1, prevNode B pre) else fit)
      (by simpa using hf) s' fun b hb => hpos b (List.mem_cons_of_mem _ hb)
    rw [prevNode_concat] at h
    rw [h, List.append_assoc, List.singleton_append]

theorem takeLast_none {n : Nat} {bs : List (Nat × Nat)} (h : ∀ b ∈ bs, b.2 < n) :
    takeLast n bs = none := by
  induction bs with
  | nil => rfl
  | cons b bs ih =>
    have hb := h b (by simp)
    rw [takeLast, ih fun b hb => h b (List.mem_cons_of_mem _ hb)]
    simp only
    rw [if_neg (by omega), if_neg (by omega)]

theorem takeLast_last {n : Nat} {c : Nat × Nat} {post : List (Nat × Nat)} (hc : n ≤ c.2)
    (hpost : ∀ b ∈ post, b.2 < n) (pre : List (Nat × Nat)) :
    takeLast n (pre ++ c :: post) =
      if c.2 = n then some (c.1, pre ++ post)
      else some (c.1 + (c.2 - n), pre ++ (c.1, c.2 - n) :: post) := by
  induction pre with
  | nil =>
    rw [List.nil_append, takeLast, takeLast_none hpost]
    simp only
    by_cases h : c.2 = n
    · rw [if_pos h, if_pos h, List.nil_append]
    · rw [if_neg h, if_pos (by omega), if_neg h, List.nil_append]
  | cons d pre ih =>
    rw [List.cons_append, takeLast, ih]
    by_cases h : c.2 = n
    · rw [if_pos h, if_pos h]
      rfl
    · rw [if_neg h, if_neg h]
      rfl

theorem exists_last_fit {n : Nat} {bs : List (Nat × Nat)} (h : ¬ ∀ b ∈ bs, b.2 < n) :
    ∃ pre c post, bs = pre ++ c :: post ∧ n ≤ c.2 ∧ ∀ b ∈ post, b.2 < n := by
  induction bs with
  | nil => simp at h
  | cons b bs ih =>
    by_cases hbs : ∀ b ∈ bs, b.2 < n
    · refine ⟨[], b, bs, rfl, ?_, hbs⟩
      by_contra hb
      refine h fun x hx => ?_
      rcases List.mem_cons.mp hx with rfl | hx
      · omega
      · exact hbs x hx
    · obtain ⟨pre, c, post, rfl, hc⟩ := ih hbs
      exact ⟨b :: pre, c, post, rfl, hc⟩

/-- **`getstk` is last fit.** The address it returns is the highest word of
the block that `takeLast` carves. -/
theorem getstk_refines {m : Mem} {bs : List (Nat × Nat)} {n : Nat} (g : Geometry B bs)
    (s : Stored B m bs) (h0 : 0 < n) (hn : n ≤ 2 ^ 32 - 8) :
    Allocated B (roundmb n) m
      ((getstk B n m).1.map fun p => p + 4 - roundmb n, (getstk B n m).2)
      (takeLast (roundmb n) bs) ∧ ∀ p, (getstk B n m).1 = some p → roundmb n ≤ p + 4 := by
  have hn8 := (roundmb_bounds h0 hn).1
  have hn7 := (roundmb_bounds h0 hn).2.2
  have hbelow := B.memlist_below
  have haddr := B.addressable
  have hpos : ∀ b ∈ bs, 0 < b.1 := fun b hb => by
    have := (g.inside b hb).1
    omega
  have hnext : mnext m B.memlist = nodeOf bs :=
    (show Stored B m ([] ++ bs) from s).next_prev
  rw [getstk, if_neg (by omega), hnext]
  by_cases hnone : ∀ b ∈ bs, b.2 < roundmb n
  · have h := @getstkLoop_none B m (roundmb n) bs [] B.maxheap (0, 0) g.length_lt s
      fun b hb => ⟨hpos b hb, hnone b hb⟩
    rw [prevNode_nil] at h
    simp only [h, if_true, takeLast_none hnone]
    exact ⟨rfl, by simp⟩
  · obtain ⟨pre, c, post, rfl, hc, hpost⟩ := exists_last_fit hnone
    have h := @getstkLoop_last B m (roundmb n) c post hc hpost pre [] B.maxheap (0, 0)
      g.length_lt s hpos
    rw [prevNode_nil, List.nil_append] at h
    have hcpos := hpos c (by simp)
    have hlen : mlength m c.1 = c.2 := s.lengths c (by simp)
    have hin := g.inside c (by simp)
    have ar := g.nodes_apart.around
    have hhead := ar.head
    have hca := ar.after c (by simp)
    simp only [h, if_neg (show ¬ c.1 = 0 by omega), hlen, takeLast_last hc hpost]
    by_cases hexact : c.2 = roundmb n
    · -- the whole block goes
      obtain ⟨hst, hml⟩ := s.unlink g (usub (mlength m B.memlist) (roundmb n))
      have htop : usub (uint32 (c.1 + roundmb n)) 4 = c.1 + roundmb n - 4 := by
        unfold usub uint32
        omega
      rw [if_pos hexact.symm, if_pos hexact, hml]
      simp only [Allocated, Option.map_some, htop, Option.some.injEq, forall_eq']
      exact ⟨⟨by omega, hst, mlength_setMlength_same ..⟩, by omega⟩
    · -- the top section goes, the block shrinks
      have hs : usub c.2 (roundmb n) = c.2 - roundmb n := by
        unfold usub uint32
        omega
      have hfits : uint32 (c.1 + (c.2 - roundmb n)) = c.1 + (c.2 - roundmb n) :=
        Nat.mod_eq_of_lt (by omega)
      have htop : usub (uint32 (c.1 + (c.2 - roundmb n) + roundmb n)) 4 = c.1 + c.2 - 4 := by
        unfold usub uint32
        omega
      rw [if_neg (Ne.symm hexact), if_neg hexact]
      simp only [Allocated, Option.map_some, Option.some.injEq, forall_eq']
      rw [hs, mlength_setMlength_same, hfits, htop, mlength_setMlength (by omega)]
      refine ⟨⟨by omega, s.resize g (by simp) (by simp) ?_ ?_ ?_ ?_,
        mlength_setMlength_same ..⟩, by omega⟩
      · intro x h1 h2 h3 h4
        simp only at h3 h4
        simp [setMlength, h2, h4]
      · rw [mnext_setMlength (by omega), mnext_setMlength (by omega), s.next_prev]
        rfl
      · rw [mnext_setMlength (by simp only; omega), mnext_setMlength (by simp)]
      · rw [mlength_setMlength (by simp only; omega), mlength_setMlength_same]

/-! ## `freemem` -/

/-- **The walk of `freemem`** stops between the blocks below the freed one
and those above it. -/
theorem freememLoop_stops {m : Mem} {block : Nat} {post : List (Nat × Nat)}
    (hpost : ∀ b ∈ post, block ≤ b.1) :
    ∀ {mid pre : List (Nat × Nat)} {fuel : Nat}, mid.length < fuel →
      Stored B m (pre ++ (mid ++ post)) → (∀ b ∈ mid, 0 < b.1 ∧ b.1 < block) →
      freememLoop block fuel (prevNode B pre) (nodeOf (mid ++ post)) m =
        (prevNode B (pre ++ mid), nodeOf post) := by
  intro mid
  induction mid with
  | nil =>
    intro pre fuel hf _ _
    obtain ⟨k, rfl⟩ : ∃ k, fuel = k + 1 := ⟨fuel - 1, by simp at hf; omega⟩
    rw [List.nil_append, List.append_nil, freememLoop, if_neg]
    rintro ⟨hne, hlt⟩
    cases post with
    | nil => exact hne rfl
    | cons b post =>
      have := hpost b (by simp)
      simp only [nodeOf] at hlt
      omega
  | cons d mid ih =>
    intro pre fuel hf s hbelow
    obtain ⟨k, rfl⟩ : ∃ k, fuel = k + 1 := ⟨fuel - 1, by simp at hf; omega⟩
    have hd := hbelow d (by simp)
    have s' : Stored B m ((pre ++ [d]) ++ (mid ++ post)) := by simpa using s
    have hnext := s'.next_prev
    rw [prevNode_concat] at hnext
    rw [List.cons_append, nodeOf, freememLoop, if_pos ⟨by omega, hd.2⟩, hnext]
    have h := @ih (pre ++ [d]) k (by simpa using hf) s'
      fun b hb => hbelow b (List.mem_cons_of_mem _ hb)
    rw [prevNode_concat] at h
    rw [h, List.append_assoc, List.singleton_append]

/-- The walk from the head of the list, to the blocks `l` below the freed one
and `r` above it. -/
theorem freemem_walk {m : Mem} {l r : List (Nat × Nat)} {a : Nat} (g : Geometry B (l ++ r))
    (s : Stored B m (l ++ r)) (hl : ∀ b ∈ l, b.1 < a) (hr : ∀ b ∈ r, a ≤ b.1) :
    freememLoop a B.maxheap B.memlist (mnext m B.memlist) m = (prevNode B l, nodeOf r) := by
  have hnext : mnext m B.memlist = nodeOf (l ++ r) :=
    (show Stored B m ([] ++ (l ++ r)) from s).next_prev
  have hlen : l.length < B.maxheap := by
    have := g.length_lt
    rw [List.length_append] at this
    omega
  rw [hnext]
  have h := @freememLoop_stops B m a r hr l [] B.maxheap hlen s fun b hb => by
    have := (g.inside b (by simp [hb])).1
    have := B.memlist_below
    have := hl b hb
    omega
  simpa using h

/-- Where a block being freed lies relative to the free list. -/
structure Between (B : HeapBounds) (l r : List (Nat × Nat)) (a n : Nat) : Prop where
  below : ∀ b ∈ l, b.1 + b.2 = a ∨ b.1 + b.2 + 8 ≤ a
  above : ∀ b ∈ r, a + n ≤ b.1
  low : B.minheap ≤ a
  high : a + n ≤ B.maxheap

/-- Linking the block in, or growing the block it touches from above: the
first half of `freemem`. -/
theorem Stored.insert {m : Mem} {l r : List (Nat × Nat)} {a n : Nat} (g : Geometry B (l ++ r))
    (s : Stored B m (l ++ r)) (hb : Between B l r a n) (hn : 8 ≤ n) (v : Nat) :
    let res := freememLink (prevNode B l) (nodeOf r) (topOf B (prevNode B l) m) a n
      (setMlength m B.memlist v)
    res.1 = (mergePrev l (a, n)).2.1 ∧
      Stored B res.2 ((mergePrev l (a, n)).1 ++ (mergePrev l (a, n)).2 :: r) ∧
      mlength res.2 B.memlist = v := by
  intro res
  set m₁ := setMlength m B.memlist v with hm₁
  set top := topOf B (prevNode B l) m with htopdef
  have haddr := B.addressable
  have hpos := B.memlist_pos
  have hbelow := B.memlist_below
  have hlow := hb.low
  have hhigh := hb.high
  have ar := g.nodes_apart.around
  -- the case of a block that stands alone
  have hinsert : top ≠ a → mergePrev l (a, n) = (l, (a, n)) → prevNode B l + 8 ≤ a →
      res.1 = (mergePrev l (a, n)).2.1 ∧
      Stored B res.2 ((mergePrev l (a, n)).1 ++ (mergePrev l (a, n)).2 :: r) ∧
      mlength res.2 B.memlist = v := by
    intro htop hmp hprev
    have hhead := ar.head
    have hres : res = (a, setMnext (setMlength (setMnext m₁ a (nodeOf r)) a n) (prevNode B l) a) :=
      if_neg htop
    rw [hres, hmp]
    refine ⟨rfl, ?_, ?_⟩
    · refine @Stored.edit B m _ l [] [(a, n)] r a (a + n) g.nodes_apart s hprev
        (fun b hb' => hb.above b hb') ?_ ?_ ?_
      · intro x h1 h2 h3
        have h4 : x ≠ a := by omega
        have h5 : x ≠ a + 4 := by omega
        simp [hm₁, setMlength, setMnext, h1, h2, h4, h5]
      · rw [List.map_singleton, List.cons_append, List.singleton_append, threaded_cons_cons,
          threaded_cons_cons, mnext_setMnext_same, mnext_setMnext (by omega),
          mnext_setMlength (by omega), mnext_setMnext_same]
        exact ⟨rfl, rfl, threaded_singleton _ _⟩
      · intro b hb'
        rw [List.mem_singleton.mp hb', mlength_setMnext (by simp only; omega),
          mlength_setMlength_same]
    · rw [mlength_setMnext (by omega), mlength_setMlength (by omega), mlength_setMnext (by omega),
        mlength_setMlength_same]
  rcases List.eq_nil_or_concat l with rfl | ⟨l', p, hl⟩
  · refine hinsert ?_ rfl (by rw [prevNode_nil]; omega)
    have : top = 0 := if_pos rfl
    omega
  · rw [List.concat_eq_append] at hl
    subst hl
    have hp := g.inside p (by simp)
    have hpb := hb.below p (by simp)
    have hlen : mlength m p.1 = p.2 := s.lengths p (by simp)
    have hne : p.1 ≠ B.memlist := by omega
    have htop : top = p.1 + p.2 := by
      rw [htopdef, topOf, prevNode_concat, if_neg hne, hlen]
      exact Nat.mod_eq_of_lt (by omega)
    by_cases htouch : p.1 + p.2 = a
    · -- the block below grows
      have hmp : mergePrev (l' ++ [p]) (a, n) = (l', (p.1, p.2 + n)) := by
        simp [mergePrev, htouch]
      have hlen₁ : mlength m₁ p.1 = p.2 := by
        rw [hm₁, mlength_setMlength hne, hlen]
      have hsum : uint32 (p.2 + n) = p.2 + n := Nat.mod_eq_of_lt (by omega)
      have hres : res = (p.1, setMlength m₁ p.1 (p.2 + n)) := by
        simp only [res]
        rw [freememLink, if_pos (htop.trans htouch), prevNode_concat, hlen₁, hsum]
      have s' : Stored B m (l' ++ p :: r) := by simpa using s
      have g' : Geometry B (l' ++ p :: r) := by simpa using g
      have hhead := g'.nodes_apart.around.head
      have hpa := g'.nodes_apart.around.after p (by simp)
      rw [hres, hmp]
      refine ⟨rfl, s'.resize g' (by simp) (by simp) ?_ ?_ ?_ ?_, ?_⟩
      · intro x _ h2 _ h4
        simp only at h4
        simp [hm₁, setMlength, h2, h4]
      · show mnext _ (prevNode B l') = _
        rw [hm₁, mnext_setMlength (by omega), mnext_setMlength (by omega), s'.next_prev]
        rfl
      · show mnext _ p.1 = _
        rw [hm₁, mnext_setMlength (by omega), mnext_setMlength (by omega)]
      · exact mlength_setMlength_same ..
      · rw [hm₁, mlength_setMlength (by omega), mlength_setMlength_same]
    · refine hinsert (by omega) (by simp [mergePrev, htouch]) ?_
      have hpos' := g.pos p (by simp)
      rw [prevNode_concat]
      omega

/-- Absorbing the next block when the two touch: the second half of
`freemem`. -/
theorem Stored.absorb {m : Mem} {l r : List (Nat × Nat)} {b : Nat × Nat}
    (na : NodesApart B (l ++ b :: r)) (s : Stored B m (l ++ b :: r))
    (hfit : ∀ q ∈ b :: r, q.1 + q.2 ≤ B.maxheap) (hpos : 0 < b.2) :
    let res := freememCoalesce b.1 (nodeOf r) m
    Stored B res (l ++ mergeNext b r) ∧ mlength res B.memlist = mlength m B.memlist := by
  intro res
  have haddr := B.addressable
  have hbfit := hfit b (by simp)
  have hblen : mlength m b.1 = b.2 := s.lengths b (by simp)
  have hend : uint32 (b.1 + b.2) = b.1 + b.2 := Nat.mod_eq_of_lt (by omega)
  cases r with
  | nil =>
    have hres : res = m := by
      simp only [res, freememCoalesce, hblen, hend]
      exact if_neg (by simp only [nodeOf]; omega)
    rw [hres]
    exact ⟨s, rfl⟩
  | cons q r =>
    by_cases htouch : b.1 + b.2 = q.1
    · have hqfit := hfit q (by simp)
      have hqlen : mlength m q.1 = q.2 := s.lengths q (by simp)
      have hsum : uint32 (b.2 + q.2) = b.2 + q.2 := Nat.mod_eq_of_lt (by omega)
      have ar := na.around
      have hb8 := ar.after b (by simp)
      have hhead := ar.head
      have hq8 : b.1 + 8 ≤ q.1 := by
        have h := (List.pairwise_cons.mp na).2
        rw [List.map_append, List.pairwise_append] at h
        have h := h.2.1
        rw [List.map_cons, List.pairwise_cons] at h
        exact h.1 q.1 (by simp)
      have hqn : mnext m q.1 = nodeOf r := by
        have h := (show Stored B m ((l ++ [b, q]) ++ r) by simpa using s).next_prev
        rwa [show l ++ [b, q] = (l ++ [b]) ++ [q] by simp, prevNode_concat] at h
      have hres : res = setMnext (setMlength m b.1 (b.2 + q.2)) b.1 (nodeOf r) := by
        have hcond : uint32 (b.1 + mlength m b.1) = nodeOf (q :: r) := by
          rw [hblen, hend]
          exact htouch
        simp only [res, freememCoalesce]
        rw [if_pos hcond, show nodeOf (q :: r) = q.1 from rfl, hblen, hqlen, hsum,
          mnext_setMlength (by omega), hqn]
      have hmn : mergeNext b (q :: r) = (b.1, b.2 + q.2) :: r := by
        simp [mergeNext, htouch]
      rw [hres, hmn]
      refine ⟨?_, by rw [mlength_setMnext (by omega), mlength_setMlength (by omega)]⟩
      have na' : NodesApart B (l ++ ([b, q] ++ r)) := by simpa using na
      have s' : Stored B m (l ++ ([b, q] ++ r)) := by simpa using s
      refine @Stored.edit B m _ l [b, q] [(b.1, b.2 + q.2)] r b.1 (b.1 + 8) na' s' hb8 ?_ ?_ ?_ ?_
      · intro c hc
        have h := (List.pairwise_cons.mp na).2
        rw [List.map_append, List.pairwise_append] at h
        have h := h.2.1
        rw [List.map_cons, List.pairwise_cons] at h
        exact h.1 c.1 (by simp [List.mem_map_of_mem hc])
      · intro x _ _ h3
        have h4 : x ≠ b.1 := by omega
        have h5 : x ≠ b.1 + 4 := by omega
        simp [setMlength, setMnext, h4, h5]
      · rw [List.map_singleton, List.cons_append, List.singleton_append, threaded_cons_cons,
          threaded_cons_cons, mnext_setMnext_same, mnext_setMnext (by omega),
          mnext_setMlength (by omega)]
        exact ⟨s.next_prev, rfl, threaded_singleton _ _⟩
      · intro c hc
        rw [List.mem_singleton.mp hc, mlength_setMnext (by simp), mlength_setMlength_same]
    · have hres : res = m := by
        simp only [res, freememCoalesce, hblen, hend]
        exact if_neg htouch
      have hmn : mergeNext b (q :: r) = b :: q :: r := by
        simp [mergeNext, htouch]
      rw [hres, hmn]
      exact ⟨s, rfl⟩

/-- The block that results from merging with the list below, with its
distance from the other nodes. -/
theorem NodesApart.mergePrev {l r : List (Nat × Nat)} {a n : Nat} (g : Geometry B (l ++ r))
    (hb : Between B l r a n) (hn : 8 ≤ n) :
    NodesApart B ((mergePrev l (a, n)).1 ++ (mergePrev l (a, n)).2 :: r) ∧
      (mergePrev l (a, n)).2.1 + (mergePrev l (a, n)).2.2 = a + n ∧
      0 < (mergePrev l (a, n)).2.2 := by
  have hna := g.nodes_apart
  have hbelow := B.memlist_below
  have hlow := hb.low
  -- the block standing alone is a node of its own
  have halone : (∀ b ∈ l, b.1 + 8 ≤ a) → NodesApart B (l ++ (a, n) :: r) := by
    intro hl
    unfold NodesApart at hna ⊢
    rw [List.map_append, ← List.cons_append, List.pairwise_append] at hna ⊢
    refine ⟨hna.1, List.pairwise_cons.mpr ⟨fun y hy => ?_, hna.2.1⟩, fun x hx y hy => ?_⟩
    · obtain ⟨q, hq, rfl⟩ := List.mem_map.mp hy
      have := hb.above q hq
      omega
    · rcases List.mem_cons.mp hy with rfl | hy
      · rcases List.mem_cons.mp hx with rfl | hx
        · omega
        · obtain ⟨c, hc, rfl⟩ := List.mem_map.mp hx
          exact hl c hc
      · exact hna.2.2 x hx y hy
  rcases List.eq_nil_or_concat l with rfl | ⟨l', p, hl⟩
  · exact ⟨halone (by simp), rfl, by simp only [Tiling.mergePrev, List.getLast?_nil]; omega⟩
  · rw [List.concat_eq_append] at hl
    subst hl
    have hpb := hb.below p (by simp)
    have hpos := g.pos p (by simp)
    simp only [Tiling.mergePrev, List.getLast?_concat, List.dropLast_concat]
    by_cases htouch : p.1 + p.2 = a
    · rw [if_pos htouch]
      refine ⟨?_, by simp only; omega, by simp only; omega⟩
      unfold NodesApart at hna ⊢
      simpa using hna
    · rw [if_neg htouch]
      refine ⟨halone fun c hc => ?_, rfl, by simp only; omega⟩
      -- only the last block can touch `a`
      have hcp := g.spaced
      rw [List.append_assoc, List.pairwise_append] at hcp
      have hcb := hb.below c hc
      rcases List.mem_append.mp hc with hc | hc
      · have := hcp.2.2 c hc p (by simp)
        omega
      · rw [List.mem_singleton] at hc
        subst hc
        omega

/-- **`freemem` is `putBack`.** A block that lies between the blocks `l` and
`r` of the free list is merged with them or linked in. -/
theorem freemem_refines {m : Mem} {l r : List (Nat × Nat)} {a n : Nat}
    (g : Geometry B (l ++ r)) (s : Stored B m (l ++ r)) (h0 : 0 < n) (hn : n ≤ 2 ^ 32 - 8)
    (hb : Between B l r a (roundmb n)) :
    (freemem B a n m).1 = OK ∧ Stored B (freemem B a n m).2 (putBack l (a, roundmb n) r) ∧
      mlength (freemem B a n m).2 B.memlist = uint32 (mlength m B.memlist + roundmb n) := by
  have hn8 := (roundmb_bounds h0 hn).1
  have haddr := B.addressable
  have hbelow := B.memlist_below
  have hlow := hb.low
  have hhigh := hb.high
  have hwalk := @freemem_walk B m l r a g s
    (fun b hb' => by
      have := g.pos b (by simp [hb'])
      have := hb.below b hb'
      omega)
    fun b hb' => by
      have := hb.above b hb'
      omega
  -- the overlap test fails
  have hno : ¬ ((prevNode B l ≠ B.memlist ∧ a < topOf B (prevNode B l) m) ∨
      (nodeOf r ≠ 0 ∧ nodeOf r < uint32 (a + roundmb n))) := by
    rintro (⟨hne, hlt⟩ | ⟨hne, hlt⟩)
    · rcases List.eq_nil_or_concat l with rfl | ⟨l', p, hl⟩
      · exact hne rfl
      · rw [List.concat_eq_append] at hl
        subst hl
        have hp := g.inside p (by simp)
        have := hb.below p (by simp)
        have hlen : mlength m p.1 = p.2 := s.lengths p (by simp)
        rw [topOf, if_neg hne, prevNode_concat, hlen, uint32, Nat.mod_eq_of_lt (by omega)] at hlt
        omega
    · cases r with
      | nil => exact hne rfl
      | cons q r =>
        have := hb.above q (by simp)
        rw [uint32, Nat.mod_eq_of_lt (by omega)] at hlt
        simp only [nodeOf] at hlt
        omega
  -- link in or grow, then absorb
  obtain ⟨hfst, hst, hml⟩ := s.insert g hb hn8 (uint32 (mlength m B.memlist + roundmb n))
  obtain ⟨hna, hend, hpos⟩ := NodesApart.mergePrev g hb hn8
  obtain ⟨hst', hml'⟩ := hst.absorb hna (fun q hq => by
    rcases List.mem_cons.mp hq with rfl | hq
    · omega
    · exact (g.inside q (by simp [hq])).2) hpos
  have hfree : freemem B a n m = (OK, freememCoalesce (mergePrev l (a, roundmb n)).2.1 (nodeOf r)
      (freememLink (prevNode B l) (nodeOf r) (topOf B (prevNode B l) m) a (roundmb n)
        (setMlength m B.memlist (uint32 (mlength m B.memlist + roundmb n)))).2) := by
    rw [freemem, if_neg (by omega)]
    simp only [hwalk]
    rw [if_neg hno, hfst]
  rw [hfree]
  exact ⟨rfl, hst', hml'.trans hml⟩

end Xinu
