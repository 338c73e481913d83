import XinuCMips.Heap.Allocation
import XinuCMips.Heap.Accounting

/-!
# Freeing any block

`freemem` compares a block with its neighbours on the list, in 32-bit words
that wrap around, and with nothing else: not with the end of the heap and not
with the alignment of blocks. What it does to the list is decided by the node
at which the block ends up (`Inserted`): whatever list the memory holds
afterwards goes through that node.

* `freemem_safe_iff` — for every block and size, whether the call is safe;
* `heap_calls_safe`  — **the same for all three calls of the allocator.**
-/

namespace Xinu

open Thread Tiling

variable {B : HeapBounds} {m : Mem} {bs bs' : List (Nat × Nat)} {b n : Nat}

/-! ## The place of the block -/

/-- The block meets one of the list, as far as `freemem` can see: its end is
computed modulo `2 ^ 32`. -/
def Overlaps (bs : List (Nat × Nat)) (b r : Nat) : Prop :=
  (∃ p ∈ bs, p.1 < b ∧ b < p.1 + p.2) ∨ ∃ q ∈ bs, b ≤ q.1 ∧ q.1 < uint32 (b + r)

instance (bs : List (Nat × Nat)) (b r : Nat) : Decidable (Overlaps bs b r) := by
  unfold Overlaps
  infer_instance

variable (B) in
/-- `freemem` refuses the call. -/
def Refused (bs : List (Nat × Nat)) (b n : Nat) : Prop :=
  n = 0 ∨ b < B.minheap ∨ B.maxheap < b ∨ Overlaps bs b (roundmb n)

/-- A sorted list falls into the blocks below an address and the others. -/
theorem exists_below (h : bs.Pairwise fun p q => p.1 + p.2 ≤ q.1) (b : Nat) :
    ∃ l r, bs = l ++ r ∧ (∀ p ∈ l, p.1 < b) ∧ ∀ q ∈ r, b ≤ q.1 := by
  induction bs with
  | nil => exact ⟨[], [], rfl, by simp, by simp⟩
  | cons c bs ih =>
    rw [List.pairwise_cons] at h
    by_cases hc : c.1 < b
    · obtain ⟨l, r, rfl, hl, hr⟩ := ih h.2
      refine ⟨c :: l, r, rfl, fun p hp => ?_, hr⟩
      rcases List.mem_cons.mp hp with rfl | hp
      · exact hc
      · exact hl p hp
    · refine ⟨[], c :: bs, rfl, by simp, fun q hq => ?_⟩
      rcases List.mem_cons.mp hq with rfl | hq
      · omega
      · have := h.1 q hq
        omega

/-- The last block below starts lower than all others that are below. -/
theorem last_below {l r : List (Nat × Nat)} {c p : Nat × Nat}
    (hsort : (l ++ [c] ++ r).Pairwise fun p q => p.1 + p.2 ≤ q.1) (hp : p ∈ l ++ [c])
    (hlt : c.1 < p.1 + p.2) : p = c := by
  rw [List.append_assoc, List.pairwise_append] at hsort
  rcases List.mem_append.mp hp with hp | hp
  · have := hsort.2.2 p hp c (by simp)
    omega
  · simpa using hp

/-- The comparison with the previous block sees every block below. -/
theorem prev_overlaps {l r : List (Nat × Nat)} (h : FreeList B m (l ++ r)) (hl : ∀ p ∈ l, p.1 < b)
    (hr : ∀ q ∈ r, b ≤ q.1) :
    (prevNode B l ≠ B.memlist ∧ b < topOf B (prevNode B l) m) ↔
      ∃ p ∈ l ++ r, p.1 < b ∧ b < p.1 + p.2 := by
  have hbelow := B.memlist_below
  have haddr := B.addressable
  rcases List.eq_nil_or_concat l with rfl | ⟨l', c, rfl⟩
  · refine iff_of_false (fun hc => hc.1 rfl) ?_
    rintro ⟨p, hp, hpb, -⟩
    have := hr p hp
    omega
  · rw [List.concat_eq_append] at *
    have hc := h.blocks.inside c (by simp)
    have hcb := hl c (by simp)
    have hne : prevNode B (l' ++ [c]) ≠ B.memlist := by
      rw [prevNode_concat]
      omega
    rw [topOf, if_neg hne, prevNode_concat, h.stored.lengths c (by simp), uint32,
      Nat.mod_eq_of_lt (by omega)]
    constructor
    · rintro ⟨-, hlt⟩
      exact ⟨c, by simp, hcb, hlt⟩
    · rintro ⟨p, hp, hpb, hlt⟩
      have hpl : p ∈ l' ++ [c] := by
        refine (List.mem_append.mp hp).resolve_right fun hpr => ?_
        have := hr p hpr
        omega
      obtain rfl := last_below h.blocks.sorted hpl (by omega)
      rw [prevNode_concat] at hne
      exact ⟨hne, hlt⟩

/-- The comparison with the next block sees every block above. -/
theorem next_overlaps {l r : List (Nat × Nat)} (h : FreeList B m (l ++ r)) (hl : ∀ p ∈ l, p.1 < b)
    (hr : ∀ q ∈ r, b ≤ q.1) (e : Nat) :
    (nodeOf r ≠ 0 ∧ nodeOf r < e) ↔ ∃ q ∈ l ++ r, b ≤ q.1 ∧ q.1 < e := by
  have hnot : ∀ q ∈ l ++ r, b ≤ q.1 → q ∈ r := fun q hq hqb => by
    refine (List.mem_append.mp hq).resolve_left fun hql => ?_
    have := hl q hql
    omega
  cases r with
  | nil =>
    refine iff_of_false (fun hc => hc.1 rfl) ?_
    rintro ⟨q, hq, hqb, -⟩
    exact absurd (hnot q hq hqb) List.not_mem_nil
  | cons c r =>
    have hin := (h.blocks.inside c (by simp)).1
    have hbelow := B.memlist_below
    constructor
    · rintro ⟨-, hlt⟩
      exact ⟨c, by simp, hr c (by simp), hlt⟩
    · rintro ⟨q, hq, hqb, hlt⟩
      have hle : c.1 ≤ q.1 := by
        rcases List.mem_cons.mp (hnot q hq hqb) with rfl | hq'
        · exact le_rfl
        · have hsort := h.blocks.sorted
          rw [List.pairwise_append, List.pairwise_cons] at hsort
          have := hsort.2.1.1 q hq'
          omega
      simp only [nodeOf]
      omega

variable (B) in
/-- The memory after `freemem` has put a block of `n` bytes between `l` and `r`. -/
def putBetween (l r : List (Nat × Nat)) (b n : Nat) (m : Mem) : Mem :=
  let k := freememLink (prevNode B l) (nodeOf r) (topOf B (prevNode B l) m) b n
    (setMlength m B.memlist (uint32 (mlength m B.memlist + n)))
  freememCoalesce k.1 (nodeOf r) k.2

/-- What `freemem` computes once it has walked to its place in the list. -/
theorem freemem_eq {l r : List (Nat × Nat)} (h : FreeList B m (l ++ r)) (hl : ∀ p ∈ l, p.1 < b)
    (hr : ∀ q ∈ r, b ≤ q.1) (hn : n ≠ 0) (hlow : B.minheap ≤ b) (hhigh : b ≤ B.maxheap) :
    freemem B b n m =
      if Overlaps (l ++ r) b (roundmb n) then (SYSERR, m)
      else (OK, putBetween B l r b (roundmb n) m) := by
  have hwalk := @freemem_walk B m l r b h.geometry h.stored hl hr
  have hiff := or_congr (prev_overlaps h hl hr) (next_overlaps h hl hr (uint32 (b + roundmb n)))
  rw [freemem, if_neg (by omega)]
  simp only [hwalk]
  by_cases hov : Overlaps (l ++ r) b (roundmb n)
  · rw [if_pos (hiff.mpr hov), if_pos hov]
  · rw [if_neg (mt hiff.mp hov), if_neg hov]
    rfl

/-- Without an overlap all blocks below end at the new block or before it. -/
theorem below_of_not_overlaps {l r : List (Nat × Nat)} (hov : ¬ Overlaps (l ++ r) b n)
    (hl : ∀ p ∈ l, p.1 < b) : ∀ p ∈ l, p.1 + p.2 ≤ b := by
  intro p hp
  by_contra hlt
  exact hov (Or.inl ⟨p, by simp [hp], hl p hp, by omega⟩)

theorem above_of_not_overlaps {l r : List (Nat × Nat)} (hov : ¬ Overlaps (l ++ r) b n)
    (hr : ∀ q ∈ r, b ≤ q.1) : ∀ q ∈ r, uint32 (b + n) ≤ q.1 := by
  intro q hq
  by_contra hlt
  exact hov (Or.inr ⟨q, by simp [hq], hr q hq, by omega⟩)

variable (B) in
/-- `freemem` fails and changes nothing, or leaves a list of blocks. -/
def FreeSafe (m : Mem) (res : Int × Mem) : Prop :=
  (res.1 = SYSERR ∧ res.2 = m) ∨ (res.1 = OK ∧ ∃ bs, Stored B res.2 bs ∧ FreeBlocks B bs)

theorem freemem_fits {l r : List (Nat × Nat)} (h : FreeList B m (l ++ r))
    (hov : ¬ Overlaps (l ++ r) b (roundmb n)) (hl : ∀ p ∈ l, p.1 < b) (hr : ∀ q ∈ r, b ≤ q.1)
    (hn' : n < 2 ^ 32) (hlow : B.minheap ≤ b) (hb8 : 8 ∣ b) (hn0 : 0 < roundmb n)
    (hhigh : b + roundmb n ≤ B.maxheap) : FreeSafe B m (freemem B b n m) := by
  have haddr := B.addressable
  have hbelow := below_of_not_overlaps hov hl
  have habove : ∀ q ∈ r, b + roundmb n ≤ q.1 := fun q hq => by
    have := above_of_not_overlaps hov hr q hq
    rwa [uint32, Nat.mod_eq_of_lt (by omega)] at this
  have hn : 0 < n ∧ n ≤ 2 ^ 32 - 8 := by
    unfold roundmb uint32 at hn0
    omega
  obtain ⟨h1, h2, -⟩ := freemem_refines h.geometry h.stored hn.1 hn.2
    ⟨fun p hp => by
      have := hbelow p hp
      have := h.blocks.aligned p (by simp [hp])
      omega, habove, hlow, hhigh⟩
  exact Or.inr ⟨h1, _, h2, (h.blocks.insert hb8 (roundmb_dvd n) hn0 hlow hhigh hbelow
    habove).mergePrev.mergeNext⟩

/-! ## The node of the block -/

variable (B) in
/-- Before `freemem` looks at the next block, the blocks `l` lead to a node at
`x` of length `len`, and nothing above the node has changed. -/
structure Inserted (m m' : Mem) (l : List (Nat × Nat)) (x len : Nat) : Prop where
  low : B.minheap ≤ x
  below : ∀ p ∈ l, p.1 + 8 ≤ x
  before : ∀ y ∈ (B.memlist :: l.map Prod.fst).dropLast, mnext m' y = mnext m y
  link : mnext m' (prevNode B l) = x
  lengths : ∀ p ∈ l, mlength m' p.1 = p.2
  length : mlength m' x = len
  above : ∀ y, x + 8 ≤ y → m' y = m y
  null : mnext m' 0 = mnext m 0

theorem freememCoalesce_of_ne {x nx : Nat} (h : uint32 (x + mlength m x) ≠ nx) :
    freememCoalesce x nx m = m := if_neg h

/-- The second half of `freemem` writes to the node only. -/
theorem freememCoalesce_of_ne_node {x nx y : Nat} (h1 : y ≠ x) (h2 : y ≠ x + 4) :
    freememCoalesce x nx m y = m y := by
  unfold freememCoalesce
  split
  · simp [setMnext, setMlength, h1, h2]
  · rfl

theorem Inserted.coalesce_before {m' : Mem} {l : List (Nat × Nat)} {x len : Nat}
    (h : Inserted B m m' l x len) (nx : Nat) :
    ∀ y ∈ B.memlist :: l.map Prod.fst, mnext (freememCoalesce x nx m') y = mnext m' y ∧
      mlength (freememCoalesce x nx m') y = mlength m' y := by
  intro y hy
  have hx : y + 8 ≤ x := by
    rcases List.mem_cons.mp hy with rfl | hy
    · exact B.memlist_below.trans h.low
    · obtain ⟨p, hp, rfl⟩ := List.mem_map.mp hy
      exact h.below p hp
  exact ⟨freememCoalesce_of_ne_node (by omega) (by omega),
    freememCoalesce_of_ne_node (by omega) (by omega)⟩

/-- A list of blocks is known by its nodes and the lengths stored there. -/
theorem eq_of_nodes {m' : Mem} : ∀ {l l' : List (Nat × Nat)}, (∀ p ∈ l, mlength m' p.1 = p.2) →
    (∀ p ∈ l', mlength m' p.1 = p.2) → l'.map Prod.fst = l.map Prod.fst → l' = l
  | [], [], _, _, _ => rfl
  | [], c :: l', _, _, hm => by simp at hm
  | p :: l, [], _, _, hm => by simp at hm
  | p :: l, c :: l', h, h', hm => by
    rw [List.map_cons, List.map_cons, List.cons.injEq] at hm
    have hc : c = p := by
      refine Prod.ext hm.1 ?_
      rw [← h p (by simp), ← h' c (by simp), hm.1]
    rw [hc, eq_of_nodes (fun q hq => h q (by simp [hq])) (fun q hq => h' q (by simp [hq])) hm.2]

/-- Up to the node the links are those of the old list, and the new one. -/
theorem Inserted.chain {m' : Mem} {l rest : List (Nat × Nat)} {x len : Nat}
    (h : Inserted B m m' l x len) (hs : Stored B m (l ++ rest)) (nx : Nat) :
    Threaded (mnext (freememCoalesce x nx m')) (B.memlist :: l.map Prod.fst ++ [x]) := by
  have hold := hs.linked
  rw [List.map_append, List.cons_append, List.append_assoc, ← List.cons_append, ← nodes_eq,
    List.append_assoc, List.singleton_append] at hold
  have hnew := threaded_redirect hold
    (fun y hy => ((h.coalesce_before nx y (List.dropLast_subset _ hy)).1.trans (h.before y hy)))
    ((h.coalesce_before nx _ (List.getLast_mem _)).1.trans h.link)
    (threaded_singleton (mnext (freememCoalesce x nx m')) x)
  rwa [← nodes_eq, List.append_assoc]

theorem Inserted.lengths_end {m' : Mem} {l : List (Nat × Nat)} {x len : Nat}
    (h : Inserted B m m' l x len) (nx : Nat) :
    ∀ p ∈ l, mlength (freememCoalesce x nx m') p.1 = p.2 := fun p hp => by
  rw [(h.coalesce_before nx p.1 (List.mem_cons_of_mem _ (List.mem_map_of_mem hp))).2]
  exact h.lengths p hp

/-- **Whatever list the memory holds at the end, it goes through the node.** -/
theorem Inserted.node {m' : Mem} {l rest : List (Nat × Nat)} {x len nx : Nat}
    (h : Inserted B m m' l x len) (hf : FreeList B m (l ++ rest))
    (hend : Stored B (freememCoalesce x nx m') bs') :
    ∃ post, bs' = l ++ (x, mlength (freememCoalesce x nx m') x) :: post := by
  have hbelow := B.memlist_below
  have hlow := h.low
  have hpos : 0 ∉ l.map Prod.fst := by
    intro h0
    obtain ⟨p, hp, hp0⟩ := List.mem_map.mp h0
    have := (hf.blocks.inside p (by simp [hp])).1
    omega
  obtain ⟨r, hr⟩ := Threaded.continues (by omega) (h.chain hf.stored nx) hend.linked hpos
  obtain ⟨l', post', rfl, hl', hpost'⟩ := List.map_eq_append_iff.mp hr
  cases post' with
  | nil => simp at hpost'
  | cons c post =>
    obtain rfl : c.1 = x := (List.cons.inj hpost').1
    have hc : c = (c.1, mlength (freememCoalesce c.1 nx m') c.1) :=
      Prod.ext rfl (hend.lengths c (by simp)).symm
    refine ⟨post, ?_⟩
    rw [← hc, eq_of_nodes (h.lengths_end nx) (fun p hp => hend.lengths p (by simp [hp])) hl']

/-- A block that ends at `2 ^ 32` "touches" the null pointer, and takes the
words at the addresses 0 and 4 for the block there. -/
theorem Inserted.null_iff {m' : Mem} {l rest : List (Nat × Nat)} {x len : Nat}
    (h : Inserted B m m' l x len) (hf : FreeList B m (l ++ rest)) (hwrap : x + len = 2 ^ 32) :
    (∃ bs', Stored B (freememCoalesce x 0 m') bs' ∧ FreeBlocks B bs') ↔
      ∃ post, nodeOf post = mnext m 0 ∧ Threaded (mnext m) (post.map Prod.fst ++ [0]) ∧
        (∀ q ∈ post, mlength m q.1 = q.2) ∧
        FreeBlocks B (l ++ (x, uint32 (len + mlength m' 0)) :: post) := by
  have hbelow := B.memlist_below
  have hlow := h.low
  set e := freememCoalesce x 0 m' with he
  have hend : e = setMnext (setMlength m' x (uint32 (len + mlength m' 0))) x (mnext m 0) := by
    have hcond : uint32 (x + mlength m' x) = 0 := by
      rw [h.length, hwrap]
      rfl
    rw [he, freememCoalesce, if_pos hcond, h.length]
    simp only
    rw [mnext_setMlength (by omega), h.null]
  have hlen : mlength e x = uint32 (len + mlength m' 0) := by
    rw [hend, mlength_setMnext (by omega), mlength_setMlength_same]
  have hnext : mnext e x = mnext m 0 := by rw [hend, mnext_setMnext_same]
  have habove : ∀ y, x + 8 ≤ y → e y = m y := fun y hy => by
    rw [he, freememCoalesce_of_ne_node (by omega) (by omega), h.above y hy]
  -- all later blocks lie above the node
  have hafter : ∀ {L : Nat} {post : List (Nat × Nat)}, FreeBlocks B (l ++ (x, L) :: post) →
      ∀ q ∈ post, x + 8 ≤ q.1 := fun {L post} hb q hq => by
    have hs := hb.sorted
    rw [List.pairwise_append, List.pairwise_cons] at hs
    have := hs.2.1.1 q hq
    have := hb.aligned (x, L) (by simp)
    have := hb.pos (x, L) (by simp)
    simp only at *
    omega
  constructor
  · rintro ⟨bs', hst, hbl⟩
    obtain ⟨post, rfl⟩ := h.node hf hst
    rw [← he, hlen] at hst hbl
    obtain ⟨r, hr⟩ := map_fst_nodeOf post
    have hl := hst.linked
    rw [List.map_append, List.map_cons, List.cons_append, List.append_assoc, List.cons_append,
      ← List.cons_append, threaded_split, hr, threaded_cons_cons, ← hr] at hl
    obtain ⟨-, hxn, hpost⟩ := hl
    have haft := hafter hbl
    refine ⟨post, hxn.symm.trans hnext, hpost.congr fun y hy => ?_, fun q hq => ?_, hbl⟩
    · rw [List.dropLast_concat] at hy
      obtain ⟨q, hq, rfl⟩ := List.mem_map.mp hy
      exact (habove q.1 (haft q hq)).symm
    · rw [← hst.lengths q (by simp [hq])]
      have := haft q hq
      exact (habove (q.1 + 4) (by omega)).symm
  · rintro ⟨post, hfirst, hpost, hlens, hbl⟩
    have haft := hafter hbl
    refine ⟨_, ⟨?_, fun p hp => ?_⟩, hbl⟩
    · obtain ⟨r, hr⟩ := map_fst_nodeOf post
      rw [List.map_append, List.map_cons, List.cons_append, List.append_assoc, List.cons_append,
        ← List.cons_append, threaded_split, hr, threaded_cons_cons, ← hr]
      refine ⟨h.chain hf.stored 0, hnext.trans hfirst.symm, hpost.congr fun y hy => ?_⟩
      rw [List.dropLast_concat] at hy
      obtain ⟨q, hq, rfl⟩ := List.mem_map.mp hy
      exact habove q.1 (haft q hq)
    · rcases List.mem_append.mp hp with hp | hp
      · exact h.lengths_end 0 p hp
      · rcases List.mem_cons.mp hp with rfl | hp
        · exact hlen
        · rw [← hlens p hp]
          have := haft p hp
          exact habove (p.1 + 4) (by omega)

/-! ## Where the node is -/

/-- A block that no block below touches becomes a node of its own. -/
theorem inserted_alone {l r : List (Nat × Nat)} (hf : FreeList B m (l ++ r)) (hlow : B.minheap ≤ b)
    (hl : ∀ p ∈ l, p.1 + p.2 ≤ b) (hne : ∀ p ∈ l, p.1 + p.2 ≠ b) :
    ∃ m', putBetween B l r b n m = freememCoalesce b (nodeOf r) m' ∧ Inserted B m m' l b n ∧
      mlength m' 0 = mlength (setMnext m (prevNode B l) b) 0 := by
  have hbelow := B.memlist_below
  have hmpos := B.memlist_pos
  have ar := hf.geometry.nodes_apart.around
  have hhead := ar.head
  have hl8 : ∀ p ∈ l, p.1 + 8 ≤ b := fun p hp => by
    have := hl p hp
    have := hf.blocks.pos p (by simp [hp])
    have := hf.blocks.aligned p (by simp [hp])
    omega
  have hprev : prevNode B l + 8 ≤ b ∧ topOf B (prevNode B l) m ≠ b := by
    rcases List.eq_nil_or_concat l with rfl | ⟨l', p, rfl⟩
    · rw [prevNode_nil, topOf, if_pos rfl]
      omega
    · rw [List.concat_eq_append] at *
      have hin := hf.blocks.inside p (by simp)
      have haddr := B.addressable
      have hpb := hne p (by simp)
      rw [prevNode_concat, topOf, if_neg (by omega), hf.stored.lengths p (by simp), uint32,
        Nat.mod_eq_of_lt (by omega)]
      exact ⟨hl8 p (by simp), hpb⟩
  have hnode : ∀ p ∈ l, B.memlist + 8 ≤ p.1 := fun p hp =>
    hf.geometry.nodes_apart.above_memlist p (by simp [hp])
  set m₁ := setMlength m B.memlist (uint32 (mlength m B.memlist + n)) with hm₁
  refine ⟨setMnext (setMlength (setMnext m₁ b (nodeOf r)) b n) (prevNode B l) b, ?_,
    ⟨hlow, hl8, fun y hy => ?_, mnext_setMnext_same _ _ _, fun p hp => ?_, ?_, fun y hy => ?_, ?_⟩, ?_⟩
  · unfold putBetween
    rw [freememLink, if_neg hprev.2]
  · have h1 := ar.before y hy
    have h2 : y = B.memlist ∨ B.memlist + 8 ≤ y := by
      rcases List.mem_cons.mp (List.dropLast_subset _ hy) with rfl | hy
      · exact Or.inl rfl
      · obtain ⟨p, hp, rfl⟩ := List.mem_map.mp hy
        exact Or.inr (hnode p hp)
    rw [mnext_setMnext (by omega), mnext_setMlength (by omega), mnext_setMnext (by omega),
      mnext_setMlength (by omega)]
  · have h1 := ar.pre_le p hp
    have h2 := hnode p hp
    have h3 := hl8 p hp
    rw [mlength_setMnext (by omega), mlength_setMlength (by omega), mlength_setMnext (by omega),
      mlength_setMlength (by omega)]
    exact hf.stored.lengths p (by simp [hp])
  · rw [mlength_setMnext (by omega), mlength_setMlength_same]
  · have h1 : y ≠ prevNode B l := by omega
    have h2 : y ≠ b + 4 := by omega
    have h3 : y ≠ b := by omega
    have h4 : y ≠ B.memlist + 4 := by omega
    simp [hm₁, setMnext, setMlength, h1, h2, h3, h4]
  · rw [mnext_setMnext (by omega), mnext_setMlength (by omega), mnext_setMnext (by omega),
      mnext_setMlength (by omega)]
  · have h2 : (0 : Nat) + 4 ≠ b + 4 := by omega
    have h3 : (0 : Nat) + 4 ≠ b := by omega
    have h4 : (0 : Nat) + 4 ≠ B.memlist + 4 := by omega
    by_cases h1 : (0 : Nat) + 4 = prevNode B l
    · show Function.update _ _ _ (0 + 4) = Function.update _ _ _ (0 + 4)
      rw [h1, Function.update_self, Function.update_self]
    · simp only [mlength, hm₁, setMnext, setMlength, Function.update_of_ne h1,
        Function.update_of_ne h2, Function.update_of_ne h3, Function.update_of_ne h4]

/-- A block that the last block below touches makes that one grow. -/
theorem putBetween_grown {l r : List (Nat × Nat)} {p : Nat × Nat}
    (hf : FreeList B m (l ++ p :: r)) (ht : p.1 + p.2 = b) :
    putBetween B (l ++ [p]) r b n m = freememCoalesce p.1 (nodeOf r)
      (setMlength (setMlength m B.memlist (uint32 (mlength m B.memlist + n))) p.1
        (uint32 (p.2 + n))) := by
  have hbelow := B.memlist_below
  have haddr := B.addressable
  have hin := hf.blocks.inside p (by simp)
  have hlen : mlength m p.1 = p.2 := hf.stored.lengths p (by simp)
  have htop : topOf B (prevNode B (l ++ [p])) m = b := by
    rw [prevNode_concat, topOf, if_neg (by omega), hlen, uint32, Nat.mod_eq_of_lt (by omega), ht]
  unfold putBetween
  rw [freememLink, if_pos htop, prevNode_concat, mlength_setMlength (by omega), hlen]

theorem inserted_grown {l r : List (Nat × Nat)} {p : Nat × Nat} (hf : FreeList B m (l ++ p :: r))
    (ht : p.1 + p.2 = b) :
    ∃ m', putBetween B (l ++ [p]) r b n m = freememCoalesce p.1 (nodeOf r) m' ∧
      Inserted B m m' l p.1 (uint32 (p.2 + n)) ∧
      mlength m' 0 = mlength (setMnext m (prevNode B (l ++ [p])) b) 0 := by
  have hbelow := B.memlist_below
  have hmpos := B.memlist_pos
  have hin := hf.blocks.inside p (by simp)
  have ar := hf.geometry.nodes_apart.around
  have hhead := ar.head
  have hpa := ar.after p (by simp)
  have hl8 : ∀ c ∈ l, c.1 + 8 ≤ p.1 := fun c hc => by
    have := ar.pre_le c hc
    omega
  have hnode : ∀ c ∈ l, B.memlist + 8 ≤ c.1 := fun c hc =>
    hf.geometry.nodes_apart.above_memlist c (by simp [hc])
  set m₁ := setMlength m B.memlist (uint32 (mlength m B.memlist + n)) with hm₁
  have hsame : ∀ y, y ≠ p.1 + 4 → y ≠ B.memlist + 4 →
      setMlength m₁ p.1 (uint32 (p.2 + n)) y = m y := fun y h1 h2 => by
    simp [hm₁, setMlength, h1, h2]
  refine ⟨setMlength m₁ p.1 (uint32 (p.2 + n)), putBetween_grown hf ht,
    ⟨hin.1, hl8, fun y hy => ?_, ?_, fun c hc => ?_, mlength_setMlength_same _ _ _,
      fun y hy => hsame y (by omega) (by omega), hsame 0 (by omega) (by omega)⟩, ?_⟩
  · have h1 := ar.before y hy
    have h2 : y = B.memlist ∨ B.memlist + 8 ≤ y := by
      rcases List.mem_cons.mp (List.dropLast_subset _ hy) with rfl | hy
      · exact Or.inl rfl
      · obtain ⟨c, hc, rfl⟩ := List.mem_map.mp hy
        exact Or.inr (hnode c hc)
    exact hsame y (by omega) (by omega)
  · have hnext : mnext m (prevNode B l) = p.1 := hf.stored.next_prev
    have hold := hsame (prevNode B l) (by omega) (by omega)
    exact hold.trans hnext
  · have h1 := hl8 c hc
    have h2 := hnode c hc
    have hold := hsame (c.1 + 4) (by omega) (by omega)
    exact hold.trans (hf.stored.lengths c (by simp [hc]))
  · rw [prevNode_concat, mlength_setMnext (by omega)]
    exact hsame (0 + 4) (by omega) (by omega)

/-! ## Which calls are safe -/

/-- The block is put back behind one that it touches, and its size is 0 or so
large that the sum of the two lengths wraps around to a smaller one. -/
def Absorbed (bs : List (Nat × Nat)) (b r : Nat) : Prop :=
  ∃ p ∈ bs, p.1 + p.2 = b ∧ (r = 0 ∨ 2 ^ 32 < p.2 + r)

variable (B) in
/-- The block ends at `2 ^ 32` above all others, which `freemem` takes for the
block at the null pointer, and the words at the addresses 0 and 4 happen to
make a list of blocks of it. -/
structure NullBlock (m : Mem) (bs : List (Nat × Nat)) (b r : Nat) : Prop where
  wraps : b + r = 2 ^ 32
  last : ∀ q ∈ bs, q.1 < b
  continues : ∃ post, nodeOf post = mnext m 0 ∧ Threaded (mnext m) (post.map Prod.fst ++ [0]) ∧
    (∀ q ∈ post, mlength m q.1 = q.2) ∧
    FreeBlocks B ((mergePrev bs (b, r)).1 ++ ((mergePrev bs (b, r)).2.1,
      uint32 ((mergePrev bs (b, r)).2.2 + mlength (setMnext m (prevNode B bs) b) 0)) :: post)

variable (B) in
/-- The block is aligned, not empty and inside the heap. -/
def FitsHeap (b r : Nat) : Prop := 8 ∣ b ∧ 0 < r ∧ b + r ≤ B.maxheap

variable (B) in
/-- The calls of `freemem` that do no harm. -/
def FreeOk (m : Mem) (bs : List (Nat × Nat)) (b n : Nat) : Prop :=
  Refused B bs b n ∨ FitsHeap B b (roundmb n) ∨ Absorbed bs b (roundmb n) ∨
    NullBlock B m bs b (roundmb n)

theorem roundmb_lt (n : Nat) : roundmb n < 2 ^ 32 := by
  unfold roundmb uint32
  omega

theorem freeSafe_ok {mem : Mem} : FreeSafe B m (OK, mem) ↔ ∃ bs, Stored B mem bs ∧ FreeBlocks B bs := by
  unfold FreeSafe
  constructor
  · rintro (⟨h, -⟩ | ⟨-, h⟩)
    · exact absurd h (by simp [OK, SYSERR])
    · exact h
  · exact fun h => Or.inr ⟨rfl, h⟩

/-- A node that does not run into the next one is a block of the list as it
stands. -/
theorem Inserted.block {m' : Mem} {l rest : List (Nat × Nat)} {x len nx : Nat}
    (h : Inserted B m m' l x len) (hf : FreeList B m (l ++ rest)) (hne : uint32 (x + len) ≠ nx)
    (hend : Stored B (freememCoalesce x nx m') bs') (hbl : FreeBlocks B bs') :
    8 ∣ x ∧ 0 < len ∧ x + len ≤ B.maxheap := by
  obtain ⟨post, rfl⟩ := h.node hf hend
  have hsame : freememCoalesce x nx m' = m' := freememCoalesce_of_ne (by rwa [h.length])
  rw [hsame, h.length] at hbl
  exact ⟨(hbl.aligned (x, len) (by simp)).1, hbl.pos (x, len) (by simp),
    (hbl.inside (x, len) (by simp)).2⟩

/-- A list with the last block below the freed one at its end. -/
theorem touch_cases (l : List (Nat × Nat)) (b : Nat) (hl : ∀ p ∈ l, p.1 + p.2 ≤ b)
    (hpos : ∀ p ∈ l, 0 < p.2) (hsort : l.Pairwise fun p q => p.1 + p.2 ≤ q.1) :
    (∃ l' p, l = l' ++ [p] ∧ p.1 + p.2 = b) ∨ ∀ p ∈ l, p.1 + p.2 ≠ b := by
  rcases List.eq_nil_or_concat l with rfl | ⟨l', p, rfl⟩
  · exact Or.inr (by simp)
  · rw [List.concat_eq_append] at *
    by_cases ht : p.1 + p.2 = b
    · exact Or.inl ⟨l', p, rfl, ht⟩
    · refine Or.inr fun c hc hcb => ?_
      have hp := hpos p (by simp)
      have hpb := hl p (by simp)
      rw [List.pairwise_append] at hsort
      rcases List.mem_append.mp hc with hc | hc
      · have := hsort.2.2 c hc p (by simp)
        omega
      · rw [List.mem_singleton] at hc
        exact ht (hc ▸ hcb)

theorem freemem_accepted {l r : List (Nat × Nat)} (hf : FreeList B m (l ++ r))
    (hl : ∀ p ∈ l, p.1 < b) (hr : ∀ q ∈ r, b ≤ q.1) (hno : ¬ Refused B (l ++ r) b n) :
    FreeSafe B m (freemem B b n m) ↔
      ∃ bs', Stored B (putBetween B l r b (roundmb n) m) bs' ∧ FreeBlocks B bs' := by
  unfold Refused at hno
  rw [freemem_eq hf hl hr (by tauto) (by omega) (by omega), if_neg (by tauto), freeSafe_ok]

/-- A block that stands alone and does not fit in the heap. -/
theorem alone_iff {l r : List (Nat × Nat)} (hf : FreeList B m (l ++ r)) (hlow : B.minheap ≤ b)
    (hhigh : b ≤ B.maxheap) (hn : 8 ∣ n) (hn' : n < 2 ^ 32) (hl : ∀ p ∈ l, p.1 < b)
    (hle : ∀ p ∈ l, p.1 + p.2 ≤ b) (hne : ∀ p ∈ l, p.1 + p.2 ≠ b) (hr : ∀ q ∈ r, b ≤ q.1)
    (hfit : ¬ FitsHeap B b n) :
    (∃ bs', Stored B (putBetween B l r b n m) bs' ∧ FreeBlocks B bs') ↔ NullBlock B m (l ++ r) b n := by
  have hbelow := B.memlist_below
  have haddr := B.addressable
  obtain ⟨m', hput, hins, hnull⟩ := @inserted_alone B m b n l r hf hlow hle hne
  rw [hput]
  by_cases hwrap : b + n = 2 ^ 32 ∧ r = []
  · obtain ⟨hw, rfl⟩ := hwrap
    have hmp : mergePrev (l ++ []) (b, n) = (l, (b, n)) := by
      rw [List.append_nil]
      rcases List.eq_nil_or_concat l with rfl | ⟨l', p, rfl⟩
      · rfl
      · rw [List.concat_eq_append] at *
        simp only [mergePrev, List.getLast?_concat]
        exact if_neg (hne p (by simp))
    rw [show nodeOf [] = 0 from rfl, hins.null_iff hf hw, hnull]
    constructor
    · refine fun hc => ⟨hw, by simpa using hl, ?_⟩
      rw [hmp, List.append_nil]
      exact hc
    · intro hc
      have := hc.continues
      rwa [hmp, List.append_nil] at this
  · refine iff_of_false ?_ fun hnb => hwrap ⟨hnb.wraps, ?_⟩
    · rintro ⟨bs', hst, hbl⟩
      by_cases hco : uint32 (b + n) = nodeOf r
      · unfold uint32 at hco
        cases r with
        | nil =>
          simp only [nodeOf] at hco
          exact hwrap ⟨by omega, rfl⟩
        | cons q r =>
          -- the block ends where the next one starts, so its size must be 0
          have hqb := hr q (by simp)
          have hq := hf.blocks.inside q (by simp)
          have hq8 := hf.blocks.aligned q (by simp)
          have hpos := hf.blocks.pos q (by simp)
          simp only [nodeOf] at hco
          have hend : b + n = q.1 := by omega
          have hn0 : n = 0 := by
            by_contra hn0
            exact hfit ⟨by omega, by omega, by omega⟩
          subst hn0
          have hz : mlength (freememCoalesce b (nodeOf (q :: r)) m') b = 0 := by
            have hcond : uint32 (b + mlength m' b) = nodeOf (q :: r) := by
              rw [hins.length]
              unfold uint32
              simp only [nodeOf]
              omega
            have hqb' : q.1 = b := by omega
            rw [freememCoalesce, if_pos hcond, mlength_setMnext (by omega), mlength_setMlength_same]
            simp only [nodeOf]
            rw [hqb', hins.length]
            rfl
          obtain ⟨post, rfl⟩ := hins.node hf hst
          have := hbl.pos _ (List.mem_append_right _ List.mem_cons_self)
          rw [hz] at this
          exact lt_irrefl _ this
      · exact hfit (hins.block hf hco hst hbl)
    · refine List.eq_nil_iff_forall_not_mem.mpr fun q hq => ?_
      have := hr q hq
      have := hnb.last q (by simp [hq])
      omega

/-- A block that touches the one below, does not fit in the heap and is not
absorbed. -/
theorem grown_iff {l r : List (Nat × Nat)} {p : Nat × Nat} (hf : FreeList B m (l ++ p :: r))
    (ht : p.1 + p.2 = b) (hn0 : 0 < n) (hn' : n < 2 ^ 32) (hle : p.2 + n ≤ 2 ^ 32)
    (hl : ∀ c ∈ l ++ [p], c.1 < b) (hr : ∀ q ∈ r, b ≤ q.1) (hfit : ¬ FitsHeap B b n) :
    (∃ bs', Stored B (putBetween B (l ++ [p]) r b n m) bs' ∧ FreeBlocks B bs') ↔
      NullBlock B m (l ++ p :: r) b n := by
  have hbelow := B.memlist_below
  have haddr := B.addressable
  have hin := hf.blocks.inside p (by simp)
  have hp8 := hf.blocks.aligned p (by simp)
  obtain ⟨m', hput, hins, hnull⟩ := @inserted_grown B m b n l r p hf ht
  rw [hput]
  by_cases hwrap : b + n = 2 ^ 32 ∧ r = []
  · obtain ⟨hw, rfl⟩ := hwrap
    have hlen : uint32 (p.2 + n) = p.2 + n := Nat.mod_eq_of_lt (by omega)
    have hmp : mergePrev (l ++ [p]) (b, n) = (l, (p.1, p.2 + n)) := by
      simp only [mergePrev, List.getLast?_concat, List.dropLast_concat]
      exact if_pos ht
    rw [hlen] at hins
    rw [show nodeOf [] = 0 from rfl, hins.null_iff hf (by omega), hnull]
    constructor
    · refine fun hc => ⟨hw, hl, ?_⟩
      rw [hmp]
      exact hc
    · intro hc
      have := hc.continues
      rwa [hmp] at this
  · refine iff_of_false ?_ fun hnb => hwrap ⟨hnb.wraps, ?_⟩
    · rintro ⟨bs', hst, hbl⟩
      by_cases hco : uint32 (p.1 + uint32 (p.2 + n)) = nodeOf r
      · unfold uint32 at hco
        cases r with
        | nil =>
          simp only [nodeOf] at hco
          exact hwrap ⟨by omega, rfl⟩
        | cons q r =>
          have hqb := hr q (by simp)
          have hq := hf.blocks.inside q (by simp)
          simp only [nodeOf] at hco
          exact hfit ⟨by omega, hn0, by omega⟩
      · obtain ⟨-, h1, h2⟩ := hins.block hf hco hst hbl
        unfold uint32 at h1 h2
        exact hfit ⟨by omega, hn0, by omega⟩
    · refine List.eq_nil_iff_forall_not_mem.mpr fun q hq => ?_
      have := hr q hq
      have := hnb.last q (by simp [hq])
      omega

/-- An absorbed block leaves the list as it was, or shortens one block. -/
theorem absorbed_safe {l r : List (Nat × Nat)} {p : Nat × Nat} (hf : FreeList B m (l ++ p :: r))
    (ht : p.1 + p.2 = b) (hn : 8 ∣ n) (hn' : n < 2 ^ 32) (habs : n = 0 ∨ 2 ^ 32 < p.2 + n) :
    ∃ bs', Stored B (putBetween B (l ++ [p]) r b n m) bs' ∧ FreeBlocks B bs' := by
  have hbelow := B.memlist_below
  have haddr := B.addressable
  have hin := hf.blocks.inside p (by simp)
  have hpos := hf.blocks.pos p (by simp)
  have hp8 := hf.blocks.aligned p (by simp)
  have hpa := hf.geometry.nodes_apart.around.after p (by simp)
  have hhead := hf.geometry.nodes_apart.around.head
  set L := uint32 (p.2 + n) with hL
  have hLle : 0 < L ∧ L ≤ p.2 ∧ 8 ∣ L := by
    rw [hL]
    unfold uint32
    omega
  set m₁ := setMlength m B.memlist (uint32 (mlength m B.memlist + n)) with hm₁
  have hsame : ∀ y, y ≠ p.1 + 4 → y ≠ B.memlist + 4 → setMlength m₁ p.1 L y = m y :=
    fun y h1 h2 => by simp [hm₁, setMlength, h1, h2]
  -- the block ends before the next one
  have hco : uint32 (p.1 + L) ≠ nodeOf r := by
    rw [uint32, Nat.mod_eq_of_lt (by omega)]
    cases r with
    | nil =>
      simp only [nodeOf]
      omega
    | cons q r =>
      have hs := hf.geometry.spaced
      rw [List.pairwise_append, List.pairwise_cons] at hs
      have := hs.2.1.1 q (by simp)
      simp only [nodeOf]
      omega
  have hput : putBetween B (l ++ [p]) r b n m = setMlength m₁ p.1 L := by
    rw [putBetween_grown hf ht]
    exact freememCoalesce_of_ne (by rwa [mlength_setMlength_same])
  rw [hput]
  refine ⟨l ++ (p.1, L) :: r, hf.stored.resize hf.geometry le_rfl (by simp)
    (fun y _ h2 _ h4 => hsame y h4 h2) ?_ ?_ (mlength_setMlength_same _ _ _), ?_⟩
  · have hold := hsame (prevNode B l) (by omega) (by omega)
    exact hold.trans hf.stored.next_prev
  · exact hsame p.1 (by omega) (by omega)
  · exact hf.blocks.shorten hLle.1 hLle.2.1 hLle.2.2

theorem refused_safe (h : FreeList B m bs) (hr : Refused B bs b n) :
    FreeSafe B m (freemem B b n m) := by
  obtain ⟨l, r, rfl, hl, hgt⟩ := exists_below h.blocks.sorted b
  have hres : freemem B b n m = (SYSERR, m) := by
    by_cases hearly : n = 0 ∨ b < B.minheap ∨ B.maxheap < b
    · exact if_pos hearly
    · have hov : Overlaps (l ++ r) b (roundmb n) := by
        rcases hr with h1 | h1 | h1 | h1
        · exact absurd (Or.inl h1) hearly
        · exact absurd (Or.inr (Or.inl h1)) hearly
        · exact absurd (Or.inr (Or.inr h1)) hearly
        · exact h1
      rw [freemem_eq h hl hgt (fun h0 => hearly (Or.inl h0)) (by omega) (by omega), if_pos hov]
  rw [hres]
  exact Or.inl ⟨rfl, rfl⟩

/-- At most one block ends at an address. -/
theorem absorbed_iff {l r : List (Nat × Nat)} {p : Nat × Nat} (h : FreeBlocks B (l ++ p :: r))
    (ht : p.1 + p.2 = b) : Absorbed (l ++ p :: r) b n ↔ n = 0 ∨ 2 ^ 32 < p.2 + n := by
  constructor
  · rintro ⟨c, hc, hcb, hn⟩
    have hpos := h.pos c hc
    have hp := h.pos p (by simp)
    have hs := h.sorted
    rw [List.pairwise_append, List.pairwise_cons] at hs
    have hcp : c = p := by
      rcases List.mem_append.mp hc with hc | hc
      · have := hs.2.2 c hc p (by simp)
        omega
      · rcases List.mem_cons.mp hc with rfl | hc
        · rfl
        · have := hs.2.1.1 c hc
          omega
    rwa [hcp] at hn
  · exact fun hn => ⟨p, by simp, ht, hn⟩

/-- **Which calls of `freemem` are safe.** -/
theorem freemem_safe_iff (h : FreeList B m bs) (hn' : n < 2 ^ 32) :
    FreeSafe B m (freemem B b n m) ↔ FreeOk B m bs b n := by
  unfold FreeOk
  by_cases hno : Refused B bs b n
  · exact iff_of_true (refused_safe h hno) (Or.inl hno)
  obtain ⟨l, r, rfl, hl, hr⟩ := exists_below h.blocks.sorted b
  have hin : ¬ b < B.minheap ∧ ¬ B.maxheap < b ∧ ¬ Overlaps (l ++ r) b (roundmb n) := by
    unfold Refused at hno
    tauto
  have hle := below_of_not_overlaps hin.2.2 hl
  by_cases hfit : FitsHeap B b (roundmb n)
  · exact iff_of_true (freemem_fits h hin.2.2 hl hr hn' (by omega) hfit.1 hfit.2.1 hfit.2.2)
      (Or.inr (Or.inl hfit))
  rw [freemem_accepted h hl hr hno, or_iff_right hno, or_iff_right hfit]
  have hbl := (blocks_append.mp h.blocks).1
  rcases touch_cases l b hle hbl.pos hbl.sorted with ⟨l', p, rfl, ht⟩ | hne
  · -- the block touches `p`
    have h' : FreeList B m (l' ++ p :: r) := by simpa using h
    have habs := @absorbed_iff B b (roundmb n) l' r p h'.blocks ht
    rw [List.append_assoc, List.singleton_append, habs]
    by_cases hw : roundmb n = 0 ∨ 2 ^ 32 < p.2 + roundmb n
    · exact iff_of_true (absorbed_safe h' ht (roundmb_dvd n) (roundmb_lt n) hw) (Or.inl hw)
    · rw [or_iff_right hw]
      exact grown_iff h' ht (by omega) (roundmb_lt n) (by omega) hl hr hfit
  · -- the block stands alone
    have habs : ¬ Absorbed (l ++ r) b (roundmb n) := by
      rintro ⟨c, hc, hcb, -⟩
      rcases List.mem_append.mp hc with hc' | hc'
      · exact hne c hc' hcb
      · have := hr c hc'
        have := h.blocks.pos c hc
        omega
    rw [or_iff_right habs]
    exact alone_iff h (by omega) (by omega) (roundmb_dvd n) (roundmb_lt n) hl hle hne hr hfit

/-! ## All calls -/

/-- **The allocator with any arguments.** On every heap that satisfies the
free-list invariant, `getmem` and `getstk` are safe exactly for the sizes that
rounding does not turn to 0, or if there is nothing to allocate, and `freemem`
is safe exactly for the calls of `FreeOk`. -/
theorem heap_calls_safe (h : FreeList B m bs) (b : Nat) (hn : n < 2 ^ 32) :
    (AllocSafe B bs n m Lowest (getmem B n m) ↔ n ≤ 2 ^ 32 - 8 ∨ bs = []) ∧
    (AllocSafe B bs n m HighestWord (getstk B n m) ↔ n ≤ 2 ^ 32 - 8 ∨ bs = []) ∧
    (FreeSafe B m (freemem B b n m) ↔ FreeOk B m bs b n) :=
  ⟨getmem_safe_iff h hn, getstk_safe_iff h hn, freemem_safe_iff h hn⟩

theorem smallHeap_freeList (m : Mem) : FreeList smallHeap (initMemlist smallHeap m) [(16, 48)] where
  stored := (@heapInv_init smallHeap m).stored
  blocks := by
    rw [blocks_cons]
    exact ⟨by decide, by simp, ⟨by simp, by simp, .nil, by simp⟩⟩
  apart := List.pairwise_singleton _ _

/-- A request of 10 bytes, and a block that is already free. -/
theorem heap_calls_safe_small :
    let m := initMemlist smallHeap fun _ => 0
    AllocSafe smallHeap [(16, 48)] 10 m Lowest (getmem smallHeap 10 m) ∧
      FreeSafe smallHeap m (freemem smallHeap 24 10 m) := by
  obtain ⟨h1, -, h3⟩ := heap_calls_safe (smallHeap_freeList fun _ => 0) 24 (show 10 < 2 ^ 32 by decide)
  refine ⟨h1.mpr (Or.inl (by decide)), h3.mpr (Or.inl ?_)⟩
  exact Or.inr (Or.inr (Or.inr (Or.inl ⟨(16, 48), by simp, by decide, by decide⟩)))

/-- The largest size is rounded to 0, and `getmem` hands out a block of no
bytes. -/
theorem heap_calls_not_safe : ¬ ∀ (B : HeapBounds) (m : Mem) (bs : List (Nat × Nat)) (n b : Nat),
    FreeList B m bs → n < 2 ^ 32 → b < 2 ^ 32 →
      AllocSafe B bs n m Lowest (getmem B n m) ∧ AllocSafe B bs n m HighestWord (getstk B n m) ∧
        FreeSafe B m (freemem B b n m) := by
  intro h
  have hf := smallHeap_freeList fun _ => 0
  have hsafe := (h smallHeap _ _ (2 ^ 32 - 1) 0 hf (by decide) (by decide)).1
  rcases (getmem_safe_iff hf (by decide)).mp hsafe with hle | hnil
  · exact absurd hle (by decide)
  · simp at hnil

end Xinu
