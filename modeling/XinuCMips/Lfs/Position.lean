import XinuCMips.Lfs.Blocks

/-!
# Positioning in a file

`lfsetup` walks along the index blocks of the file to the one that covers the
position and gets its data block into memory. Where the file ends it takes
the blocks it needs from the free lists, one of each kind at most.

* `firstIblock_spec`, `nextIblock_spec`, `coverLoop_spec` — the way to the
  index block;
* `lfsetup_spec` — afterwards the caches hold the blocks of the position, or
  the free list that was needed is empty.
-/

namespace Xinu.Lfs

open Follow

variable {g : Geometry} {v w : View} {F : FileMap} {I N : List Nat}

/-! ## The way to a position -/

/-- Nothing has been written, and nothing is left to be written that was not. -/
structure Still (v w : View) : Prop where
  glob : w.glob = v.glob
  disk : w.disk = v.disk
  ibdirty : w.file.lfibdirty = v.file.lfibdirty

theorem Still.refl : Still v v := ⟨rfl, rfl, rfl⟩

theorem Still.trans {u : View} (h : Still v w) (h' : Still w u) : Still v u :=
  ⟨h'.glob.trans h.glob, h'.disk.trans h.disk, h'.ibdirty.trans h.ibdirty⟩

/-- What the search for the index block of position `pos` leaves: the file as
it was, with nothing written, or with one more index block, which only happens
at the end of a file whose blocks are all full. -/
inductive Covers (v w : View) (F : FileMap) (I : List Nat) : FileMap → List Nat → Prop
  | same : Still v w → Covers v w F I F I
  | grown {i : Nat} {I' : List Nat} : I = i :: I' → v.file.lfpos = 512 * F.dbs.length →
      F.dbs.length = 16 * F.chain.length →
      Covers v w F I { F with chain := F.chain ++ [i] } I'

/-- On the way from `v` to position `lfpos`, index block `b`, the `j`-th of
the file, is in memory. A block that has just been allocated is the last one
on the way. -/
structure AtBlock (g : Geometry) (v w : View) (F F' : FileMap) (I I' N : List Nat)
    (b j : Nat) : Prop where
  holds : Holds g w F' I' N
  covers : Covers v w F I F' I'
  elsewhere : Elsewhere g F.chain [] v.disk w.disk
  inum : w.file.lfinum = some b
  here : F'.chain[j]? = some b
  le : j ≤ v.file.lfpos / 8192
  ib : w.file.lfibdirty = false ∧ F' = F ∨ j = v.file.lfpos / 8192
  clean : w.file.lfdbdirty = false
  pos : w.file.lfpos = v.file.lfpos

/-- No index block is left where one is needed for the end of the file. -/
def NoIblock (v : View) (F : FileMap) (I : List Nat) : Prop :=
  I = [] ∧ v.file.lfpos = 8192 * F.chain.length

theorem and_imask (n : Nat) : n &&& LF_IMASK = n % 8192 := Nat.and_two_pow_sub_one_eq_mod n 13

theorem and_dmask (n : Nat) : n &&& LF_DMASK = n % 512 := Nat.and_two_pow_sub_one_eq_mod n 9

/-- A fresh index block is a block of the disk, on no other list. -/
theorem Holds.fresh_iblock {i : Nat} (h : Holds g v F (i :: I) N) :
    i < g.nib ∧ i ∉ I ∧ i ∉ F.chain := by
  have hnd := List.nodup_append.mp h.inodup
  exact ⟨h.irange i (List.mem_append_right _ List.mem_cons_self),
    (List.nodup_cons.mp hnd.2.1).1, fun hm => hnd.2.2 i hm i List.mem_cons_self rfl⟩

theorem AtBlock.offset {F' : FileMap} {I' : List Nat} {b j : Nat}
    (h : AtBlock g v w F F' I I' N b j) : w.file.lfiblock.ibOffset = j * 8192 := by
  obtain ⟨k, hk, hblk⟩ := h.holds.mem.iblock b h.inum
  obtain rfl := nodup_index h.holds.chain_nodup h.here hk
  rw [hblk]
  rfl

/-- Loading the first index block of a file that has one. -/
theorem getFirst_at {b : Nat} (h : Holds g v F I N) (hib : v.file.lfibdirty = false)
    (hdb : v.file.lfdbdirty = false) (hb : v.ldptr.ldIlist = some b) :
    AtBlock g v (getIblock v b) F F I I N b 0 := by
  have hj : F.chain[0]? = some b := by
    rw [← List.head?_eq_getElem?, ← h.first]
    exact hb
  exact ⟨(getIblock_holds h hj hib).1, .same ⟨rfl, rfl, rfl⟩, Elsewhere.refl, rfl, hj, Nat.zero_le _,
    Or.inl ⟨hib, rfl⟩, hdb, rfl⟩

/-- An empty file gets its first index block. -/
theorem startFile_at {i : Nat} (h : Holds g v F (i :: I) N) (hc : F.chain = [])
    (hpos : v.file.lfpos ≤ F.bytes.length) (hdb : v.file.lfdbdirty = false) :
    ∃ u, lfiballoc v = .ok (i, u) ∧
      AtBlock g v (startFile u i) F { F with chain := F.chain ++ [i] } (i :: I) I N i 0 := by
  have hdbs := h.no_blocks hc
  have hzero : v.file.lfpos = 0 := by
    have := h.shape.covers
    rw [hdbs, List.length_nil] at this
    omega
  obtain ⟨u, hu, hhu, hfile, -, he, -⟩ := lfiballoc_holds h
  obtain ⟨hi, hiI, -⟩ := h.fresh_iblock
  -- there is no data block to be cached
  have hdn : u.file.lfdnum = none := by
    rw [hfile]
    cases hn : v.file.lfdnum with
    | none => rfl
    | some n =>
      obtain ⟨m, hm, -⟩ := h.mem.dblock n hn
      rw [hdbs] at hm
      cases hm
  obtain ⟨hs, hsf⟩ := startFile_holds hhu hc hi hiI hdn
  have hchain : F.chain ++ [i] = [i] := by rw [hc, List.nil_append]
  refine ⟨u, hu, ?_, .grown rfl ?_ ?_, he.mono (List.nil_subset _) (List.Subset.refl _), ?_, ?_,
    Nat.zero_le _, Or.inr (by rw [hzero]), ?_, ?_⟩
  · rw [hchain]
    exact hs
  · rw [hzero, hdbs, List.length_nil]
  · rw [hdbs, hc]
    rfl
  · rw [hsf]
  · show (F.chain ++ [i])[0]? = some i
    rw [hchain]
    rfl
  · rw [hsf]
    exact hfile ▸ hdb
  · rw [hsf]
    show u.file.lfpos = v.file.lfpos
    rw [hfile]

/-- **The first part of `lfsetup`**: an index block at or before the position
is in memory, or there is none left for an empty file. -/
theorem firstIblock_spec (h : Holds g v F I N) (hpos : v.file.lfpos ≤ F.bytes.length)
    (hib : v.file.lfibdirty = false) (hdb : v.file.lfdbdirty = false) :
    (∃ msg, firstIblock v = .error (.panic msg) ∧ NoIblock v F I) ∨
    ∃ w F' I' b j, firstIblock v = .ok w ∧ AtBlock g v w F F' I I' N b j := by
  unfold firstIblock
  cases hnum : v.file.lfinum with
  | none =>
    cases hil : v.ldptr.ldIlist with
    | some b => exact Or.inr ⟨_, F, I, b, 0, rfl, getFirst_at h hib hdb hil⟩
    | none =>
      -- the file is empty
      have hc : F.chain = [] := by
        have hh := h.first
        rw [hil] at hh
        exact List.head?_eq_none_iff.mp hh.symm
      cases I with
      | nil =>
        refine Or.inl ⟨"out of index blocks", ?_, rfl, ?_⟩
        · rw [lfiballoc_empty h]
          rfl
        · have := h.shape.covers
          rw [h.no_blocks hc, List.length_nil] at this
          rw [hc, List.length_nil]
          omega
      | cons i I =>
        obtain ⟨u, hu, hat⟩ := startFile_at h hc hpos hdb
        refine Or.inr ⟨_, _, I, i, 0, ?_, hat⟩
        rw [hu]
        rfl
  | some b =>
    obtain ⟨j, hj, hblk⟩ := h.mem.iblock b hnum
    have hoff : v.file.lfiblock.ibOffset = j * 8192 := by
      rw [hblk]
      rfl
    dsimp only
    split
    · -- the position has moved before the block in memory
      cases hil : v.ldptr.ldIlist with
      | some b => exact Or.inr ⟨_, F, I, b, 0, rfl, getFirst_at h hib hdb hil⟩
      | none =>
        have hh := h.first
        rw [hil] at hh
        rw [List.head?_eq_none_iff.mp hh.symm] at hj
        cases hj
    · exact Or.inr ⟨v, F, I, b, j, rfl, h, .same ⟨rfl, rfl, rfl⟩, Elsewhere.refl, hnum, hj, by omega,
        Or.inl ⟨hib, rfl⟩, hdb, rfl⟩

/-- **One turn of the loop** moves to the next index block, or extends the
file where it ends. -/
theorem nextIblock_spec {b j : Nat} (h : AtBlock g v v F F I I N b j)
    (hpos : v.file.lfpos ≤ F.bytes.length) (hlt : j < v.file.lfpos / 8192) :
    (∃ msg, nextIblock v = .error (.panic msg) ∧ NoIblock v F I) ∨
    ∃ w F' I' b', nextIblock v = .ok w ∧ AtBlock g v w F F' I I' N b' (j + 1) := by
  have hh := h.holds
  have hib : v.file.lfibdirty = false := (h.ib.resolve_right (by omega)).1
  have hnext : v.file.lfiblock.ibNext = F.chain[j + 1]? := by
    obtain ⟨k, hk, hblk⟩ := hh.mem.iblock b h.inum
    obtain rfl := nodup_index hh.chain_nodup h.here hk
    rw [hblk]
    rfl
  unfold nextIblock
  rw [hnext]
  cases hn : F.chain[j + 1]? with
  | some b' =>
    have hget := (getIblock_holds hh hn hib).1
    exact Or.inr ⟨_, F, I, b', rfl, dropDblock_holds hget h.clean, .same ⟨rfl, rfl, rfl⟩, Elsewhere.refl,
      rfl, hn, hlt, Or.inl ⟨hib, rfl⟩, h.clean, rfl⟩
  | none =>
    -- the chain ends here, and all blocks it indexes are full
    have hlen : F.chain.length = j + 1 := by
      have h₁ := (List.getElem?_eq_some_iff.mp h.here).1
      have h₂ := List.getElem?_eq_none_iff.mp hn
      omega
    have hc := hh.shape.covers
    have hx := hh.shape.indexed
    have hfull : F.dbs.length = 16 * F.chain.length := by omega
    have hend : v.file.lfpos = 8192 * F.chain.length := by omega
    cases I with
    | nil =>
      refine Or.inl ⟨"out of index blocks", ?_, rfl, hend⟩
      dsimp only
      rw [lfiballoc_empty hh]
      rfl
    | cons i I =>
      obtain ⟨u, hu, hhu, hfile, -, he, -⟩ := lfiballoc_holds hh
      obtain ⟨hi, hiI, hiF⟩ := hh.fresh_iblock
      obtain ⟨hext, he', -⟩ := extendFile_holds hhu (hfile ▸ h.inum) h.here hn (by omega)
        (hfile ▸ hib) hi hiI hiF
      have hdb' : (extendFile u i).file.lfdbdirty = false := by
        show u.file.lfdbdirty = false
        rw [hfile]
        exact h.clean
      refine Or.inr ⟨_, _, I, i, ?_, dropDblock_holds hext hdb', .grown rfl ?_ hfull, ?_, rfl, ?_,
        hlt, Or.inr ?_, hdb', ?_⟩
      · dsimp only
        rw [hu]
        rfl
      · omega
      · exact (he.mono (List.nil_subset _) (List.Subset.refl _)).trans he'
      · show (F.chain ++ [i])[j + 1]? = some i
        rw [← hlen, List.getElem?_concat_length]
      · omega
      · show u.file.lfpos = v.file.lfpos
        rw [hfile]

/-- The search goes on from where it has come. -/
theorem AtBlock.start {F' : FileMap} {I' : List Nat} {b j : Nat}
    (h : AtBlock g v w F F' I I' N b j) : AtBlock g w w F' F' I' I' N b j := by
  have hp := h.pos
  refine ⟨h.holds, .same ⟨rfl, rfl, rfl⟩, Elsewhere.refl, h.inum, h.here, ?_, ?_, h.clean, rfl⟩
  · rw [hp]
    exact h.le
  · rw [hp]
    exact h.ib.imp_left fun hib => ⟨hib.1, rfl⟩

/-- Before the block of the position is reached the file is as it was. -/
theorem AtBlock.same {F' : FileMap} {I' : List Nat} {b j : Nat}
    (h : AtBlock g v w F F' I I' N b j) (hj : j ≠ v.file.lfpos / 8192) :
    F' = F ∧ I' = I ∧ Still v w := by
  have hF := (h.ib.resolve_right hj).2
  cases h.covers with
  | same hstill => exact ⟨rfl, rfl, hstill⟩
  | grown =>
    have hlen := congrArg (fun F => F.chain.length) hF
    simp at hlen

/-- Two parts of the way, of which the first one leaves the file as it is. -/
theorem AtBlock.trans {u : View} {F' : FileMap} {I' : List Nat} {b b' j j' : Nat}
    (h : AtBlock g v w F F I I N b j) (hstill : Still v w)
    (h' : AtBlock g w u F F' I I' N b' j') :
    AtBlock g v u F F' I I' N b' j' := by
  have hp := h.pos
  refine ⟨h'.holds, ?_, h.elsewhere.trans h'.elsewhere, h'.inum, h'.here, hp ▸ h'.le, hp ▸ h'.ib,
    h'.clean, h'.pos.trans hp⟩
  cases h'.covers with
  | same hstill' => exact .same (hstill.trans hstill')
  | grown hI hp' hd => exact .grown hI (hp ▸ hp') hd

/-- The loop stops at the block that covers the position. -/
theorem coverLoop_stop {F' : FileMap} {I' : List Nat} {b : Nat} (fuel : Nat)
    (h : AtBlock g v w F F' I I' N b (v.file.lfpos / 8192)) : coverLoop fuel w = .ok w := by
  unfold coverLoop
  rw [h.offset, and_imask, h.pos, if_neg (by omega)]

/-- **The loop of `lfsetup`** ends at the index block of the position. -/
theorem coverLoop_spec {fuel b j : Nat} {F₁ : FileMap} {I₁ : List Nat}
    (h : AtBlock g v w F F₁ I I₁ N b j) (hpos : v.file.lfpos ≤ F.bytes.length)
    (hfuel : v.file.lfpos / 8192 - j ≤ fuel) :
    (∃ msg, coverLoop fuel w = .error (.panic msg) ∧ NoIblock v F I) ∨
    ∃ u F' I' b', coverLoop fuel w = .ok u ∧
      AtBlock g v u F F' I I' N b' (v.file.lfpos / 8192) := by
  induction fuel generalizing w F₁ I₁ b j with
  | zero =>
    have hj : j = v.file.lfpos / 8192 := by
      have := h.le
      omega
    subst hj
    exact Or.inr ⟨w, F₁, I₁, b, coverLoop_stop 0 h, h⟩
  | succ fuel ih =>
    by_cases heq : j = v.file.lfpos / 8192
    · subst heq
      exact Or.inr ⟨w, F₁, I₁, b, coverLoop_stop _ h, h⟩
    have hle := h.le
    have hp := h.pos
    obtain ⟨rfl, rfl, hstill⟩ := h.same heq
    have hstep : coverLoop (fuel + 1) w = (nextIblock w >>= fun v => coverLoop fuel v) := by
      conv_lhs => unfold coverLoop
      rw [h.offset, and_imask, hp, if_pos (by omega)]
    rw [hstep]
    rcases nextIblock_spec h.start (by omega) (by omega) with
      ⟨msg, hm, hno⟩ | ⟨u, F', I', b', hu, hat⟩
    · refine Or.inl ⟨msg, ?_, hno.1, hp ▸ hno.2⟩
      rw [hm]
      rfl
    · rw [hu]
      exact ih (h.trans hstill hat) (by omega)

/-! ## The data block -/

/-- No data block is left where one is needed for the end of the file. -/
def NoDblock (v : View) (F : FileMap) (N : List Nat) : Prop :=
  N = [] ∧ v.file.lfpos = 512 * F.dbs.length

/-- **What `lfsetup` leaves**: the blocks of the position are in memory, and
the file has at most one block of each kind more than before. -/
structure Ready (g : Geometry) (v w : View) (F F' : FileMap) (I I' N N' : List Nat) : Prop where
  holds : Holds g w F' I' N'
  bytes : F'.bytes = F.bytes
  pos : w.file.lfpos = v.file.lfpos
  clean : w.file.lfdbdirty = false
  inum : ∃ b, w.file.lfinum = some b ∧ F'.chain[v.file.lfpos / 8192]? = some b
  dnum : ∃ n, w.file.lfdnum = some n ∧ F'.dbs[v.file.lfpos / 512]? = some n
  saved : SavedOrDirty w
  elsewhere : Elsewhere g F.chain F.dbs v.disk w.disk
  iperm : (F'.chain ++ I').Perm (F.chain ++ I)
  nperm : (F'.dbs ++ N').Perm (F.dbs ++ N)
  grown : F' = F ∧ I' = I ∧ N' = N ∨ v.file.lfpos = 512 * F.dbs.length ∧
    F'.dbs.length = F.dbs.length + 1 ∧ (F.Tight → 16 * F'.chain.length < F'.dbs.length + 16)
  still : v.file.lfpos < 512 * F.dbs.length → v.file.lfibdirty = false →
    v.file.lfdbdirty = false → Still v w

theorem Covers.iperm {F' : FileMap} {I' : List Nat} (h : Covers v w F I F' I') :
    (F'.chain ++ I').Perm (F.chain ++ I) := by
  cases h with
  | same => exact List.Perm.refl _
  | grown hI =>
    rw [hI]
    exact List.Perm.of_eq (List.append_cons _ _ _).symm

theorem Covers.dbs {F' : FileMap} {I' : List Nat} (h : Covers v w F I F' I') :
    F'.dbs = F.dbs ∧ F'.bytes = F.bytes := by
  cases h <;> exact ⟨rfl, rfl⟩

/-- **The last part of `lfsetup`** gets the data block of the position into
memory. -/
theorem fetchDblock_spec {F' : FileMap} {I' : List Nat} {b : Nat}
    (h : AtBlock g v w F F' I I' N b (v.file.lfpos / 8192))
    (hpos : v.file.lfpos ≤ F.bytes.length) (hsaved : SavedOrDirty v) :
    (∃ msg, fetchDblock w (v.file.lfpos % 8192 / 512) = .error (.panic msg) ∧ NoDblock v F N) ∨
    ∃ u F'' N', fetchDblock w (v.file.lfpos % 8192 / 512) = .ok u ∧
      Ready g v u F F'' I I' N N' := by
  have hh := h.holds
  obtain ⟨hdbs, hbytes⟩ := h.covers.dbs
  have hslot : w.file.lfiblock.ibDba.getD (v.file.lfpos % 8192 / 512) none =
      F.dbs[v.file.lfpos / 512]? := by
    obtain ⟨k, hk, hblk⟩ := hh.mem.iblock b h.inum
    obtain rfl := nodup_index hh.chain_nodup h.here hk
    rw [hblk, FileMap.iblock_slot (by omega), hdbs]
    congr 1
    omega
  have he := h.elsewhere.mono (List.Subset.refl F.chain) (List.nil_subset F.dbs)
  unfold fetchDblock
  rw [hslot]
  cases hn : F.dbs[v.file.lfpos / 512]? with
  | some n =>
    -- the block exists, so the file has not grown
    have hlt := (List.getElem?_eq_some_iff.mp hn).1
    cases hcov : h.covers with
    | grown hI hp => omega
    | same hstill =>
      have hs : SavedOrDirty w := fun hd => (hsaved (hstill.glob ▸ hd)).congr
        (by rw [hstill.glob]) (by rw [hstill.disk])
      refine Or.inr ⟨_, F, N, rfl, ?_⟩
      split
      · exact ⟨getDblock_holds hh hn h.clean, rfl, h.pos, rfl, ⟨b, h.inum, h.here⟩, ⟨n, rfl, hn⟩,
          hs, he, List.Perm.refl _, List.Perm.refl _, Or.inl ⟨rfl, rfl, rfl⟩,
          fun _ _ _ => ⟨hstill.glob, hstill.disk, hstill.ibdirty⟩⟩
      · rename_i hcached
        exact ⟨hh, rfl, h.pos, h.clean, ⟨b, h.inum, h.here⟩,
          ⟨n, (not_not.mp hcached).symm, hn⟩, hs, he, List.Perm.refl _, List.Perm.refl _,
          Or.inl ⟨rfl, rfl, rfl⟩, fun _ _ _ => hstill⟩
  | none =>
    -- the end of a file whose blocks are all full
    have hge := List.getElem?_eq_none_iff.mp hn
    have hc := hh.shape.covers
    have hx := hh.shape.indexed
    rw [hdbs, hbytes] at hc
    rw [hdbs] at hx
    have hend : v.file.lfpos = 512 * F.dbs.length := by omega
    have hlt := (List.getElem?_eq_some_iff.mp h.here).1
    cases N with
    | nil =>
      refine Or.inl ⟨"out of data blocks", ?_, rfl, hend⟩
      dsimp only
      rw [lfdballoc_empty hh]
      rfl
    | cons n N =>
      obtain ⟨u, hu, hhu, hfile, he', hs⟩ := newDblock_holds hh h.inum h.here
        (by rw [hdbs]; omega) (by rw [hdbs]; omega) (by rw [hdbs, hbytes]; omega) h.clean
      have hidx : F'.dbs.length % 16 = v.file.lfpos % 8192 / 512 := by
        rw [hdbs, hend]
        omega
      rw [hidx] at hhu
      refine Or.inr ⟨_, _, N, ?_, hhu, hbytes, ?_, ?_, ⟨b, ?_, h.here⟩, ⟨n, rfl, ?_⟩, ?_, ?_,
        h.covers.iperm, ?_, Or.inr ⟨hend, ?_, fun ht => ?_⟩, fun hlt => by omega⟩
      · dsimp only
        rw [hu]
        rfl
      · show u.file.lfpos = _
        rw [hfile]
        exact h.pos
      · show u.file.lfdbdirty = false
        rw [hfile]
        exact h.clean
      · show u.file.lfinum = some b
        rw [hfile]
        exact h.inum
      · show (F'.dbs ++ [n])[v.file.lfpos / 512]? = some n
        rw [show v.file.lfpos / 512 = F'.dbs.length by rw [hdbs]; omega,
          List.getElem?_concat_length]
      · exact fun _ => hs.congr rfl rfl
      · exact he.trans (he'.mono (List.nil_subset _) (List.nil_subset _))
      · show ((F'.dbs ++ [n]) ++ N).Perm (F.dbs ++ n :: N)
        rw [hdbs, List.append_assoc]
        rfl
      · show (F'.dbs ++ [n]).length = F.dbs.length + 1
        rw [hdbs, List.length_append, List.length_singleton]
      · have ht' := ht.ispare
        show 16 * F'.chain.length < (F'.dbs ++ [n]).length + 16
        rw [hdbs, List.length_append, List.length_singleton]
        cases h.covers with
        | same => omega
        | grown hI hp hd =>
          rw [List.length_append, List.length_singleton]
          omega

/-! ## `lfsetup` -/

/-- The byte pointer is no part of what a file holds. -/
theorem Holds.setByte (h : Holds g v F I N) : Holds g (setByte v) F I N :=
  { h with mem := { h.mem with } }

/-- The blocks that a position at the end of the file needs are not free. -/
def Exhausted (v : View) (F : FileMap) (I N : List Nat) : Prop :=
  NoIblock v F I ∨ NoDblock v F N

/-- There is nothing to write back. -/
theorem writeBack_clean (hib : v.file.lfibdirty = false) (hdb : v.file.lfdbdirty = false) :
    writeBack v = v := by
  unfold writeBack
  rw [hib, hdb]
  rfl

/-- **Positioning**: afterwards the blocks of the position are in memory and
the byte pointer is set, or the blocks have run out. -/
theorem lfsetup_spec (h : Holds g v F I N) (hpos : v.file.lfpos ≤ F.bytes.length)
    (hsaved : SavedOrDirty v) :
    (∃ msg, lfsetup v = .error (.panic msg) ∧ Exhausted v F I N) ∨
    ∃ w F' I' N', lfsetup v = .ok w ∧ Ready g v w F F' I I' N N' ∧
      w.file.lfbyte = v.file.lfpos % 512 := by
  obtain ⟨h₀, hf₀, hd₀, he₀, hs₀⟩ := writeBack_holds h
  have hp₀ : (writeBack v).file.lfpos = v.file.lfpos := by rw [hf₀]
  obtain ⟨hpos₀, hsaved₀⟩ : (writeBack v).file.lfpos ≤ F.bytes.length ∧
      SavedOrDirty (writeBack v) := ⟨by omega, hs₀ hsaved⟩
  -- what is short for the flushed file is short for `v`
  have hnoI : NoIblock (writeBack v) F I → Exhausted v F I N := fun hno =>
    Or.inl ⟨hno.1, hp₀ ▸ hno.2⟩
  have hnoD : NoDblock (writeBack v) F N → Exhausted v F I N := fun hno =>
    Or.inr ⟨hno.1, hp₀ ▸ hno.2⟩
  unfold lfsetup
  rcases firstIblock_spec h₀ hpos₀ (by rw [hf₀]) (by rw [hf₀]) with
    ⟨msg, hm, hno⟩ | ⟨u, F₁, I₁, b, j, hu, hat⟩
  · refine Or.inl ⟨msg, ?_, hnoI hno⟩
    rw [hm]
    rfl
  rw [hu]
  have hpu : u.file.lfpos = v.file.lfpos := hat.pos.trans hp₀
  rcases @coverLoop_spec g (writeBack v) u F I N (u.file.lfpos / LF_IDATA + 1) b j F₁ I₁ hat hpos₀
    (by unfold LF_IDATA; omega) with ⟨msg, hm, hno⟩ | ⟨w, F₂, I₂, b', hw, hat₂⟩
  · refine Or.inl ⟨msg, ?_, hnoI hno⟩
    show (coverLoop (u.file.lfpos / LF_IDATA + 1) u >>= _) = _
    rw [hm]
    rfl
  have hpw : w.file.lfpos = (writeBack v).file.lfpos := hat₂.pos
  have hindex : (w.file.lfpos &&& LF_IMASK) >>> 9 = (writeBack v).file.lfpos % 8192 / 512 := by
    rw [and_imask, hpw, Nat.shiftRight_eq_div_pow]
  rcases fetchDblock_spec hat₂ hpos₀ hsaved₀ with ⟨msg, hm, hno⟩ | ⟨x, F₃, N', hx, hr⟩
  · refine Or.inl ⟨msg, ?_, hnoD hno⟩
    show (coverLoop (u.file.lfpos / LF_IDATA + 1) u >>= _) = _
    rw [hw]
    show (fetchDblock w ((w.file.lfpos &&& LF_IMASK) >>> 9) >>= _) = _
    rw [hindex, hm]
    rfl
  refine Or.inr ⟨setByte x, F₃, I₂, N', ?_, ?_, ?_⟩
  · show (coverLoop (u.file.lfpos / LF_IDATA + 1) u >>= _) = _
    rw [hw]
    show (fetchDblock w ((w.file.lfpos &&& LF_IMASK) >>> 9) >>= _) = _
    rw [hindex, hx]
    rfl
  · exact
      { holds := hr.holds.setByte
        bytes := hr.bytes
        pos := hr.pos.trans hp₀
        clean := hr.clean
        inum := hp₀ ▸ hr.inum
        dnum := hp₀ ▸ hr.dnum
        saved := fun hd => (hr.saved hd).congr rfl rfl
        elsewhere := he₀.trans hr.elsewhere
        iperm := hr.iperm
        nperm := hr.nperm
        grown := hp₀ ▸ hr.grown
        still := fun hlt hib hdb => by
          have hclean := writeBack_clean hib hdb
          rw [hclean] at hr
          exact ⟨(hr.still hlt hib hdb).glob, (hr.still hlt hib hdb).disk,
            (hr.still hlt hib hdb).ibdirty⟩ }
  · show x.file.lfpos &&& LF_DMASK = _
    rw [and_dmask, hr.pos, hp₀]

end Xinu.Lfs
