import XinuCMips.Lfs.Transfer
import Mathlib.Data.List.ReduceOption

/-!
# Truncating a file

`lftruncate` walks along the index blocks of the file on disk. It frees the
data blocks of each one and writes it back cleared; the last one is made to
point to the free list, so that the whole chain stands in front of it in the
end. No index block moves: all of them keep their links.

* `freeDblocks_frees` — the data blocks of one index block;
* `Disposed` — the invariant of the walk, after `j` index blocks;
* `lftruncate_ends` — the file is empty, and its blocks are free.
-/

namespace Xinu.Lfs

open Bytes Follow

variable {g : Geometry} {u v w : View} {F : FileMap} {I N L : List Nat}

/-! ## Data blocks -/

/-- From `u` to `v` the data blocks `l` have been freed; the free list runs
through `L` now. -/
structure Frees (g : Geometry) (u v : View) (l L : List Nat) : Prop where
  file : v.file = u.file
  sized : v.disk.Sized
  dirOk : Lfdir.layout.Ok v.glob.lfDir
  ifree : v.glob.lfDir.lfdIfree = u.glob.lfDir.lfdIfree
  entry : v.ldptr = u.ldptr
  dblocks : Follows (nextD v.disk) v.glob.lfDir.lfdDfree L
  elsewhere : Elsewhere g [] l u.disk v.disk

/-- **One data block is freed**: it stands in front of the free list. -/
theorem lfdbfree_frees {n : Nat} (unused : Unused) (hsz : v.disk.Sized)
    (hdir : Lfdir.layout.Ok v.glob.lfDir)
    (hf : Follows (nextD v.disk) v.glob.lfDir.lfdDfree L) (hn : g.IsDblock n) (hnL : n ∉ L)
    (hL : ∀ k ∈ L, g.IsDblock k) : Frees g v (lfdbfree unused.1 v n) [n] (n :: L) := by
  obtain ⟨hd, hif, hc, hfs, hpad⟩ := hdir
  have hdir' : Lfdir.layout.Ok { v.glob.lfDir with lfdDfree := some n } := by
    refine ⟨fun x hx => ?_, hif, hc, hfs, hpad⟩
    obtain rfl := Option.some.inj hx
    exact hn.fits
  have hok : Lfdbfree.layout.Ok ⟨v.glob.lfDir.lfdDfree, unused.1⟩ := ⟨hd, unused.2⟩
  have he : Elsewhere g [] [n] v.disk (lfdbfree unused.1 v n).disk :=
    (Elsewhere.dblock hn (List.mem_singleton_self n) _).trans (Elsewhere.dir _)
  refine ⟨rfl, ?_, hdir', rfl, rfl, ⟨rfl, ?_⟩, he⟩
  · exact (hsz.write (Lfdbfree.layout.length_enc hok)).write (Lfdir.layout.length_enc hdir')
  · -- the freed block points to what was the first one
    have hnext : nextD (lfdbfree unused.1 v n).disk n = v.glob.lfDir.lfdDfree := by
      unfold nextD lfdbfree
      dsimp only
      rw [write_of_ne hn.ne_dir, write_self, Lfdbfree.layout.dec_enc hok]
    rw [hnext]
    refine hf.congr fun k hk => ?_
    unfold nextD
    rw [he.dblocks k (hL k hk).1 fun hmem => hnL (List.mem_singleton.mp hmem ▸ hk)]

/-- Empty slots of an index block do not matter. -/
theorem freeDblocks_eq (unused : List UInt8) (dba : List (Option Nat)) (v : View) :
    freeDblocks unused dba v = dba.reduceOption.foldl (lfdbfree unused) v := by
  induction dba generalizing v with
  | nil => rfl
  | cons b dba ih =>
    cases b with
    | none => exact ih v
    | some n => exact ih _

/-- **Data blocks are freed in order**, so that the last one comes first. -/
theorem foldl_frees (unused : Unused) (l : List Nat) (hsz : v.disk.Sized)
    (hdir : Lfdir.layout.Ok v.glob.lfDir)
    (hf : Follows (nextD v.disk) v.glob.lfDir.lfdDfree L) (hl : ∀ k ∈ l ++ L, g.IsDblock k)
    (hnd : (l ++ L).Nodup) :
    Frees g v (l.foldl (lfdbfree unused.1) v) l (l.reverse ++ L) := by
  induction l generalizing v L with
  | nil => exact ⟨rfl, hsz, hdir, rfl, rfl, hf, Elsewhere.refl⟩
  | cons n l ih =>
    have hn : g.IsDblock n := hl n List.mem_cons_self
    have hnl := List.nodup_cons.mp hnd
    have h₁ := lfdbfree_frees unused hsz hdir hf hn
      (fun hmem => hnl.1 (List.mem_append_right _ hmem))
      (fun k hk => hl k (List.mem_append_right _ hk))
    -- block `n` has moved from the file to the free list
    have hperm : (l ++ n :: L).Perm (n :: l ++ L) := List.perm_middle
    have h₂ := ih h₁.sized h₁.dirOk h₁.dblocks
      (fun k hk => hl k (hperm.subset hk)) (hperm.nodup_iff.mpr hnd)
    refine ⟨h₂.file.trans h₁.file, h₂.sized, h₂.dirOk, h₂.ifree.trans h₁.ifree,
      h₂.entry.trans h₁.entry, ?_, ?_⟩
    · rw [List.reverse_cons, List.append_assoc]
      exact h₂.dblocks
    · exact (h₁.elsewhere.mono (List.nil_subset _) (List.cons_subset.mpr
        ⟨List.mem_cons_self, List.nil_subset _⟩)).trans
        (h₂.elsewhere.mono (List.nil_subset _) (List.subset_cons_self n l))

/-- The data blocks that the `j`-th index block points to. -/
theorem reduceOption_slots (l : List Nat) (o n : Nat) :
    ((List.range n).map fun k => l[o + k]?).reduceOption = slice o n l := by
  unfold slice
  induction n with
  | zero => rfl
  | succ n ih =>
    rw [List.range_succ, List.map_append, List.reduceOption_append, ih, List.take_add_one,
      List.getElem?_drop, List.map_cons, List.map_nil]
    cases h : l[o + n]? <;> rfl

/-! ## The walk -/

/-- **The walk of `lftruncate` from `u` has passed `j` index blocks** and come
to `v`. -/
structure Disposed (g : Geometry) (F : FileMap) (I N : List Nat) (u v : View) (j : Nat) :
    Prop where
  file : v.file = u.file
  sized : v.disk.Sized
  dirOk : Lfdir.layout.Ok v.glob.lfDir
  entry : v.ldptr = { u.ldptr with ldIlist := none, ldSize := 0 }
  ifree : Follows (nextI v.disk) v.glob.lfDir.lfdIfree I
  dblocks : Follows (nextD v.disk) v.glob.lfDir.lfdDfree ((F.dbs.take (16 * j)).reverse ++ N)
  gone : ∀ k b, k < j → F.chain[k]? = some b → nextI v.disk b = (F.chain ++ I)[k + 1]?
  left : ∀ k b, j ≤ k → F.chain[k]? = some b → lfibget v.disk b = F.iblock k
  elsewhere : Elsewhere g F.chain F.dbs u.disk v.disk

/-- The link that an index block gets is the one it has, or leads to the free
list. -/
theorem linkBefore_iblock {j : Nat} (hj : j < F.chain.length) :
    linkBefore I.head? (F.iblock j) = (F.chain ++ I)[j + 1]? := by
  unfold linkBefore
  show (if F.chain[j + 1]? = none then I.head? else F.chain[j + 1]?) = _
  rw [List.getElem?_append]
  split
  · rename_i hnone
    have hge := List.getElem?_eq_none_iff.mp hnone
    rw [if_neg (by omega), show j + 1 - F.chain.length = 0 by omega, List.head?_eq_getElem?]
  · rename_i hsome
    rw [if_pos (List.getElem?_eq_some_iff.mp (Option.ne_none_iff_exists'.mp hsome).choose_spec).1]

/-- The data blocks of one more index block come in front. -/
theorem take_reverse_slots (l M : List Nat) (j : Nat) :
    (slice (16 * j) 16 l).reverse ++ ((l.take (16 * j)).reverse ++ M) =
      (l.take (16 * (j + 1))).reverse ++ M := by
  have htake : l.take (16 * (j + 1)) = l.take (16 * j) ++ slice (16 * j) 16 l := by
    rw [Nat.mul_succ, List.take_add]
    rfl
  rw [htake, List.reverse_append, List.append_assoc]

/-- **One turn of the walk.** -/
theorem Disposed.step {j b : Nat} (unused : Unused) (hu : Holds g u F I N)
    (h : Disposed g F I N u v j) (hb : F.chain[j]? = some b) :
    linkBefore I.head? (lfibget v.disk b) = (F.chain ++ I)[j + 1]? ∧
      Disposed g F I N u (disposeIblock unused.1 I.head? v b) (j + 1) := by
  have hj := (List.getElem?_eq_some_iff.mp hb).1
  have hmem := List.mem_of_getElem? hb
  have hlt := hu.chain_lt b hmem
  have hblk : lfibget v.disk b = F.iblock j := h.left j b (Nat.le_refl j) hb
  have hlink := linkBefore_iblock (I := I) hj
  refine ⟨hblk ▸ hlink, ?_⟩
  -- the data blocks of this index block
  have hslots : (F.iblock j).ibDba.reduceOption = slice (16 * j) 16 F.dbs := by
    show ((List.range 16).map fun k => F.dbs[j * 16 + k]?).reduceOption = _
    rw [reduceOption_slots, Nat.mul_comm]
  have hsub : slice (16 * j) 16 F.dbs ⊆ F.dbs := fun n hn =>
    List.mem_of_mem_drop (List.mem_of_mem_take hn)
  have hall : (slice (16 * j) 16 F.dbs ++ ((F.dbs.take (16 * j)).reverse ++ N)).Perm
      (F.dbs.take (16 * (j + 1)) ++ N) := by
    refine ((List.reverse_perm _).symm.append_right _).trans ?_
    rw [take_reverse_slots]
    exact (List.reverse_perm _).append_right N
  have hsubl : (F.dbs.take (16 * (j + 1)) ++ N).Sublist (F.dbs ++ N) :=
    (List.take_sublist _ _).append_right N
  have hfree : Frees g v (freeDblocks unused.1 (F.iblock j).ibDba v) (slice (16 * j) 16 F.dbs)
      ((F.dbs.take (16 * (j + 1))).reverse ++ N) := by
    rw [freeDblocks_eq, hslots, ← take_reverse_slots]
    exact foldl_frees unused _ h.sized h.dirOk h.dblocks
      (fun n hn => hu.nrange n (hsubl.subset (hall.subset hn)))
      (hall.nodup_iff.mpr (hsubl.nodup hu.nnodup))
  obtain ⟨hfile, hsz, hdir, hif, hentry, hdb, he⟩ := hfree
  -- the index block is written back, cleared
  have hok : Lfiblk.layout.Ok { lfibclear 0 with ibNext := (F.chain ++ I)[j + 1]? } := by
    refine ⟨fun c hc => Geometry.iblock_fits (hu.irange c (List.mem_of_getElem? hc)), ?_,
      List.length_replicate, fun a ha n hn => ?_⟩
    · show 0 < 256 ^ 4
      omega
    · rw [List.eq_of_mem_replicate ha] at hn
      cases hn
  have hdisk : (disposeIblock unused.1 I.head? v b).disk =
      lfibput (freeDblocks unused.1 (F.iblock j).ibDba v).disk b
        { lfibclear 0 with ibNext := (F.chain ++ I)[j + 1]? } := by
    unfold disposeIblock
    dsimp only
    rw [hblk, hlink]
  have hglob : (disposeIblock unused.1 I.head? v b).glob =
      (freeDblocks unused.1 (F.iblock j).ibDba v).glob := by
    unfold disposeIblock
    dsimp only
    rw [hblk]
  have hfile' : (disposeIblock unused.1 I.head? v b).file = v.file := by
    unfold disposeIblock
    dsimp only
    rw [hblk]
    exact hfile
  have hput : Elsewhere g [b] [] (freeDblocks unused.1 (F.iblock j).ibDba v).disk
      (disposeIblock unused.1 I.head? v b).disk := by
    rw [hdisk]
    exact Elsewhere.iblock hlt (List.mem_singleton_self b) hsz hok
  -- what becomes of the other index blocks
  have hother : ∀ c, c < g.nib → c ≠ b →
      lfibget (disposeIblock unused.1 I.head? v b).disk c = lfibget v.disk c := by
    intro c hc hne
    rw [hput.iblocks c hc fun hm => hne (List.mem_singleton.mp hm),
      he.iblocks c hc List.not_mem_nil]
  refine ⟨hfile'.trans h.file, ?_, ?_, ?_, ?_, ?_, ?_, ?_, ?_⟩
  · rw [hdisk]
    exact hsz.lfibput hok
  · rw [hglob]
    exact hdir
  · rw [← h.entry, ← hentry]
    unfold View.ldptr
    rw [hglob, hfile', hfile]
  · rw [hglob, hif]
    refine h.ifree.congr fun c hc => ?_
    unfold nextI
    rw [hother c (hu.irange c (List.mem_append_right _ hc)) fun heq =>
      (hu.apartI hmem c hc).2 (heq ▸ List.mem_singleton_self b)]
  · rw [hglob]
    refine hdb.congr fun n hn => ?_
    unfold nextD
    have hn' : n ∈ F.dbs ++ N := hsubl.subset (((List.reverse_perm _).append_right N).subset hn)
    rw [hput.dblocks n (hu.nrange n hn').1 List.not_mem_nil]
  · intro k c hk hc
    by_cases hkj : k = j
    · obtain rfl := hkj
      obtain rfl := Option.some.inj (hb.symm.trans hc)
      unfold nextI
      rw [hdisk, lfibget_lfibput_self hsz hok]
    · rw [← h.gone k c (by omega) hc]
      unfold nextI
      rw [hother c (hu.chain_lt c (List.mem_of_getElem? hc)) fun heq =>
        hkj (nodup_index hu.chain_nodup hc (heq ▸ hb))]
  · intro k c hk hc
    rw [hother c (hu.chain_lt c (List.mem_of_getElem? hc)) fun heq => by
      have := nodup_index hu.chain_nodup hc (heq ▸ hb)
      omega]
    exact h.left k c (by omega) hc
  · exact (h.elsewhere.trans (he.mono (List.nil_subset _) hsub)).trans
      (hput.mono (List.cons_subset.mpr ⟨hmem, List.nil_subset _⟩) (List.nil_subset _))

/-- **The walk** ends behind the last index block of the file. -/
theorem truncLoop_spec {fuel j : Nat} (unused : Unused) (hu : Holds g u F I N)
    (h : Disposed g F I N u v j) (hj : j ≤ F.chain.length) (hfuel : F.chain.length - j ≤ fuel) :
    ∃ w, truncLoop unused.1 I.head? fuel (F.chain ++ I)[j]? v = .ok w ∧
      Disposed g F I N u w F.chain.length := by
  induction fuel generalizing j v with
  | zero =>
    obtain rfl : j = F.chain.length := by omega
    rw [List.getElem?_append_right (Nat.le_refl _), Nat.sub_self, ← List.head?_eq_getElem?,
      truncLoop_end]
    exact ⟨v, rfl, h⟩
  | succ fuel ih =>
    rcases Nat.lt_or_ge j F.chain.length with hlt | hge
    · obtain ⟨b, hb⟩ : ∃ b, F.chain[j]? = some b := ⟨_, List.getElem?_eq_getElem hlt⟩
      obtain ⟨hlink, hstep⟩ := h.step unused hu hb
      -- a block of the file is not on the free list
      have hne : some b ≠ I.head? := fun heq =>
        (hu.apartI (List.mem_of_getElem? hb) b (List.mem_of_mem_head? heq.symm)).2
          (List.mem_singleton_self b)
      rw [List.getElem?_append_left hlt, hb, truncLoop_step hne, hlink]
      exact ih hstep (by omega) (by omega)
    · obtain rfl : j = F.chain.length := by omega
      rw [List.getElem?_append_right (Nat.le_refl _), Nat.sub_self, ← List.head?_eq_getElem?,
        truncLoop_end]
      exact ⟨v, rfl, h⟩

/-! ## Truncation -/

/-- The walk starts when the entry of the file is cleared. -/
theorem clearEntry_disposed (h : Holds g v F I N) (hclean : v.file.lfibdirty = false) :
    Disposed g F I N v (clearEntry v) 0 := by
  have hlt : v.file.lfdirptr < v.glob.lfDir.lfdFiles.length := by
    rw [h.files_length]
    exact h.slot
  have hhead := h.free.iblocks
  refine ⟨rfl, h.sized, ?_, ldptr_setEntry hlt, hhead, ?_, fun k b hk => by omega, ?_,
    Elsewhere.refl⟩
  · refine setEntry_ok h.dirOk ⟨?_, fun x hx => ?_, h.entry_ok.2.2⟩
    · show 0 < 256 ^ 4
      omega
    · cases hx
  · rw [Nat.mul_zero, List.take_zero]
    exact h.free.dblocks
  · intro k b _ hk
    exact h.disk.iblocks k b hk (by rw [dirtyIb_clean hclean]; exact Option.some_ne_none b)

/-- **All blocks of the file are freed.** -/
theorem disposeBlocks_spec (unused : Unused) (h : Holds g v F I N) (ht : F.Tight)
    (hbytes : 0 < F.bytes.length) (hclean : v.file.lfibdirty = false) :
    ∃ w, disposeBlocks unused.1 v = .ok (setIfree w F.chain.head?) ∧
      Disposed g F I N v w F.chain.length := by
  have hcovers := h.shape.covers
  have hindexed := h.shape.indexed
  have hspare := ht.spare
  have hispare := ht.ispare
  have hfirst : v.ldptr.ldIlist = (F.chain ++ I)[0]? := by
    rw [h.first, List.getElem?_append_left (by omega), List.head?_eq_getElem?]
  have hifree : v.glob.lfDir.lfdIfree = I.head? := h.free.iblocks.head?_eq
  -- there are enough turns for the index blocks of the file
  have hfuel : F.chain.length - 0 ≤ v.ldptr.ldSize / LF_IDATA + 1 := by
    rw [h.size]
    unfold LF_IDATA
    omega
  obtain ⟨w, hw, hd⟩ := truncLoop_spec unused h (clearEntry_disposed h hclean) (Nat.zero_le _) hfuel
  refine ⟨w, ?_, hd⟩
  unfold disposeBlocks
  rw [hifree, hfirst, hw, ← hfirst, h.first]
  rfl

/-- The chain of the file stands in front of the free list. -/
theorem Disposed.chain_follows (h : Disposed g F I N u v F.chain.length) (hI : F.chain ≠ []) :
    Follows (nextI v.disk) F.chain.head? (F.chain ++ I) := by
  have hhead : F.chain.head? = (F.chain ++ I).head? := by
    rw [List.head?_append]
    cases hc : F.chain with
    | nil => exact absurd hc hI
    | cons b l => rfl
  have hfree := h.ifree
  have hfirst := hfree.head?_eq
  rw [hhead]
  refine follows_iff_getElem?.mpr fun k b hk => ?_
  rw [List.getElem?_append] at hk
  split at hk
  · rename_i hlt
    exact h.gone k b hlt hk
  · rename_i hge
    rw [hfirst] at hfree
    rw [follows_iff_getElem?.mp hfree _ b hk, List.getElem?_append_right (by omega)]
    congr 1
    omega

/-- A file without blocks whose control block holds nothing. -/
structure Reset (f : Lflcblk) : Prop where
  inum : f.lfinum = none
  dnum : f.lfdnum = none
  ibdirty : f.lfibdirty = false
  dbdirty : f.lfdbdirty = false
  pos : f.lfpos = 0
  byte : f.lfbyte = LF_BLKSIZ

/-- **After the walk** the file is empty. -/
theorem Disposed.settled (hu : Holds g u F I N) (h : Disposed g F I N u v F.chain.length)
    (hI : F.chain ≠ []) (hr : Reset u.file) :
    Settled g (setIfree v F.chain.head?) ⟨[], [], []⟩ (F.chain ++ I) (F.dbs.reverse ++ N) := by
  have hr' : Reset (setIfree v F.chain.head?).file := by
    show Reset v.file
    rw [h.file]
    exact hr
  have hlists := h.dblocks
  rw [List.take_of_length_le (by have := hu.shape.indexed; omega)] at hlists
  have hnperm : (F.dbs.reverse ++ N).Perm (F.dbs ++ N) := (List.reverse_perm _).append_right N
  refine
    { used := ?_, sized := h.sized, dirOk := ?_, slot := ?_, size := ?_, first := ?_,
      shape := ⟨Nat.le_refl _, Nat.zero_le _, Nat.le_refl _, Nat.zero_le _⟩,
      inodup := hu.inodup, irange := hu.irange, nnodup := hnperm.nodup_iff.mpr hu.nnodup,
      nrange := fun n hn => hu.nrange n (hnperm.subset hn), free := ⟨h.chain_follows hI, hlists⟩,
      disk := ?_, mem := ?_, tight := ⟨by show 0 < 512; omega, by show 0 < 16; omega⟩, pos := ?_,
      byte := Or.inl hr'.byte, saved := fun hd => Bool.noConfusion hd }
  · show v.file.lfstate = .used
    rw [h.file]
    exact hu.used
  · obtain ⟨hd, -, hrest⟩ := h.dirOk
    refine ⟨hd, fun x hx => Geometry.iblock_fits (hu.chain_lt x ?_), hrest⟩
    exact List.mem_of_mem_head? (Option.mem_def.mpr hx)
  · show v.file.lfdirptr < LF_NUM_DIR_ENT
    rw [h.file]
    exact hu.slot
  · show v.ldptr.ldSize = 0
    rw [h.entry]
  · show v.ldptr.ldIlist = none
    rw [h.entry]
  · exact ⟨fun _ _ hj => (by cases hj), fun _ _ hm => (by cases hm)⟩
  · refine ⟨fun b hb => ?_, fun n hn => ?_, fun hb => ?_, fun hb => ?_⟩
    · cases hr'.inum.symm.trans hb
    · cases hr'.dnum.symm.trans hn
    · cases hr'.ibdirty.symm.trans hb
    · cases hr'.dbdirty.symm.trans hb
  · rw [hr'.pos]
    exact Nat.zero_le _

/-- **Truncation** makes the file empty and frees its blocks. -/
theorem lftruncate_ends (unused : Unused) (h : Settled g v F I N) :
    Ends g v F I N (lftruncate unused.1 v) OK [] 0 := by
  unfold lftruncate
  rw [h.size]
  have hpos := h.pos
  by_cases hzero : F.bytes.length = 0
  · rw [if_pos hzero]
    have hnil := List.length_eq_zero_iff.mp hzero
    have hp : v.file.lfpos = 0 := by omega
    have hok := Ends.ok (v := v) (r := OK) h rfl
    rw [hnil, hp] at hok
    exact hok
  rw [if_neg hzero]
  -- nothing is in memory from here on
  obtain ⟨h₀, hf₀, -, he₀, -⟩ := writeBack_holds h.toHolds
  have h₁ : Holds g (resetFile (writeBack v)) F I N := by
    have hd : dirtyIb (resetFile (writeBack v)).file = none := dirtyIb_clean (by
      show (writeBack v).file.lfibdirty = false
      rw [hf₀])
    have hd' : dirtyDb (resetFile (writeBack v)).file = none := dirtyDb_clean (by
      show (writeBack v).file.lfdbdirty = false
      rw [hf₀])
    have hold := h₀.disk
    rw [dirtyIb_clean (by rw [hf₀]), dirtyDb_clean (by rw [hf₀])] at hold
    refine { h₀ with disk := ?_, mem := ⟨fun b hb => ?_, fun n hn => ?_, fun hb => ?_,
      fun hb => ?_⟩ }
    · rw [hd, hd']
      exact hold
    · cases hb
    · cases hn
    · have hb : (writeBack v).file.lfibdirty = true := hb
      rw [hf₀] at hb
      cases hb
    · have hb : (writeBack v).file.lfdbdirty = true := hb
      rw [hf₀] at hb
      cases hb
  have hreset : Reset (resetFile (writeBack v)).file := by
    refine ⟨rfl, rfl, ?_, ?_, rfl, rfl⟩
    · show (writeBack v).file.lfibdirty = false
      rw [hf₀]
    · show (writeBack v).file.lfdbdirty = false
      rw [hf₀]
  obtain ⟨w, hw, hd⟩ := disposeBlocks_spec unused h₁ h.tight (by omega) hreset.ibdirty
  have hchain : F.chain ≠ [] := by
    intro hc
    have hdbs := h.no_blocks hc
    have := h.shape.covers
    rw [hdbs, List.length_nil] at this
    omega
  refine Or.inr ⟨setIfree w F.chain.head?, ⟨[], [], []⟩, F.chain ++ I, F.dbs.reverse ++ N, ?_,
    hd.settled h₁ hchain hreset, ⟨?_, List.Perm.refl _, (List.reverse_perm _).append_right N⟩, rfl,
    ?_⟩
  · rw [hw]
    rfl
  · exact (he₀.trans hd.elsewhere).mono (List.subset_append_left _ _)
      (List.subset_append_left _ _)
  · show w.file.lfpos = 0
    rw [hd.file]
    rfl

end Xinu.Lfs
