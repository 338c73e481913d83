import XinuCMips.Lfs.FileMap

/-!
# Moving blocks

What the parts of `lfsetup` do to a file that lies at `F`: flushing what is
cached, taking blocks from the free lists and adding them at the end of the
file, and loading blocks into memory. None of them changes the bytes of the
file.

* `writeBack_holds` — a flush brings the disk up to date;
* `lfiballoc_holds`, `startFile_holds`, `extendFile_holds` — a new index block;
* `newDblock_holds` — a new data block;
* `getIblock_holds`, `getDblock_holds` — blocks of the file that are loaded.
-/

namespace Xinu.Lfs

open Follow

variable {g : Geometry} {v w : View} {F : FileMap} {I N : List Nat}

/-! ## The directory on disk -/

/-- The directory `d` on disk describes the files of the directory `d'` in
memory, but for empty files that were created since. -/
structure SameDir (d d' : Lfdir) : Prop where
  dfree : d.lfdDfree = d'.lfdDfree
  ifree : d.lfdIfree = d'.lfdIfree
  nfiles : d.lfdNfiles ≤ d'.lfdNfiles
  files : ∀ i, i < d.lfdNfiles → d.lfdFiles[i]? = d'.lfdFiles[i]?
  fresh : ∀ i e, d.lfdNfiles ≤ i → i < d'.lfdNfiles → d'.lfdFiles[i]? = some e →
    e.ldSize = 0 ∧ e.ldIlist = none

theorem SameDir.refl (d : Lfdir) : SameDir d d :=
  ⟨rfl, rfl, Nat.le_refl _, fun _ _ => rfl, fun i e h h' => by omega⟩

/-- The directory on disk is up to date. -/
def Saved (v : View) : Prop :=
  SameDir (Lfdir.layout.dec (v.disk LF_AREA_DIR)) v.glob.lfDir

/-- The directory on disk is up to date unless it is marked as changed. -/
def SavedOrDirty (v : View) : Prop := v.glob.lfDirdirty = false → Saved v

/-- Only the directory sector counts. -/
theorem Saved.congr (h : Saved v) (hdir : w.glob.lfDir = v.glob.lfDir)
    (hd : w.disk LF_AREA_DIR = v.disk LF_AREA_DIR) : Saved w := by
  unfold Saved
  rw [hdir, hd]
  exact h

theorem saved_saveDir (h : Lfdir.layout.Ok v.glob.lfDir) : Saved v.saveDir := by
  have heq : Lfdir.layout.dec (v.saveDir.disk LF_AREA_DIR) = v.glob.lfDir :=
    (congrArg Lfdir.layout.dec (write_self v.disk LF_AREA_DIR _)).trans (Lfdir.layout.dec_enc h)
  unfold Saved
  rw [heq]
  exact SameDir.refl _

/-- Writing the directory changes nothing else. -/
theorem Holds.saveDir (h : Holds g v F I N) : Holds g v.saveDir F I N := by
  have he : Elsewhere g [] [] v.disk v.saveDir.disk := Elsewhere.dir _
  refine { h with sized := ?_, free := ?_, disk := ?_ }
  · exact h.sized.write (Lfdir.layout.length_enc h.dirOk)
  · exact h.free.elsewhere he
      (fun b hb => ⟨h.irange b (List.mem_append_right _ hb), List.not_mem_nil⟩)
      (fun n hn => ⟨h.nrange n (List.mem_append_right _ hn), List.not_mem_nil⟩)
  · exact h.disk.elsewhere he (fun b hb => ⟨h.chain_lt b hb, List.not_mem_nil⟩)
      (fun n hn => ⟨h.dbs_range n hn, List.not_mem_nil⟩)

/-! ## Flushing -/

/-- Blocks of the file are not on the free lists. -/
theorem Holds.apartI (h : Holds g v F I N) {b : Nat} (hb : b ∈ F.chain) :
    ∀ c ∈ I, c < g.nib ∧ c ∉ [b] := fun c hc =>
  ⟨h.irange c (List.mem_append_right _ hc), fun heq =>
    (List.nodup_append.mp h.inodup).2.2 b hb c hc (List.mem_singleton.mp heq).symm⟩

theorem Holds.apartN (h : Holds g v F I N) {n : Nat} (hn : n ∈ F.dbs) :
    ∀ c ∈ N, g.IsDblock c ∧ c ∉ [n] := fun c hc =>
  ⟨h.nrange c (List.mem_append_right _ hc), fun heq =>
    (List.nodup_append.mp h.nnodup).2.2 n hn c hc (List.mem_singleton.mp heq).symm⟩

theorem Holds.chain_nodup (h : Holds g v F I N) : F.chain.Nodup :=
  (List.nodup_append.mp h.inodup).1

theorem Holds.dbs_nodup (h : Holds g v F I N) : F.dbs.Nodup :=
  (List.nodup_append.mp h.nnodup).1

theorem flushDblock_file (v : View) :
    (flushDblock v).file = { v.file with lfdbdirty := false } := by
  unfold flushDblock
  split
  · rfl
  · rename_i hd
    have hd' : v.file.lfdbdirty = false := by simpa using hd
    conv_rhs => rw [← hd']

theorem flushIblock_file (v : View) :
    (flushIblock v).file = { v.file with lfibdirty := false } := by
  unfold flushIblock
  split
  · rfl
  · rename_i hd
    have hd' : v.file.lfibdirty = false := by simpa using hd
    conv_rhs => rw [← hd']

/-- **The cached data block is written.** -/
theorem Holds.flushDblock (h : Holds g v F I N) :
    Holds g (flushDblock v) F I N ∧ (flushDblock v).glob = v.glob ∧
      Elsewhere g F.chain F.dbs v.disk (flushDblock v).disk ∧
      (flushDblock v).disk LF_AREA_DIR = v.disk LF_AREA_DIR := by
  cases hd : v.file.lfdbdirty with
  | false =>
    have heq : Lfs.flushDblock v = v := if_neg (by rw [hd]; exact Bool.false_ne_true)
    rw [heq]
    exact ⟨h, rfl, Elsewhere.refl, rfl⟩
  | true =>
    cases hn : v.file.lfdnum with
    | none => exact absurd hn (h.mem.dbdirty hd)
    | some n =>
      obtain ⟨m, hm, hag⟩ := h.mem.dblock n hn
      have hmem := List.mem_of_getElem? hm
      have hrange := h.dbs_range n hmem
      have heq : Lfs.flushDblock v = { v with
          disk := v.disk.write n v.file.lfdblock
          file := { v.file with lfdbdirty := false } } := by
        unfold Lfs.flushDblock
        rw [if_pos hd, hn]
        rfl
      have he : Elsewhere g F.chain [n] v.disk (v.disk.write n v.file.lfdblock) :=
        Elsewhere.dblock hrange (List.mem_singleton_self n) _
      have he' : Elsewhere g [] [n] v.disk (v.disk.write n v.file.lfdblock) :=
        Elsewhere.dblock hrange (List.mem_singleton_self n) _
      rw [heq]
      refine ⟨{ h with sized := ?_, free := ?_, disk := ⟨?_, ?_⟩, mem := ?_ }, rfl,
        he.mono (List.Subset.refl _) (List.cons_subset.mpr ⟨hmem, List.nil_subset _⟩),
        write_of_ne hrange.ne_dir.symm⟩
      · exact h.sized.write hag.1
      · exact h.free.elsewhere he'
          (fun b hb => ⟨h.irange b (List.mem_append_right _ hb), List.not_mem_nil⟩)
          (h.apartN hmem)
      · intro j b hj hne
        rw [he'.iblocks b (h.chain_lt b (List.mem_of_getElem? hj)) List.not_mem_nil]
        exact h.disk.iblocks j b hj hne
      · -- the block that was behind now holds what the cache held
        intro m' n' hm' _
        show F.Agrees m' (v.disk.write n v.file.lfdblock n')
        by_cases hnn : n' = n
        · subst n'
          obtain rfl := nodup_index h.dbs_nodup hm hm'
          rw [write_self]
          exact hag
        · rw [write_of_ne hnn]
          refine h.disk.dblocks m' n' hm' ?_
          unfold dirtyDb
          rw [if_pos hd, hn]
          exact fun heq => hnn (Option.some.inj heq)
      · exact { h.mem with dbdirty := fun hf => Bool.noConfusion hf }

/-- **The cached index block is written.** -/
theorem Holds.flushIblock (h : Holds g v F I N) :
    Holds g (flushIblock v) F I N ∧ (flushIblock v).glob = v.glob ∧
      Elsewhere g F.chain F.dbs v.disk (flushIblock v).disk ∧
      (flushIblock v).disk LF_AREA_DIR = v.disk LF_AREA_DIR := by
  cases hd : v.file.lfibdirty with
  | false =>
    have heq : Lfs.flushIblock v = v := if_neg (by rw [hd]; exact Bool.false_ne_true)
    rw [heq]
    exact ⟨h, rfl, Elsewhere.refl, rfl⟩
  | true =>
    cases hb : v.file.lfinum with
    | none => exact absurd hb (h.mem.ibdirty hd)
    | some b =>
      obtain ⟨j, hj, hib⟩ := h.mem.iblock b hb
      have hmem := List.mem_of_getElem? hj
      have hlt := h.chain_lt b hmem
      have hok := h.iblock_ok (List.getElem?_eq_some_iff.mp hj).1
      have heq : Lfs.flushIblock v = { v with
          disk := lfibput v.disk b (F.iblock j)
          file := { v.file with lfibdirty := false } } := by
        unfold Lfs.flushIblock
        rw [if_pos hd, hb, hib]
        rfl
      have he : Elsewhere g [b] F.dbs v.disk (lfibput v.disk b (F.iblock j)) :=
        Elsewhere.iblock hlt (List.mem_singleton_self b) h.sized hok
      have he' : Elsewhere g [b] [] v.disk (lfibput v.disk b (F.iblock j)) :=
        Elsewhere.iblock hlt (List.mem_singleton_self b) h.sized hok
      rw [heq]
      refine ⟨{ h with sized := ?_, free := ?_, disk := ⟨?_, ?_⟩, mem := ?_ }, rfl,
        he.mono (List.cons_subset.mpr ⟨hmem, List.nil_subset _⟩) (List.Subset.refl _),
        @lfibput_of_ne v.disk b (F.iblock j) LF_AREA_DIR ?_⟩
      · exact h.sized.lfibput hok
      · exact h.free.elsewhere he' (h.apartI hmem)
          (fun n hn => ⟨h.nrange n (List.mem_append_right _ hn), List.not_mem_nil⟩)
      · intro j' b' hj' _
        by_cases hbb : b' = b
        · subst b'
          obtain rfl := nodup_index h.chain_nodup hj hj'
          exact lfibget_lfibput_self h.sized hok
        · rw [lfibget_lfibput_of_ne h.sized hok hbb]
          refine h.disk.iblocks j' b' hj' ?_
          unfold dirtyIb
          rw [if_pos hd, hb]
          exact fun heq => hbb (Option.some.inj heq)
      · intro m n hm hne
        show F.Agrees m (lfibput v.disk b (F.iblock j) n)
        rw [he'.dblocks n (h.dbs_range n (List.mem_of_getElem? hm)).1 List.not_mem_nil]
        exact h.disk.dblocks m n hm hne
      · exact { h.mem with ibdirty := fun hf => Bool.noConfusion hf }
      · have := Geometry.ib2sect_range hlt
        unfold LF_AREA_DIR
        omega

theorem Holds.flushDir (h : Holds g v F I N) :
    Holds g (flushDir v) F I N ∧ (flushDir v).file = v.file ∧
      (flushDir v).glob.lfDir = v.glob.lfDir ∧
      Elsewhere g F.chain F.dbs v.disk (flushDir v).disk ∧
      (SavedOrDirty v → Saved (flushDir v)) := by
  cases hd : v.glob.lfDirdirty with
  | false =>
    have heq : Lfs.flushDir v = v := if_neg (by rw [hd]; exact Bool.false_ne_true)
    rw [heq]
    exact ⟨h, rfl, rfl, Elsewhere.refl, fun hs => hs hd⟩
  | true =>
    have heq : Lfs.flushDir v = v.saveDir := if_pos hd
    rw [heq]
    exact ⟨h.saveDir, rfl, rfl, Elsewhere.dir _, fun _ => saved_saveDir h.dirOk⟩

/-- **Flushing an open file** brings disk and directory up to date. -/
theorem Holds.lfflush (h : Holds g v F I N) :
    Holds g (lfflush v).2 F I N ∧
      (lfflush v).2.file = { v.file with lfibdirty := false, lfdbdirty := false } ∧
      (lfflush v).2.glob.lfDir = v.glob.lfDir ∧
      Elsewhere g F.chain F.dbs v.disk (lfflush v).2.disk ∧
      (SavedOrDirty v → Saved (lfflush v).2) := by
  have heq : (Lfs.lfflush v).2 = Lfs.flushIblock (Lfs.flushDblock (Lfs.flushDir v)) := by
    unfold Lfs.lfflush
    rw [if_neg (by rw [h.used]; exact LfState.noConfusion)]
  obtain ⟨h₁, hf₁, hd₁, he₁, hs₁⟩ := h.flushDir
  obtain ⟨h₂, hg₂, he₂, hz₂⟩ := h₁.flushDblock
  obtain ⟨h₃, hg₃, he₃, hz₃⟩ := h₂.flushIblock
  rw [heq]
  refine ⟨h₃, ?_, ?_, he₁.trans (he₂.trans he₃), fun hs => ?_⟩
  · rw [flushIblock_file, flushDblock_file, hf₁]
  · rw [hg₃, hg₂, hd₁]
  · exact (hs₁ hs).congr (by rw [hg₃, hg₂]) (hz₃.trans hz₂)

theorem clean_eq {f : Lflcblk} (hi : f.lfibdirty = false) (hd : f.lfdbdirty = false) :
    { f with lfibdirty := false, lfdbdirty := false } = f := by
  cases f
  cases hi
  cases hd
  rfl

/-- **Nothing is left in the caches only.** -/
theorem writeBack_holds (h : Holds g v F I N) :
    Holds g (writeBack v) F I N ∧
      (writeBack v).file = { v.file with lfibdirty := false, lfdbdirty := false } ∧
      (writeBack v).glob.lfDir = v.glob.lfDir ∧
      Elsewhere g F.chain F.dbs v.disk (writeBack v).disk ∧
      (SavedOrDirty v → SavedOrDirty (writeBack v)) := by
  unfold writeBack
  split
  · obtain ⟨h₁, hf, hd, he, hs⟩ := h.lfflush
    exact ⟨h₁, hf, hd, he, fun h _ => hs h⟩
  · rename_i hclean
    simp only [Bool.or_eq_true, not_or, Bool.not_eq_true] at hclean
    exact ⟨h, (clean_eq hclean.1 hclean.2).symm, rfl, Elsewhere.refl, id⟩

/-! ## New blocks -/

theorem ldptr_setEntry {e : Ldentry} (h : v.file.lfdirptr < v.glob.lfDir.lfdFiles.length) :
    (v.setEntry e).ldptr = e := by
  unfold View.setEntry View.ldptr
  dsimp only
  rw [List.getD_eq_getElem?_getD, List.getElem?_set_self h]
  rfl

/-- A directory with another entry for the file. -/
theorem setEntry_ok {e : Ldentry} (h : Lfdir.layout.Ok v.glob.lfDir) (he : Ldentry.layout.Ok e) :
    Lfdir.layout.Ok (v.setEntry e).glob.lfDir := by
  obtain ⟨hn, hi, hc, ⟨hlen, hall⟩, hpad⟩ := h
  refine ⟨hn, hi, hc, ⟨(List.length_set).trans hlen, fun e' he' => ?_⟩, hpad⟩
  rcases List.mem_or_eq_of_mem_set he' with hmem | rfl
  · exact hall e' hmem
  · exact he

/-- The entry of the file fits its fields. -/
theorem Holds.entry_ok (h : Holds g v F I N) : Ldentry.layout.Ok v.ldptr := by
  have hlt : v.file.lfdirptr < v.glob.lfDir.lfdFiles.length := by
    rw [h.files_length]
    exact h.slot
  refine h.dirOk.2.2.2.1.2 v.ldptr ?_
  unfold View.ldptr
  rw [List.getD_eq_getElem?_getD, List.getElem?_eq_getElem hlt]
  exact List.getElem_mem hlt

theorem Holds.no_blocks (h : Holds g v F I N) (hc : F.chain = []) : F.dbs = [] := by
  have := h.shape.indexed
  rw [hc, List.length_nil] at this
  exact List.length_eq_zero_iff.mp (by omega)

/-- The next free index block is a block number or none. -/
theorem Holds.nextI_ok (h : Holds g v F I N) {b : Nat} {l : List Nat}
    (hf : Follows (nextI v.disk) (some b) (b :: l)) (hl : ∀ c ∈ l, c ∈ I) :
    ∀ x, nextI v.disk b = some x → x < 256 ^ 4 - 1 := by
  intro x hx
  rw [hf.next_eq] at hx
  have hmem : x ∈ l := List.mem_of_mem_head? (Option.mem_def.mpr hx)
  exact Geometry.iblock_fits (h.irange x (List.mem_append_right _ (hl x hmem)))

/-- **An index block is taken from the free list**, and the directory is
written. -/
theorem lfiballoc_holds {i : Nat} (h : Holds g v F (i :: I) N) :
    ∃ w, lfiballoc v = .ok (i, w) ∧ Holds g w F I N ∧ w.file = v.file ∧ w.ldptr = v.ldptr ∧
      Elsewhere g [] [] v.disk w.disk ∧ Saved w := by
  have hi := h.free.iblocks
  have hfree : v.glob.lfDir.lfdIfree = some i := hi.1
  rw [hfree] at hi
  -- the directory before it is written
  have h₀ : Holds g { v with glob := { v.glob with lfDir := { v.glob.lfDir with
      lfdIfree := nextI v.disk i } } } F I N := by
    obtain ⟨hn, -, hc, hfs, hpad⟩ := h.dirOk
    have hsub : F.chain ++ I ⊆ F.chain ++ i :: I := by
      intro b hb
      rcases List.mem_append.mp hb with hb | hb
      · exact List.mem_append_left _ hb
      · exact List.mem_append_right _ (List.mem_cons_of_mem i hb)
    refine { h with
      dirOk := ⟨hn, ?_, hc, hfs, hpad⟩, inodup := ?_, irange := fun b hb => h.irange b (hsub hb),
      free := ⟨hi.tail, h.free.dblocks⟩ }
    · exact h.nextI_ok hi fun c hc => List.mem_cons_of_mem i hc
    · exact (List.Sublist.append_left (List.sublist_cons_self i I) F.chain).nodup h.inodup
  refine ⟨_, ?_, h₀.saveDir, rfl, rfl, Elsewhere.dir _, saved_saveDir h₀.dirOk⟩
  unfold lfiballoc
  rw [hfree]
  rfl

theorem lfiballoc_empty (h : Holds g v F [] N) :
    lfiballoc v = .error (.panic "out of index blocks") := by
  have hfree : v.glob.lfDir.lfdIfree = none := h.free.iblocks
  unfold lfiballoc
  rw [hfree]

theorem lfdballoc_empty (h : Holds g v F I []) :
    lfdballoc v = .error (.panic "out of data blocks") := by
  have hfree : v.glob.lfDir.lfdDfree = none := h.free.dblocks
  unfold lfdballoc
  rw [hfree]

/-- **The first index block of an empty file.** -/
theorem startFile_holds {i : Nat} (h : Holds g v F I N) (hc : F.chain = [])
    (hi : i < g.nib) (hiI : i ∉ I) (hnum : v.file.lfdnum = none) :
    Holds g (startFile v i) { F with chain := [i] } I N ∧
      (startFile v i).file = { v.file with
        lfiblock := lfibclear 0, lfibdirty := true, lfinum := some i } := by
  have hdbs := h.no_blocks hc
  have hbytes : F.bytes.length = 0 := by
    have := h.shape.covers
    rw [hdbs, List.length_nil] at this
    omega
  have hlt : v.file.lfdirptr < v.glob.lfDir.lfdFiles.length := by
    rw [h.files_length]
    exact h.slot
  have hentry : (startFile v i).ldptr = { v.ldptr with ldIlist := some i } :=
    @ldptr_setEntry { v with file := { v.file with
      lfiblock := lfibclear 0, lfibdirty := true, lfinum := some i } } _ hlt
  have hinodup := h.inodup
  rw [hc, List.nil_append] at hinodup
  refine ⟨{ h with
    dirOk := ?_, size := by rw [hentry]; exact h.size, first := by rw [hentry]; rfl,
    shape := ?_, inodup := List.nodup_cons.mpr ⟨hiI, hinodup⟩, irange := ?_,
    free := ⟨h.free.iblocks, h.free.dblocks⟩, disk := ?_, mem := ?_ }, rfl⟩
  · refine @setEntry_ok { v with file := { v.file with
      lfiblock := lfibclear 0, lfibdirty := true, lfinum := some i } } _ h.dirOk ?_
    refine ⟨h.entry_ok.1, fun x hx => ?_, h.entry_ok.2.2⟩
    obtain rfl := Option.some.inj hx
    exact Geometry.iblock_fits hi
  · refine ⟨h.shape.covers, h.shape.spare, ?_, ?_⟩ <;> simp [hdbs]
  · intro b hb
    rcases List.mem_cons.mp hb with rfl | hb
    · exact hi
    · exact h.irange b (List.mem_append_right _ hb)
  · refine ⟨fun j b hj hne => ?_, fun m n hm => ?_⟩
    · -- the only index block is cached
      have hb : b = i := List.mem_singleton.mp (List.mem_of_getElem? hj)
      exact absurd (congrArg some hb) hne
    · rw [hdbs] at hm
      cases hm
  · refine ⟨fun b hb => ?_, fun n hn => ?_, fun _ => Option.some_ne_none i,
      fun hd => h.mem.dbdirty hd⟩
    · obtain rfl := Option.some.inj hb
      refine ⟨0, rfl, ?_⟩
      show lfibclear 0 = _
      unfold lfibclear FileMap.iblock
      rw [hdbs]
      rfl
    · exact absurd (hnum.symm.trans hn) (by simp)

/-- **An index block of the file is loaded.** -/
theorem getIblock_holds {b j : Nat} (h : Holds g v F I N) (hj : F.chain[j]? = some b)
    (hclean : v.file.lfibdirty = false) :
    Holds g (getIblock v b) F I N ∧ (getIblock v b).file.lfiblock = F.iblock j := by
  have hd : dirtyIb v.file = none := if_neg (by rw [hclean]; exact Bool.false_ne_true)
  have hd' : dirtyIb (getIblock v b).file = none :=
    if_neg (by show ¬ v.file.lfibdirty = true; rw [hclean]; exact Bool.false_ne_true)
  have hib : (getIblock v b).file.lfiblock = F.iblock j :=
    h.disk.iblocks j b hj (by rw [hd]; exact Option.some_ne_none b)
  refine ⟨{ h with disk := ?_, mem := ?_ }, hib⟩
  · rw [hd']
    have := h.disk
    rw [hd] at this
    exact this
  · refine { h.mem with iblock := fun c hc => ?_, ibdirty := fun _ => Option.some_ne_none b }
    obtain rfl := Option.some.inj hc
    exact ⟨j, hj, hib⟩

theorem dropDblock_holds (h : Holds g v F I N) (hclean : v.file.lfdbdirty = false) :
    Holds g (dropDblock v) F I N := by
  have hd : dirtyDb v.file = none := if_neg (by rw [hclean]; exact Bool.false_ne_true)
  have hd' : dirtyDb (dropDblock v).file = none :=
    if_neg (by show ¬ v.file.lfdbdirty = true; rw [hclean]; exact Bool.false_ne_true)
  refine { h with disk := ?_, mem := ?_ }
  · rw [hd']
    have := h.disk
    rw [hd] at this
    exact this
  · refine { h.mem with dblock := fun n hn => ?_, dbdirty := fun hb => ?_ }
    · cases hn
    · exact absurd (hclean.symm.trans hb) Bool.noConfusion

/-- The flags of a clean cache. -/
theorem dirtyIb_clean {f : Lflcblk} (h : f.lfibdirty = false) : dirtyIb f = none :=
  if_neg (by rw [h]; exact Bool.false_ne_true)

theorem dirtyDb_clean {f : Lflcblk} (h : f.lfdbdirty = false) : dirtyDb f = none :=
  if_neg (by rw [h]; exact Bool.false_ne_true)

/-- **A new index block at the end of the file.** The blocks before it keep
their contents, but for the link of the last one. -/
theorem extendFile_holds {b i j : Nat} (h : Holds g v F I N) (hb : v.file.lfinum = some b)
    (hj : F.chain[j]? = some b) (hend : F.chain[j + 1]? = none)
    (hfull : 16 * F.chain.length ≤ F.dbs.length) (hclean : v.file.lfibdirty = false)
    (hi : i < g.nib) (hiI : i ∉ I) (hiF : i ∉ F.chain) :
    Holds g (extendFile v i) { F with chain := F.chain ++ [i] } I N ∧
      Elsewhere g F.chain [] v.disk (extendFile v i).disk ∧
      (extendFile v i).disk LF_AREA_DIR = v.disk LF_AREA_DIR := by
  have hlen : F.chain.length = j + 1 := by
    have h₁ := (List.getElem?_eq_some_iff.mp hj).1
    have h₂ := List.getElem?_eq_none_iff.mp hend
    omega
  have hmem := List.mem_of_getElem? hj
  have hlt := h.chain_lt b hmem
  obtain ⟨j', hj', hib⟩ := h.mem.iblock b hb
  obtain rfl := nodup_index h.chain_nodup hj hj'
  have hoff : (j + 1) * 8192 < 2 ^ 32 := h.offset_lt (by omega)
  have hrange : ∀ c ∈ F.chain ++ [i], c < g.nib := by
    intro c hc
    rcases List.mem_append.mp hc with hc | hc
    · exact h.chain_lt c hc
    · exact List.mem_singleton.mp hc ▸ hi
  -- the last block is written with the link
  have hlink : { F.iblock j with ibNext := some i } =
      ({ F with chain := F.chain ++ [i] } : FileMap).iblock j := by
    unfold FileMap.iblock
    dsimp only
    rw [← hlen, List.getElem?_concat_length]
  have hoff' : j * 8192 < 2 ^ 32 := h.offset_lt (by omega)
  have hok : Lfiblk.layout.Ok (({ F with chain := F.chain ++ [i] } : FileMap).iblock j) :=
    @FileMap.iblock_ok ⟨F.chain ++ [i], F.dbs, F.bytes⟩ g hrange h.dbs_range j hoff'
  have hdisk : (extendFile v i).disk =
      lfibput v.disk b (({ F with chain := F.chain ++ [i] } : FileMap).iblock j) := by
    unfold extendFile
    rw [hb, hib, ← hlink]
    rfl
  have he : Elsewhere g [b] [] v.disk (extendFile v i).disk := by
    rw [hdisk]
    exact Elsewhere.iblock hlt (List.mem_singleton_self b) h.sized hok
  refine ⟨{ h with
    sized := by rw [hdisk]; exact h.sized.lfibput hok, first := ?_, shape := ?_, inodup := ?_,
    irange := ?_,
    free := h.free.elsewhere he (h.apartI hmem) fun n hn =>
      ⟨h.nrange n (List.mem_append_right _ hn), List.not_mem_nil⟩,
    disk := ?_, mem := ?_ },
    he.mono (List.cons_subset.mpr ⟨hmem, List.nil_subset _⟩) (List.Subset.refl _), ?_⟩
  · rw [show (extendFile v i).ldptr = v.ldptr from rfl, h.first]
    cases hc : F.chain with
    | nil => rw [hc] at hlen; cases hlen
    | cons c l => rfl
  · refine ⟨h.shape.covers, h.shape.spare, ?_, ?_⟩
    · have := h.shape.indexed
      show F.dbs.length ≤ 16 * (F.chain ++ [i]).length
      rw [List.length_append, List.length_singleton]
      omega
    · show 16 * (F.chain ++ [i]).length ≤ F.dbs.length + 16
      rw [List.length_append, List.length_singleton]
      omega
  · rw [List.append_assoc]
    have := h.inodup
    rw [List.nodup_append] at this ⊢
    refine ⟨this.1, List.nodup_cons.mpr ⟨hiI, this.2.1⟩, fun c hc d hd => ?_⟩
    rcases List.mem_cons.mp hd with rfl | hd
    · exact fun heq => hiF (heq ▸ hc)
    · exact this.2.2 c hc d hd
  · intro c hc
    rcases List.mem_append.mp hc with hc | hc
    · exact hrange c hc
    · exact h.irange c (List.mem_append_right _ hc)
  · refine ⟨fun k c hk hne => ?_, fun m n hm hne => ?_⟩
    · -- the new block is cached, so `c` is an old one
      have hne' : c ≠ i := fun heq => hne (congrArg some heq)
      have hk' : F.chain[k]? = some c := by
        have hk : (F.chain ++ [i])[k]? = some c := hk
        rw [List.getElem?_append] at hk
        split at hk
        · exact hk
        · exact absurd (List.mem_singleton.mp (List.mem_of_getElem? hk)) hne'
      have hklt := (List.getElem?_eq_some_iff.mp hk').1
      rw [hdisk]
      by_cases hcb : c = b
      · subst c
        obtain rfl := nodup_index h.chain_nodup hj hk'
        exact lfibget_lfibput_self h.sized hok
      · rw [lfibget_lfibput_of_ne h.sized hok hcb]
        have hkj : k ≠ j := by
          rintro rfl
          exact hcb (Option.some.inj (hk'.symm.trans hj))
        have hold := h.disk.iblocks k c hk' (by
          rw [dirtyIb_clean hclean]; exact Option.some_ne_none c)
        rw [hold]
        unfold FileMap.iblock
        dsimp only
        rw [List.getElem?_append_left (by omega)]
    · rw [he.dblocks n (h.dbs_range n (List.mem_of_getElem? hm)).1 List.not_mem_nil]
      exact h.disk.dblocks m n hm hne
  · refine { h.mem with iblock := fun c hc => ?_, ibdirty := fun _ => Option.some_ne_none i }
    obtain rfl := Option.some.inj hc
    refine ⟨j + 1, ?_, ?_⟩
    · show (F.chain ++ [i])[j + 1]? = some i
      rw [← hlen, List.getElem?_concat_length]
    · -- no data block belongs to it yet
      have hnext : (F.chain ++ [i])[j + 1 + 1]? = none := List.getElem?_eq_none (by simp [hlen])
      have hnew : ((F.iblock j).ibOffset + LF_IDATA) % 2 ^ 32 = (j + 1) * 8192 := by
        show (j * 8192 + 8192) % 2 ^ 32 = (j + 1) * 8192
        omega
      show lfibclear ((v.file.lfiblock.ibOffset + LF_IDATA) % 2 ^ 32) = _
      rw [hib, hnew]
      have hdba : List.replicate LF_IBLEN none =
          (List.range 16).map fun k => F.dbs[(j + 1) * 16 + k]? := by
        have := h.shape.indexed
        refine List.ext_getElem? fun k => ?_
        rw [List.getElem?_map]
        unfold LF_IBLEN
        rw [List.getElem?_replicate]
        split
        · rename_i hk
          rw [List.getElem?_range hk, Option.map_some, List.getElem?_eq_none (by omega)]
        · rename_i hk
          rw [List.getElem?_eq_none (by rw [List.length_range]; omega)]
          rfl
      unfold FileMap.iblock lfibclear
      rw [hnext, hdba]
  · rw [hdisk]
    refine @lfibput_of_ne v.disk b _ LF_AREA_DIR ?_
    have := Geometry.ib2sect_range hlt
    unfold LF_AREA_DIR
    omega

/-- **A data block of the file is read.** -/
theorem getDblock_holds {n m : Nat} (h : Holds g v F I N) (hm : F.dbs[m]? = some n)
    (hclean : v.file.lfdbdirty = false) : Holds g (getDblock v n) F I N := by
  have hag : F.Agrees m (v.disk n) :=
    h.disk.dblocks m n hm (by rw [dirtyDb_clean hclean]; exact Option.some_ne_none n)
  refine { h with disk := ?_, mem := ?_ }
  · rw [dirtyDb_clean (show (getDblock v n).file.lfdbdirty = false from rfl)]
    have := h.disk
    rw [dirtyDb_clean hclean] at this
    exact this
  · refine { h.mem with dblock := fun k hk => ?_, dbdirty := fun hb => Bool.noConfusion hb }
    obtain rfl := Option.some.inj hk
    exact ⟨m, hm, hag⟩

/-- Index blocks of a file with one more data block: only one of them changes. -/
theorem iblock_addDbs (F : FileMap) (n j : Nat) (hj : j * 16 ≤ F.dbs.length)
    (hj' : F.dbs.length < (j + 1) * 16) :
    { F.iblock j with ibDba := (F.iblock j).ibDba.set (F.dbs.length % 16) (some n) } =
      ({ F with dbs := F.dbs ++ [n] } : FileMap).iblock j := by
  have hdba : ((F.iblock j).ibDba.set (F.dbs.length % 16) (some n)) =
      (List.range 16).map fun k => (F.dbs ++ [n])[j * 16 + k]? := by
    refine List.ext_getElem? fun k => ?_
    have hlen : (F.iblock j).ibDba.length = 16 := by
      unfold FileMap.iblock
      rw [List.length_map, List.length_range]
    rw [List.getElem?_set, List.getElem?_map, hlen]
    by_cases hk : k < 16
    · rw [List.getElem?_range hk, Option.map_some]
      split
      · -- the slot of the new block
        rw [if_pos (by omega), show j * 16 + k = F.dbs.length by omega,
          List.getElem?_concat_length]
      · have hold : (F.iblock j).ibDba[k]? = some F.dbs[j * 16 + k]? := by
          unfold FileMap.iblock
          dsimp only
          rw [List.getElem?_map, List.getElem?_range hk]
          rfl
        rw [hold, List.getElem?_append]
        split
        · rfl
        · rw [List.getElem?_eq_none (by omega), List.getElem?_eq_none (by simp; omega)]
    · rw [if_neg (by omega), List.getElem?_eq_none (by omega),
        List.getElem?_eq_none (by rw [List.length_range]; omega)]
      rfl
  rw [hdba]
  rfl

theorem iblock_addDbs_of_ne (F : FileMap) (n : Nat) {j : Nat}
    (hj : F.dbs.length < j * 16 ∨ (j + 1) * 16 ≤ F.dbs.length) :
    ({ F with dbs := F.dbs ++ [n] } : FileMap).iblock j = F.iblock j := by
  unfold FileMap.iblock
  dsimp only
  congr 1
  refine List.map_congr_left fun k hk => ?_
  have hk := List.mem_range.mp hk
  rw [List.getElem?_append]
  split
  · rfl
  · rw [List.getElem?_eq_none (by simp; omega), List.getElem?_eq_none (by omega)]

/-- A data block that lies wholly behind the end of the file. -/
theorem FileMap.agrees_past {F : FileMap} {m : Nat} {buf : List UInt8}
    (hbuf : buf.length = LF_BLKSIZ) (hm : F.bytes.length ≤ 512 * m) : F.Agrees m buf :=
  ⟨hbuf, fun k _ hk => by omega⟩

/-- **A data block is taken from the free list** for the end of a file whose
blocks are all full, and the directory is written. -/
theorem newDblock_holds {b j n : Nat} (h : Holds g v F I (n :: N))
    (hb : v.file.lfinum = some b) (hj : F.chain[j]? = some b) (hjle : j * 16 ≤ F.dbs.length)
    (hjlt : F.dbs.length < (j + 1) * 16) (hfull : 512 * F.dbs.length ≤ F.bytes.length)
    (hclean : v.file.lfdbdirty = false) :
    ∃ w, lfdballoc v = .ok (n, w) ∧
      Holds g (addDblock w (F.dbs.length % 16) n) { F with dbs := F.dbs ++ [n] } I N ∧
      w.file = { v.file with lfdblock := List.replicate LF_BLKSIZ DFILL } ∧
      Elsewhere g [] [] v.disk w.disk ∧ Saved w := by
  have hi := h.free.dblocks
  have hfree : v.glob.lfDir.lfdDfree = some n := hi.1
  rw [hfree] at hi
  have hn := h.nrange n (List.mem_append_right _ List.mem_cons_self)
  have hnF : n ∉ F.dbs := fun hmem =>
    (List.nodup_append.mp h.nnodup).2.2 n hmem n List.mem_cons_self rfl
  obtain ⟨j', hj', hib⟩ := h.mem.iblock b hb
  obtain rfl := nodup_index h.chain_nodup hj hj'
  -- the directory that is written
  have hdirOk : Lfdir.layout.Ok { v.glob.lfDir with lfdDfree := nextD v.disk n } := by
    obtain ⟨-, hif, hc, hfs, hpad⟩ := h.dirOk
    refine ⟨fun x hx => ?_, hif, hc, hfs, hpad⟩
    have hx : nextD v.disk n = some x := hx
    rw [hi.next_eq] at hx
    have hmem : x ∈ N := List.mem_of_mem_head? (Option.mem_def.mpr hx)
    exact (h.nrange x (List.mem_append_right _ (List.mem_cons_of_mem n hmem))).fits
  have he : Elsewhere g [] [] v.disk (v.disk.write LF_AREA_DIR
      (Lfdir.layout.enc { v.glob.lfDir with lfdDfree := nextD v.disk n })) := Elsewhere.dir _
  have hfreeI : ∀ c ∈ I, c < g.nib ∧ c ∉ ([] : List Nat) := fun c hc =>
    ⟨h.irange c (List.mem_append_right _ hc), List.not_mem_nil⟩
  have hfreeN : ∀ c ∈ N, g.IsDblock c ∧ c ∉ ([] : List Nat) := fun c hc =>
    ⟨h.nrange c (List.mem_append_right _ (List.mem_cons_of_mem n hc)), List.not_mem_nil⟩
  refine ⟨View.saveDir { v with
      glob := { v.glob with lfDir := { v.glob.lfDir with lfdDfree := nextD v.disk n } }
      file := { v.file with lfdblock := List.replicate LF_BLKSIZ DFILL } }, ?_, ?_, rfl, he,
    saved_saveDir hdirOk⟩
  · unfold lfdballoc
    rw [hfree]
    rfl
  · have hnd := h.nnodup
    rw [List.append_cons] at hnd
    have hlists : FreeLists v.disk { v.glob.lfDir with lfdDfree := nextD v.disk n } I N :=
      ⟨h.free.iblocks, hi.tail⟩
    refine { h with
      sized := h.sized.write (Lfdir.layout.length_enc hdirOk), dirOk := hdirOk, shape := ?_,
      nnodup := hnd, nrange := ?_, free := hlists.elsewhere he hfreeI hfreeN, disk := ?_,
      mem := ?_ }
    · refine ⟨?_, ?_, ?_, h.shape.ispare.trans ?_⟩
      · have := h.shape.covers
        show F.bytes.length ≤ 512 * (F.dbs ++ [n]).length
        rw [List.length_append, List.length_singleton]
        omega
      · show 512 * (F.dbs ++ [n]).length ≤ F.bytes.length + 512
        rw [List.length_append, List.length_singleton]
        omega
      · -- index block `j` has a slot left
        have hlt := (List.getElem?_eq_some_iff.mp hj).1
        show (F.dbs ++ [n]).length ≤ 16 * F.chain.length
        rw [List.length_append, List.length_singleton]
        omega
      · show F.dbs.length + 16 ≤ (F.dbs ++ [n]).length + 16
        rw [List.length_append]
        omega
    · intro c hc
      rw [List.append_assoc] at hc
      exact h.nrange c hc
    · refine ⟨fun k c hk hne => ?_, fun m c hm hne => ?_⟩
      · -- block `b` is marked as changed, the others stay as they are
        have hcb : c ≠ b := fun heq => hne (by rw [heq]; exact hb.symm)
        have hkj : k ≠ j := by
          rintro rfl
          exact hcb (Option.some.inj (hk.symm.trans hj))
        have hold : lfibget v.disk c = F.iblock k := by
          refine h.disk.iblocks k c hk ?_
          unfold dirtyIb
          split
          · rw [hb]
            exact fun heq => hcb (Option.some.inj heq)
          · exact Option.some_ne_none c
        show lfibget (v.disk.write LF_AREA_DIR _) c = _
        rw [he.iblocks c (h.chain_lt c (List.mem_of_getElem? hk)) List.not_mem_nil, hold,
          iblock_addDbs_of_ne F n (by omega)]
      · have hm : (F.dbs ++ [n])[m]? = some c := hm
        have hcn : g.IsDblock c := by
          rcases List.mem_append.mp (List.mem_of_getElem? hm) with hc | hc
          · exact h.dbs_range c hc
          · exact List.mem_singleton.mp hc ▸ hn
        show FileMap.Agrees _ m (v.disk.write LF_AREA_DIR _ c)
        rw [he.dblocks c hcn.1 List.not_mem_nil]
        rw [List.getElem?_append] at hm
        split at hm
        · exact h.disk.dblocks m c hm (by
            rw [dirtyDb_clean hclean]; exact Option.some_ne_none c)
        · rename_i hlen
          refine FileMap.agrees_past (h.sized c) ?_
          show F.bytes.length ≤ 512 * m
          have := h.shape.covers
          omega
    · refine ⟨fun c hc => ?_, fun c hc => ?_, fun _ hnone => ?_, fun hd => ?_⟩
      · obtain rfl := Option.some.inj (hb.symm.trans hc)
        refine ⟨j, hj, ?_⟩
        rw [← iblock_addDbs F n j hjle hjlt, ← hib]
        rfl
      · obtain rfl := Option.some.inj hc
        refine ⟨F.dbs.length, List.getElem?_concat_length, ?_⟩
        refine FileMap.agrees_past List.length_replicate ?_
        show F.bytes.length ≤ 512 * F.dbs.length
        exact h.shape.covers
      · exact absurd (hb.symm.trans hnone) (Option.some_ne_none b)
      · exact absurd (hclean.symm.trans hd) Bool.noConfusion

end Xinu.Lfs
