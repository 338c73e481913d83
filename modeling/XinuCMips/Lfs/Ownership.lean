import XinuCMips.Lfs.Formatted

/-!
# Who owns the blocks

The blocks of the disk as the disk itself tells it: the two free lists of the
directory, the chain of index blocks of each file, and the data blocks that
these point to. When what the control blocks hold has been written, every block
is found in exactly one place (`Partitioned`).

A file that is opened twice breaks this. Its first device takes an index block
that the second one still reads as a free block of the disk, with its link
along the free list.

* `blocks_partitioned_without_slip` — every run without such a call;
* `blocks_not_partitioned` — a run with one.
-/

namespace Xinu.Lfs

open Bytes Follow

variable {g : Geometry} {s s' s₀ : FileSystem} {V : Volume} {a : Files} {F : FileMap} {d : Disk}

/-! ## Reading the disk -/

/-- The data blocks that an index block on disk points to. -/
def slotsOf (d : Disk) (b : Nat) : List Nat := (lfibget d b).ibDba.reduceOption

/-- Index blocks `I` and data blocks `N` are free, and the files of the
directory have the index blocks `chains`; all of them together are all blocks
of the disk, each one once. -/
structure Owns (g : Geometry) (d : Disk) (dir : Lfdir) (chains : List (List Nat))
    (I N : List Nat) : Prop where
  ifree : Follows (nextI d) dir.lfdIfree I
  dfree : Follows (nextD d) dir.lfdDfree N
  nfiles : chains.length = dir.lfdNfiles
  files : ∀ (i : Nat) (c : List Nat), chains[i]? = some c →
    ∃ e : Ldentry, dir.lfdFiles[i]? = some e ∧ Follows (nextI d) e.ldIlist c
  iblocks : (chains.flatten ++ I).Perm (List.range g.nib)
  dblocks : (chains.flatten.flatMap (slotsOf d) ++ N).Perm
    (List.range' (g.ibsectors + 1) g.ndb)

/-- **Every block of the disk is in one place.** -/
def Partitioned (g : Geometry) (d : Disk) (dir : Lfdir) : Prop :=
  ∃ chains I N, Owns g d dir chains I N

/-- All open files have been flushed. -/
def Flushed (s : FileSystem) : Prop :=
  ∀ m f, InUse s m f → f.lfibdirty = false ∧ f.lfdbdirty = false

/-! ## Files that have been flushed -/

/-- The chain of a file on disk. -/
theorem OnDisk.follows (h : OnDisk d F none none) : Follows (nextI d) F.chain.head? F.chain := by
  refine follows_iff_getElem?.mpr fun j b hj => ?_
  unfold nextI
  rw [h.iblocks j b hj (Option.some_ne_none b)]
  rfl

/-- Elements of a list taken by their index. -/
theorem flatMap_index {l : List Nat} {f h : Nat → List Nat}
    (hf : ∀ j b, l[j]? = some b → f b = h j) :
    l.flatMap f = (List.range l.length).flatMap h := by
  have hmap : l.map f = (List.range l.length).map h := by
    refine List.ext_getElem? fun j => ?_
    rw [List.getElem?_map, List.getElem?_map]
    by_cases hj : j < l.length
    · rw [List.getElem?_range hj, List.getElem?_eq_getElem hj, Option.map_some, Option.map_some,
        hf j _ (List.getElem?_eq_getElem hj)]
    · rw [List.getElem?_eq_none (by omega),
        List.getElem?_eq_none (by rw [List.length_range]; omega)]
      rfl
  rw [List.flatMap_def, List.flatMap_def, hmap]

/-- A list cut into pieces of sixteen. -/
theorem flatMap_slices (l : List Nat) (n : Nat) :
    (List.range n).flatMap (fun j => slice (16 * j) 16 l) = l.take (16 * n) := by
  induction n with
  | zero => rfl
  | succ n ih =>
    rw [List.range_succ, List.flatMap_append, ih, List.flatMap_singleton, Nat.mul_succ,
      List.take_add]
    rfl

/-- The data blocks of a file on disk. -/
theorem OnDisk.slots (h : OnDisk d F none none) (hs : F.Shape) :
    F.chain.flatMap (slotsOf d) = F.dbs := by
  have hslot : ∀ j b, F.chain[j]? = some b → slotsOf d b = slice (16 * j) 16 F.dbs := by
    intro j b hj
    unfold slotsOf
    rw [h.iblocks j b hj (Option.some_ne_none b)]
    show ((List.range 16).map fun k => F.dbs[j * 16 + k]?).reduceOption = _
    rw [reduceOption_slots, Nat.mul_comm]
  rw [flatMap_index hslot, flatMap_slices, List.take_of_length_le hs.indexed]

/-- A file that has been flushed, open or not. -/
theorem Mounted.flushed (h : Mounted g s V) (hfl : Flushed s) {i : Nat}
    (hF : V.maps[i]? = some F) : OnDisk s.disk F none none := by
  by_cases hopen : ∃ m f, InUse s m f ∧ f.lfdirptr = i
  · obtain ⟨m, f, hf, rfl⟩ := hopen
    obtain ⟨G, hG, hb⟩ := h.opened m f hf
    obtain rfl := Option.some.inj (hF.symm.trans hG)
    obtain ⟨hib, hdb⟩ := hfl m f hf
    have hd := hb.disk
    rw [dirtyIb_clean hib, dirtyDb_clean hdb] at hd
    exact hd
  · exact h.closed i F hF fun m f hf heq => hopen ⟨m, f, hf, heq⟩

/-- **The volume of a flushed file system**, in terms of the disk. -/
theorem Mounted.owns (h : Mounted g s V) (hfl : Flushed s) :
    Owns g s.disk s.glob.lfDir (V.maps.map FileMap.chain) V.ifree V.dfree := by
  have hslots : (V.maps.map FileMap.chain).flatten.flatMap (slotsOf s.disk) =
      V.maps.flatMap FileMap.dbs := by
    rw [← List.flatMap_def, List.flatMap_assoc]
    refine List.flatMap_congr fun F hF => ?_
    obtain ⟨i, hi⟩ := List.mem_iff_getElem?.mp hF
    exact (h.flushed hfl hi).slots (h.shape F hF).1
  refine ⟨h.free.iblocks, h.free.dblocks, ?_, fun i c hc => ?_, h.iperm, ?_⟩
  · rw [List.length_map, h.nfiles]
  · rw [List.getElem?_map] at hc
    obtain ⟨F, hF, rfl⟩ := Option.map_eq_some_iff.mp hc
    obtain ⟨e, he, -, hlist⟩ := h.entries i F hF
    refine ⟨e, he, ?_⟩
    rw [hlist]
    exact (h.flushed hfl hF).follows
  · rw [hslots]
    exact h.nperm

/-- The directory on disk lacks empty files at most. -/
theorem Owns.saved {dir dir' : Lfdir} {chains : List (List Nat)} {I N : List Nat}
    (h : Owns g d dir chains I N) (hs : SameDir dir' dir) :
    Owns g d dir' (chains.take dir'.lfdNfiles) I N := by
  have hle : dir'.lfdNfiles ≤ chains.length := by
    rw [h.nfiles]
    exact hs.nfiles
  -- the files that it lacks have no blocks
  have hrest : (chains.drop dir'.lfdNfiles).flatten = [] := by
    refine List.flatten_eq_nil_iff.mpr fun c hc => ?_
    obtain ⟨k, hk⟩ := List.mem_iff_getElem?.mp hc
    rw [List.getElem?_drop] at hk
    obtain ⟨e, he, hf⟩ := h.files _ c hk
    have hlt := (List.getElem?_eq_some_iff.mp hk).1
    obtain ⟨-, hnone⟩ := hs.fresh _ e (Nat.le_add_right _ _) (h.nfiles ▸ hlt) he
    rw [hnone] at hf
    exact List.head?_eq_none_iff.mp hf.head?_eq.symm
  have hflat : (chains.take dir'.lfdNfiles).flatten = chains.flatten := by
    conv_rhs => rw [← List.take_append_drop dir'.lfdNfiles chains]
    rw [List.flatten_append, hrest, List.append_nil]
  refine ⟨hs.ifree ▸ h.ifree, hs.dfree ▸ h.dfree, ?_, fun i c hc => ?_, ?_, ?_⟩
  · rw [List.length_take, Nat.min_eq_left hle]
  · rw [List.getElem?_take] at hc
    split at hc
    · rename_i hi
      obtain ⟨e, he, hf⟩ := h.files i c hc
      exact ⟨e, by rw [hs.files i hi]; exact he, hf⟩
    · cases hc
  · rw [hflat]
    exact h.iblocks
  · rw [hflat]
    exact h.dblocks

/-! ## Runs -/

/-- **Every state reached without a slip stands for some files.** -/
theorem Reaches.represents (h : Represents g s₀ a) (hr : Reaches NoSlip s₀ s) :
    ∃ b, Represents g s b ∧ b.devs = a.devs := by
  induction hr with
  | start => exact ⟨a, h, rfl⟩
  | @call t t' c r _ hok hex ih =>
    obtain ⟨b, hb, hdevs⟩ := ih
    rcases exec_step c hok hb with ⟨msg, hpanic, -⟩ | ⟨s', hs', h'⟩
    · cases hex.symm.trans hpanic
    · obtain ⟨-, rfl⟩ := Prod.mk.inj (Except.ok.inj (hex.symm.trans hs'))
      exact ⟨_, h', (b.step_devs c).trans hdevs⟩

theorem loadDir_disk {s₁ : FileSystem} (h : loadDir s = some s₁) :
    s₁.disk = s.disk ∧ s₁.lfltab = s.lfltab ∧ s₁.glob.lfDirdirty = s.glob.lfDirdirty := by
  unfold loadDir at h
  split at h
  · obtain rfl := Option.some.inj h
    exact ⟨rfl, rfl, rfl⟩
  · split at h
    · obtain rfl := Option.some.inj h
      exact ⟨rfl, rfl, rfl⟩
    · cases h

/-- **Blocks have one owner as long as no call slips.** In every run from a
freshly formatted disk, whenever all open files have been flushed, the blocks
of the disk are partitioned for the directory in memory, and for the one on
disk when the former is not marked as changed. -/
theorem blocks_partitioned_without_slip (disk d : Disk) (lfiblks : Int) (dsiz : Nat)
    (devs : List Nat) (h : Formattable disk lfiblks dsiz)
    (hd : lfscreate disk lfiblks dsiz = some d) (s : FileSystem)
    (hr : Reaches NoSlip (bootLfs d devs) s) (hfl : Flushed s) :
    ∃ s₁, loadDir s = some s₁ ∧ Partitioned h.geometry s.disk s₁.glob.lfDir ∧
      (s.glob.lfDirdirty = false →
        Partitioned h.geometry s.disk (Lfdir.layout.dec (s.disk LF_AREA_DIR))) := by
  obtain ⟨a, ha, -⟩ := Reaches.represents ((lfscreate_blank h hd).represents devs) hr
  obtain ⟨s₁, V, hload, hM, -⟩ := ha.mounted
  obtain ⟨hdisk, htab, hdirty⟩ := loadDir_disk hload
  have hfl₁ : Flushed s₁ := by
    unfold Flushed InUse
    rw [htab]
    exact hfl
  have howns := hM.owns hfl₁
  have hsaved := hM.saved
  rw [hdisk] at howns hsaved
  rw [hdirty] at hsaved
  exact ⟨s₁, hload, ⟨_, _, _, howns⟩, fun hclean => ⟨_, _, _, howns.saved (hsaved hclean)⟩⟩

/-- A run of calls that are allowed everywhere. -/
theorem Reaches.run {ok : FileSystem → Call → Prop} {cs : List Call} {rs : List Reply}
    (h : Reaches ok s₀ s) (hok : ∀ c ∈ cs, ∀ t, ok t c) (hrun : Lfs.run cs s = .ok (rs, s')) :
    Reaches ok s₀ s' := by
  induction cs generalizing s rs with
  | nil =>
    obtain ⟨-, rfl⟩ := Prod.mk.inj (Except.ok.inj hrun)
    exact h
  | cons c cs ih =>
    obtain ⟨⟨r, t⟩, ht, hrest⟩ := bind_eq_ok hrun
    obtain ⟨⟨rs', u⟩, hu, heq⟩ := bind_eq_ok hrest
    obtain ⟨-, rfl⟩ := Prod.mk.inj (Except.ok.inj heq)
    exact ih (.call h (hok c List.mem_cons_self s) ht)
      (fun c' hc' => hok c' (List.mem_cons_of_mem c hc')) hu

theorem flushed_of_flags {n : Nat}
    (h : (s.lfltab.map fun f => (f.lfibdirty, f.lfdbdirty)) = List.replicate n (false, false)) :
    Flushed s := by
  rintro m f ⟨hf, -⟩
  have hmem : (f.lfibdirty, f.lfdbdirty) ∈ List.replicate n (false, false) :=
    h ▸ List.mem_map_of_mem (List.mem_of_getElem? hf)
  exact Prod.mk.inj (List.eq_of_mem_replicate hmem)

/-- The first open of a run does not slip. -/
theorem boot_noSlip (disk : Disk) (devs : List Nat) (name mode : CString) :
    NoSlip (bootLfs disk devs) (.open name mode) := by
  intro hslip
  obtain ⟨i, f, ⟨hf, hused⟩, -⟩ := hslip.opened
  obtain ⟨n, -, rfl⟩ := List.mem_map.mp (List.mem_of_getElem? hf)
  exact LfState.noConfusion hused

/-- One file, opened once, written and flushed. -/
def sampleRun : Except Fault (List Reply × FileSystem) :=
  run [.putc 0 65, .flush 0] (lfsOpen fileA anyMode (bootLfs sampleDisk (List.range 6))).2

/-- The theorem after that run. -/
theorem blocks_partitioned_sample :
    ∃ rs s s₁, sampleRun = .ok (rs, s) ∧ loadDir s = some s₁ ∧
      Partitioned sample_formattable.geometry s.disk s₁.glob.lfDir := by
  have hstart : Reaches NoSlip (bootLfs sampleDisk (List.range 6))
      (lfsOpen fileA anyMode (bootLfs sampleDisk (List.range 6))).2 :=
    Reaches.opens .start (boot_noSlip _ _ _ _)
  have hflags : sampleRun.toOption.map (fun p => p.2.lfltab.map fun f =>
      (f.lfibdirty, f.lfdbdirty)) = some (List.replicate 6 (false, false)) := by
    decide +kernel
  cases hrun : sampleRun with
  | error e =>
    rw [hrun] at hflags
    cases hflags
  | ok p =>
    obtain ⟨rs, s⟩ := p
    rw [hrun] at hflags
    have hflags := Option.some.inj hflags
    have hr : Reaches NoSlip (bootLfs sampleDisk (List.range 6)) s :=
      hstart.run (fun c hc t => by
        rcases List.mem_cons.mp hc with rfl | hc
        · trivial
        · obtain rfl := List.mem_singleton.mp hc
          trivial) hrun
    have hfl : Flushed s := flushed_of_flags hflags
    obtain ⟨s₁, hload, hp, -⟩ := blocks_partitioned_without_slip blankDisk sampleDisk 7
      (16 * LF_BLKSIZ) (List.range 6) sample_formattable sampleDisk_eq s hr hfl
    exact ⟨rs, s, s₁, rfl, hload, hp⟩

/-- One file, opened twice, written and flushed on both devices. -/
def doubleRun : Except Fault (List Reply × FileSystem) :=
  run [.open fileA anyMode, .open fileA anyMode, .putc 0 65, .putc 1 66, .flush 0, .flush 1]
    (bootLfs sampleDisk (List.range 6))

/-- Nothing is left to write, and the file's first index block links to the first free one. -/
theorem doubleRun_state :
    doubleRun.toOption.map (fun p => p.2.lfltab.map fun f => (f.lfibdirty, f.lfdbdirty)) =
      some (List.replicate 6 (false, false)) ∧
    doubleRun.toOption.map (fun p => (p.2.glob.lfDirpresent, p.2.glob.lfDir.lfdNfiles,
      p.2.glob.lfDir.lfdIfree)) = some (true, 1, some 1) ∧
    doubleRun.toOption.map (fun p => (p.2.glob.lfDir.lfdFiles.map Ldentry.ldIlist)[0]?) =
      some (some (some 0)) ∧
    doubleRun.toOption.map (fun p => nextI p.2.disk 0) = some (some 1) := by
  decide +kernel

/-- **A file that is open twice runs into the free list**: its first index
block links to block 1, which is also the first free one. -/
theorem blocks_not_partitioned :
    ¬ ∀ (disk d : Disk) (lfiblks : Int) (dsiz : Nat) (devs : List Nat)
      (h : Formattable disk lfiblks dsiz), lfscreate disk lfiblks dsiz = some d →
      ∀ s, Reaches (fun _ _ => True) (bootLfs d devs) s → Flushed s →
        ∃ s₁, loadDir s = some s₁ ∧ Partitioned h.geometry s.disk s₁.glob.lfDir := by
  intro hall
  obtain ⟨hflags, hdir, hil, hlink⟩ := doubleRun_state
  cases hrun : doubleRun with
  | error e =>
    rw [hrun] at hflags
    cases hflags
  | ok p =>
    obtain ⟨rs, s⟩ := p
    rw [hrun] at hflags hdir hil hlink
    have hflags := Option.some.inj hflags
    have hlink := Option.some.inj hlink
    have hil := Option.some.inj hil
    obtain ⟨hp, hdir⟩ := Prod.mk.inj (Option.some.inj hdir)
    obtain ⟨hn, hif⟩ := Prod.mk.inj hdir
    dsimp only at hp hn hif hlink hil
    have hfl : Flushed s := flushed_of_flags hflags
    obtain ⟨s₁, hload, chains, I, N, ho⟩ := hall blankDisk sampleDisk 7 (16 * LF_BLKSIZ)
      (List.range 6) sample_formattable sampleDisk_eq s
      (Reaches.start.run (fun _ _ _ => trivial) hrun) hfl
    obtain rfl := Option.some.inj ((if_pos hp : loadDir s = some s).symm.trans hload)
    -- block 1 is free
    have hfree : 1 ∈ I := by
      have hhead := ho.ifree.head?_eq
      rw [hif] at hhead
      exact List.mem_of_mem_head? hhead.symm
    -- and block 1 belongs to the file
    obtain ⟨c, hc⟩ : ∃ c, chains[0]? = some c := by
      refine ⟨_, List.getElem?_eq_getElem ?_⟩
      rw [ho.nfiles, hn]
      omega
    obtain ⟨e, he, hf⟩ := ho.files 0 c hc
    rw [List.getElem?_map, he] at hil
    rw [Option.some.inj hil] at hf
    have hchain : 1 ∈ c := by
      cases c with
      | nil => cases hf
      | cons b c =>
        obtain rfl := Option.some.inj hf.1
        have hnext := hf.next_eq
        rw [hlink] at hnext
        exact List.mem_cons_of_mem _ (List.mem_of_mem_head? hnext.symm)
    have hnd := (ho.iblocks.nodup_iff.mpr List.nodup_range)
    exact (List.nodup_append.mp hnd).2.2 1
      (List.mem_flatten_of_mem (List.mem_of_getElem? hc) hchain) 1 hfree rfl

end Xinu.Lfs
