import XinuCMips.Lfs.Ownership

/-!
# What a close leaves on the disk

`lflClose` writes the directory if it is marked as changed. Every call that
changes an entry marks it, but for `lfsOpen` when it adds one: a file that is
created and closed without a byte written is in memory only.

* `close_durable_iff` — after the last close the disk stands for the files in
  memory exactly when the directory was marked or lacks no file;
* `close_not_durable` — a file that is created, closed and gone.
-/

namespace Xinu.Lfs

open Bytes Follow

variable {g : Geometry} {s s' : FileSystem} {V : Volume} {a : Files} {m : Nat} {f : Lflcblk}

/-- The same files, with no device open. -/
def Files.closed (a : Files) : Files := { a with handles := a.handles.map fun _ => none }

/-- Device `m` is the only one in use. -/
def OnlyInUse (s : FileSystem) (m : Nat) (f : Lflcblk) : Prop :=
  InUse s m f ∧ ∀ k c, InUse s k c → k = m

/-- The directory on disk. -/
def diskDir (d : Disk) : Lfdir := Lfdir.layout.dec (d LF_AREA_DIR)

/-! ## Starting again -/

/-- A disk whose directory holds as many files as the one in memory. -/
theorem SameDir.dirNames_eq {d d' : Lfdir} (h : SameDir d d') (hn : d.lfdNfiles = d'.lfdNfiles) :
    dirNames d = dirNames d' := by
  have htake : d.lfdFiles.take d.lfdNfiles = d'.lfdFiles.take d'.lfdNfiles := by
    refine List.ext_getElem? fun i => ?_
    rw [List.getElem?_take, List.getElem?_take, ← hn]
    split
    · rename_i hi
      exact h.files i hi
    · rfl
  unfold dirNames
  rw [htake]

/-- **Starting on the disk again** gives the same files, when no device is in
use and the directory is saved with all of them. -/
theorem Represents.reboot (hM : Mounted g s V) (hmod : Models s V a)
    (hnone : ∀ m f, ¬ InUse s m f) (hsaved : SameDir (diskDir s.disk) s.glob.lfDir)
    (hn : (diskDir s.disk).lfdNfiles = s.glob.lfDir.lfdNfiles) :
    Represents g (bootLfs s.disk a.devs) a.closed := by
  have hboot : ∀ (m : Nat) (f : Lflcblk), ¬ InUse (bootLfs s.disk a.devs) m f := by
    rintro m f ⟨hf, hused⟩
    obtain ⟨n, -, rfl⟩ := List.mem_map.mp (List.mem_of_getElem? hf)
    exact LfState.noConfusion hused
  have hfreeI := hM.free.iblocks
  have hfreeN := hM.free.dblocks
  rw [← hsaved.ifree] at hfreeI
  rw [← hsaved.dfree] at hfreeN
  refine ⟨bootLfs_handles s.disk a.devs true, fun i j f f' hf => absurd hf (hboot i f), _, V, rfl,
    ?_, ?_⟩
  · exact
      { sized := hM.sized
        dirOk := Lfdir.layout.dec_ok (hM.sized LF_AREA_DIR)
        nfiles := hn.trans hM.nfiles
        room := hM.room
        entries := fun i F hF => by
          obtain ⟨e, he, h⟩ := hM.entries i F hF
          have hlt := (List.getElem?_eq_some_iff.mp hF).1
          refine ⟨e, ?_, h⟩
          exact (hsaved.files i (by rw [hn, hM.nfiles]; exact hlt)).trans he
        shape := hM.shape
        iperm := hM.iperm
        nperm := hM.nperm
        free := ⟨hfreeI, hfreeN⟩
        closed := fun i F hF _ => hM.closed i F hF fun m f hf => absurd hf (hnone m f)
        opened := fun m f hf => absurd hf (hboot m f)
        saved := fun _ => SameDir.refl _ }
  · refine ⟨?_, hmod.bytes, ?_, ?_⟩
    · show a.files.map ByteFile.name = (dirNames (diskDir s.disk)).map nameOf
      rw [hsaved.dirNames_eq hn]
      exact hmod.names
    · show a.handles.map (fun _ => none) = (a.devs.map lflInit).map handleOf
      rw [hmod.handles, hmod.devs, List.map_map, List.map_map, List.map_map]
      rfl
    · show a.devs = (a.devs.map lflInit).map Lflcblk.lfdev
      rw [List.map_map]
      exact (List.map_id a.devs).symm

/-- A disk stands for as many files as its directory holds. -/
theorem Represents.diskDir_nfiles {d : Disk} {devs : List Nat}
    (h : Represents g (bootLfs d devs) a) : (diskDir d).lfdNfiles = a.files.length := by
  obtain ⟨s₁, V, hload, hM, hmod⟩ := h.mounted
  obtain rfl := Option.some.inj hload
  have hlen := congrArg List.length hmod.bytes
  rw [List.length_map, List.length_map, ← hM.nfiles] at hlen
  exact hlen.symm

/-! ## The last close -/

section Close

variable {v : View} {F : FileMap} {I N : List Nat}

/-- **The directory sector after a flush**: written when it was marked as
changed, and as it was when not. -/
theorem lfflush_dirSector (h : Holds g v F I N) :
    (lfflush v).2.disk LF_AREA_DIR =
      if v.glob.lfDirdirty then Lfdir.layout.enc v.glob.lfDir else v.disk LF_AREA_DIR := by
  have heq : (lfflush v).2 = flushIblock (flushDblock (flushDir v)) := by
    unfold lfflush
    rw [if_neg (by rw [h.used]; exact LfState.noConfusion)]
  obtain ⟨h₁, -, -, -, -⟩ := h.flushDir
  obtain ⟨h₂, -, -, hz₂⟩ := h₁.flushDblock
  obtain ⟨-, -, -, hz₃⟩ := h₂.flushIblock
  rw [heq, hz₃, hz₂]
  unfold flushDir
  split
  · show v.disk.write LF_AREA_DIR _ LF_AREA_DIR = _
    exact write_self _ _ _
  · rfl

/-- **The number of files on disk after a close.** -/
theorem flushAll_nfiles (h : Settled g v F I N) :
    (flushAll v).glob.lfDir = v.glob.lfDir ∧
      ((diskDir (flushAll v).disk).lfdNfiles = v.glob.lfDir.lfdNfiles ↔
        v.glob.lfDirdirty = true ∨ (diskDir v.disk).lfdNfiles = v.glob.lfDir.lfdNfiles) := by
  unfold flushAll
  split
  · obtain ⟨-, -, hdir, -, -⟩ := h.toHolds.lfflush
    refine ⟨hdir, ?_⟩
    unfold diskDir
    rw [lfflush_dirSector h.toHolds]
    cases hd : v.glob.lfDirdirty with
    | true =>
      rw [if_pos rfl, Lfdir.layout.dec_enc h.dirOk]
      exact iff_of_true rfl (Or.inl rfl)
    | false =>
      rw [if_neg Bool.false_ne_true]
      exact ⟨Or.inr, fun hor => hor.resolve_left Bool.false_ne_true⟩
  · rename_i hclean
    simp only [Bool.or_eq_true, not_or, Bool.not_eq_true] at hclean
    refine ⟨rfl, ?_⟩
    rw [hclean.1.1]
    exact ⟨Or.inr, fun hor => hor.resolve_left Bool.false_ne_true⟩

end Close

/-- **The state after the only open file has been closed.** -/
theorem Represents.lastClose (h : Represents g s a) (hf : OnlyInUse s m f) :
    ∃ s' V, exec (.close m) s = .ok ((OK, []), s') ∧ Mounted g s' V ∧
      Models s' V (a.close m).2 ∧ (∀ k c, ¬ InUse s' k c) ∧
      SameDir (diskDir s'.disk) s'.glob.lfDir ∧
      ((diskDir s'.disk).lfdNfiles = s'.glob.lfDir.lfdNfiles ↔
        s.glob.lfDirdirty = true ∨ (diskDir s.disk).lfdNfiles = s.glob.lfDir.lfdNfiles) := by
  obtain ⟨hu, honly⟩ := hf
  obtain ⟨-, V₀, hM₀, -⟩ := h.inUse hu
  obtain ⟨F, -, hset⟩ := hM₀.settled hu
  obtain ⟨-, -, hclean⟩ := flushAll_settled hset
  obtain ⟨hdir, hiff⟩ := flushAll_nfiles hset
  have hexec := lflClose_exec hu
  obtain ⟨s', hs', h'⟩ := lflClose_step m h
  obtain ⟨-, rfl⟩ := Prod.mk.inj (Except.ok.inj (hexec.symm.trans hs'))
  obtain ⟨s₁, V, hload, hM, hmod⟩ := h'.mounted
  -- the directory stays in memory
  have hp : (flushAll ⟨s.disk, s.glob, f⟩).glob.lfDirpresent = true := by
    rw [(flushAll_keeps ⟨s.disk, s.glob, f⟩).present]
    exact h.handles.present hu
  simp only [loadDir, hp, if_true, Option.some.injEq] at hload
  subst hload
  refine ⟨_, V, hexec, hM, hmod, fun k c hc => ?_, hM.saved hclean.dirdirty, ?_⟩
  · rcases inUse_set rfl hc with ⟨-, rfl⟩ | ⟨hne, hc'⟩
    · exact LfState.noConfusion hc.2
    · exact hne (honly k c hc')
  · show (diskDir (flushAll ⟨s.disk, s.glob, f⟩).disk).lfdNfiles =
      (flushAll ⟨s.disk, s.glob, f⟩).glob.lfDir.lfdNfiles ↔ _
    rw [hdir]
    exact hiff

/-- **When a close is durable.** In every run from a freshly formatted disk in
which no open slips, when the only open file is closed, the system that starts
on the disk again stands for the files that were visible in memory exactly when
the directory was marked as changed, or the one on disk held as many files. Then
all calls get the replies that they would get from those files. -/
theorem close_durable_iff (disk d : Disk) (lfiblks : Int) (dsiz : Nat) (devs : List Nat)
    (h : Formattable disk lfiblks dsiz) (hd : lfscreate disk lfiblks dsiz = some d)
    (s : FileSystem) (hr : Reaches NoSlip (bootLfs d devs) s) (m : Nat) (f : Lflcblk)
    (hf : OnlyInUse s m f) :
    ∃ s' a, exec (.close m) s = .ok ((OK, []), s') ∧ Represents h.geometry s a ∧
      ∀ b, Represents h.geometry s b →
        (Represents h.geometry (bootLfs s'.disk devs) b.closed ↔ s.glob.lfDirdirty = true ∨
          (diskDir s.disk).lfdNfiles = s.glob.lfDir.lfdNfiles) ∧
        ((s.glob.lfDirdirty = true ∨ (diskDir s.disk).lfdNfiles = s.glob.lfDir.lfdNfiles) →
          ∀ cs, Files.Within h.geometry.nib h.geometry.ndb cs b.closed →
            ∃ t, run cs (bootLfs s'.disk devs) = .ok ((Files.run cs b.closed).1, t)) := by
  obtain ⟨a, ha, hdevs⟩ := Reaches.represents ((lfscreate_blank h hd).represents devs) hr
  have hdevs : a.devs = devs := hdevs
  obtain ⟨s', V, hexec, hM, -, hnone, hsaved, hn⟩ := ha.lastClose hf
  refine ⟨s', a, hexec, ha, fun b hb => ?_⟩
  have hbdevs : b.devs = devs := by
    rw [hb.tab.2, ← ha.tab.2]
    exact hdevs
  -- the volume of the files of `b`
  obtain ⟨t, V', hexec', hM', hmod', -⟩ := hb.lastClose hf
  obtain ⟨-, rfl⟩ := Prod.mk.inj (Except.ok.inj (hexec.symm.trans hexec'))
  have hfiles : (b.close m).2.files = b.files ∧ (b.close m).2.closed = b.closed ∧
      (b.close m).2.devs = b.devs := by
    unfold Files.close Files.closed
    split
    · refine ⟨rfl, ?_, rfl⟩
      dsimp only
      rw [List.map_const', List.map_const', List.length_set]
    · exact ⟨rfl, rfl, rfl⟩
  have hiff : Represents h.geometry (bootLfs s'.disk devs) b.closed ↔
      s.glob.lfDirdirty = true ∨ (diskDir s.disk).lfdNfiles = s.glob.lfDir.lfdNfiles := by
    rw [← hn]
    constructor
    · intro hboot
      have hcount := congrArg List.length hmod'.bytes
      rw [List.length_map, List.length_map, hfiles.1, ← hM'.nfiles] at hcount
      exact hboot.diskDir_nfiles.trans hcount
    · intro hcount
      have hboot := Represents.reboot hM' hmod' hnone hsaved hcount
      rw [hfiles.2.1, hfiles.2.2, hbdevs] at hboot
      exact hboot
  refine ⟨hiff, fun hcond cs hcs => ?_⟩
  obtain ⟨t, ht, -⟩ := run_refines cs hcs (hiff.mpr hcond)
  exact ⟨t, ht⟩

/-- The file system with one empty file, opened on device 0. -/
def createdRun : FileSystem := (lfsOpen fileA anyMode (bootLfs sampleDisk (List.range 6))).2

theorem createdRun_reaches :
    Reaches NoSlip (bootLfs sampleDisk (List.range 6)) createdRun :=
  Reaches.opens .start (boot_noSlip _ _ _ _)

/-- Its first device is in use, and the file is in memory but not on disk, before the
device is closed and after. -/
theorem createdRun_state :
    createdRun.lfltab.map Lflcblk.lfstate = .used :: List.replicate 5 .free ∧
    (createdRun.glob.lfDirdirty, createdRun.glob.lfDir.lfdNfiles) = (false, 1) ∧
    (diskDir createdRun.disk).lfdNfiles = 0 ∧
    (exec (.close 0) createdRun).toOption.map (fun p => (diskDir p.2.disk).lfdNfiles) = some 0 := by
  decide +kernel

/-- Device 0 is the one that is open. -/
theorem onlyInUse_of_states {n : Nat}
    (h : s.lfltab.map Lflcblk.lfstate = .used :: List.replicate n .free) :
    ∃ f, OnlyInUse s 0 f := by
  have hget : ∀ k : Nat, s.lfltab[k]?.map Lflcblk.lfstate =
      (LfState.used :: List.replicate n .free)[k]? := fun k => by
    rw [← List.getElem?_map, h]
  obtain ⟨f, hf, hst⟩ := Option.map_eq_some_iff.mp (hget 0)
  refine ⟨f, ⟨hf, hst⟩, fun k c ⟨hc, hused⟩ => ?_⟩
  have hk := hget k
  rw [hc, Option.map_some, hused] at hk
  cases k with
  | zero => rfl
  | succ k =>
    rw [List.getElem?_cons_succ] at hk
    exact absurd (List.eq_of_mem_replicate (List.mem_of_getElem? hk.symm)) LfState.noConfusion

/-- The theorem for a file that is created and closed at once. -/
theorem close_durable_sample :
    ∃ s' a, exec (.close 0) createdRun = .ok ((OK, []), s') ∧
      Represents sample_formattable.geometry createdRun a ∧
      ¬ Represents sample_formattable.geometry (bootLfs s'.disk (List.range 6)) a.closed := by
  obtain ⟨hstates, hglob, hdisk, -⟩ := createdRun_state
  obtain ⟨hdirty, hone⟩ := Prod.mk.inj hglob
  obtain ⟨f, hf⟩ := onlyInUse_of_states hstates
  obtain ⟨s', a, hs', ha, hall⟩ := close_durable_iff blankDisk sampleDisk 7 (16 * LF_BLKSIZ)
    (List.range 6) sample_formattable sampleDisk_eq createdRun createdRun_reaches 0 f hf
  refine ⟨s', a, hs', ha, fun hboot => ?_⟩
  rcases (hall a ha).1.mp hboot with hd | hn
  · exact Bool.noConfusion (hdirty.symm.trans hd)
  · rw [hdisk, hone] at hn
    exact absurd hn (by decide)

/-- **A file that is created and closed is gone**: the disk stands for no files
when the system starts again. -/
theorem close_not_durable :
    ¬ ∀ (disk d : Disk) (lfiblks : Int) (dsiz : Nat) (devs : List Nat)
      (h : Formattable disk lfiblks dsiz), lfscreate disk lfiblks dsiz = some d →
      ∀ s, Reaches (fun _ _ => True) (bootLfs d devs) s → ∀ m f, OnlyInUse s m f →
        ∀ s', exec (.close m) s = .ok ((OK, []), s') →
        ∀ a, Represents h.geometry s a →
          Represents h.geometry (bootLfs s'.disk devs) a.closed := by
  intro hall
  obtain ⟨hstates, hglob, -, hclosed⟩ := createdRun_state
  obtain ⟨-, hone⟩ := Prod.mk.inj hglob
  obtain ⟨f, hf⟩ := onlyInUse_of_states hstates
  obtain ⟨a, ha, -⟩ := Reaches.represents ((lfscreate_blank sample_formattable
    sampleDisk_eq).represents (List.range 6)) createdRun_reaches
  obtain ⟨s', V, hs', -⟩ := ha.lastClose hf
  rw [hs'] at hclosed
  have hboot := hall blankDisk sampleDisk 7 (16 * LF_BLKSIZ) (List.range 6) sample_formattable
    sampleDisk_eq createdRun (Reaches.start.opens trivial) 0 f hf s' hs' a ha
  -- one file in memory, none on disk
  have hzero : a.files.length = 0 :=
    hboot.diskDir_nfiles.symm.trans (Option.some.inj hclosed)
  obtain ⟨-, W, hM, hmod⟩ := ha.inUse hf.1
  have hlen := congrArg List.length hmod.bytes
  rw [List.length_map, List.length_map, ← hM.nfiles, hone, hzero] at hlen
  cases hlen

end Xinu.Lfs
