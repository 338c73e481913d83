import XinuCMips.Lfs.Truncate
import XinuCMips.Lfs.OpenOnce
import Mathlib.Data.List.Nodup

/-!
# All files of a disk

A `Volume` says where all files of the directory lie, and which blocks are
free. `Mounted` is what holds between two calls: every block of the disk
belongs to one file or to a free list, and of each file disk and control block
together hold what the volume says.

* `Mounted.settled` — what one call finds;
* `Mounted.update` — what one call leaves, for its own file and the others;
* `Mounted.newEntry`, `Mounted.openFile` — what `lfsOpen` does.
-/

namespace Xinu.Lfs

open Bytes Follow

/-! ## Blocks of many owners -/

section Owners

variable {α β : Type} {p : α → List β} {l : List α} {J J' : List β} {a a' : α} {i j : Nat}

/-- A list at one of its elements. -/
theorem split_at (h : l[i]? = some a) :
    ∃ l₁ l₂, l = l₁ ++ a :: l₂ ∧ ∀ b, l.set i b = l₁ ++ b :: l₂ := by
  obtain ⟨hi, rfl⟩ := List.getElem?_eq_some_iff.mp h
  refine ⟨l.take i, l.drop (i + 1), ?_, fun b => ?_⟩
  · rw [← List.drop_eq_getElem_cons hi, List.take_append_drop]
  · rw [List.set_eq_take_append_cons_drop, if_pos hi]

/-- Elements move between one owner and the rest. -/
theorem perm_flatMap_set {b : α} (h : l[i]? = some a) (hp : (p b ++ J').Perm (p a ++ J)) :
    ((l.set i b).flatMap p ++ J').Perm (l.flatMap p ++ J) := by
  obtain ⟨l₁, l₂, hl, hset⟩ := split_at h
  -- the owner's elements and the rest to the end
  have hmove : ∀ (c : α) (K : List β),
      ((l₁ ++ c :: l₂).flatMap p ++ K).Perm (l₁.flatMap p ++ l₂.flatMap p ++ (p c ++ K)) := by
    intro c K
    rw [List.flatMap_append, List.flatMap_cons, List.append_assoc, List.append_assoc,
      List.append_assoc]
    refine List.Perm.append_left _ ?_
    rw [← List.append_assoc, ← List.append_assoc]
    exact List.perm_append_comm.append_right K
  rw [hset b]
  refine (hmove b J').trans (((hp.append_left _).trans (hmove a J).symm).trans ?_)
  rw [← hl]

/-- One owner's elements among all of them. -/
theorem sublist_flatMap (h : l[i]? = some a) : (p a).Sublist (l.flatMap p) := by
  obtain ⟨l₁, l₂, rfl, -⟩ := split_at h
  rw [List.flatMap_append, List.flatMap_cons]
  exact (List.sublist_append_left _ _).trans (List.sublist_append_right _ _)

/-- Nothing has two owners. -/
theorem flatMap_apart (hnd : (l.flatMap p ++ J).Nodup) (hi : l[i]? = some a)
    (hj : l[j]? = some a') (hne : i ≠ j) : ∀ x ∈ p a', x ∉ p a ++ J := by
  obtain ⟨hnd₁, -, hJ⟩ := List.nodup_append.mp hnd
  have hpair := List.pairwise_iff_getElem.mp (List.nodup_flatMap.mp hnd₁).2
  obtain ⟨hi', rfl⟩ := List.getElem?_eq_some_iff.mp hi
  obtain ⟨hj', rfl⟩ := List.getElem?_eq_some_iff.mp hj
  intro x hx hmem
  rcases List.mem_append.mp hmem with hmem | hmem
  · rcases Nat.lt_or_gt_of_ne hne with hlt | hgt
    · exact hpair i j hi' hj' hlt hmem hx
    · exact hpair j i hj' hi' hgt hx hmem
  · exact hJ x ((sublist_flatMap hj).subset hx) x hmem rfl

/-- A sum at one of its terms. -/
theorem sum_map_set (q : α → Nat) (b : α) (h : l[i]? = some a) :
    ((l.set i b).map q).sum + q a = (l.map q).sum + q b := by
  obtain ⟨l₁, l₂, rfl, hset⟩ := split_at h
  rw [hset b]
  simp only [List.map_append, List.map_cons, List.sum_append, List.sum_cons]
  omega

end Owners

/-! ## Volumes -/

/-- Where the files lie, and the free blocks in the order of their lists. -/
structure Volume where
  maps : List FileMap
  ifree : List Nat
  dfree : List Nat

/-- What the control block of an open file holds of it. -/
structure Buffers (d : Disk) (f : Lflcblk) (F : FileMap) : Prop where
  mem : InMemory f F
  disk : OnDisk d F (dirtyIb f) (dirtyDb f)
  pos : f.lfpos ≤ F.bytes.length
  byte : f.lfbyte = LF_BLKSIZ ∨ AtByte f F

/-- The number of data blocks. -/
def Geometry.ndb (g : Geometry) : Nat := g.sectors - 1 - g.ibsectors

/-- **The file system between two calls**, with the directory in memory. -/
structure Mounted (g : Geometry) (s : FileSystem) (V : Volume) : Prop where
  sized : s.disk.Sized
  dirOk : Lfdir.layout.Ok s.glob.lfDir
  nfiles : s.glob.lfDir.lfdNfiles = V.maps.length
  room : V.maps.length ≤ LF_NUM_DIR_ENT
  entries : ∀ (i : Nat) (F : FileMap), V.maps[i]? = some F →
    ∃ e : Ldentry, s.glob.lfDir.lfdFiles[i]? = some e ∧
      e.ldSize = F.bytes.length ∧ e.ldIlist = F.chain.head?
  shape : ∀ F ∈ V.maps, F.Shape ∧ F.Tight
  iperm : (V.maps.flatMap FileMap.chain ++ V.ifree).Perm (List.range g.nib)
  nperm : (V.maps.flatMap FileMap.dbs ++ V.dfree).Perm (List.range' (g.ibsectors + 1) g.ndb)
  free : FreeLists s.disk s.glob.lfDir V.ifree V.dfree
  closed : ∀ (i : Nat) (F : FileMap), V.maps[i]? = some F →
    (∀ m f, InUse s m f → f.lfdirptr ≠ i) → OnDisk s.disk F none none
  opened : ∀ m f, InUse s m f → ∃ F, V.maps[f.lfdirptr]? = some F ∧ Buffers s.disk f F
  saved : s.glob.lfDirdirty = false →
    SameDir (Lfdir.layout.dec (s.disk LF_AREA_DIR)) s.glob.lfDir

section Mounted

variable {g : Geometry} {s : FileSystem} {V : Volume} {F F' : FileMap} {I' N' : List Nat}
variable {i j m : Nat} {f f' : Lflcblk} {w : View}

theorem Mounted.inodup (h : Mounted g s V) : (V.maps.flatMap FileMap.chain ++ V.ifree).Nodup :=
  h.iperm.nodup_iff.mpr List.nodup_range

theorem Mounted.nnodup (h : Mounted g s V) : (V.maps.flatMap FileMap.dbs ++ V.dfree).Nodup :=
  h.nperm.nodup_iff.mpr List.nodup_range'

theorem Mounted.irange (h : Mounted g s V) {b : Nat}
    (hb : b ∈ V.maps.flatMap FileMap.chain ++ V.ifree) : b < g.nib :=
  List.mem_range.mp (h.iperm.subset hb)

theorem Mounted.nrange (h : Mounted g s V) {n : Nat}
    (hn : n ∈ V.maps.flatMap FileMap.dbs ++ V.dfree) : g.IsDblock n := by
  have hmem := List.mem_range'.mp (h.nperm.subset hn)
  have := g.room
  unfold Geometry.ndb at hmem
  obtain ⟨k, hk, rfl⟩ := hmem
  exact ⟨by omega, by omega⟩

/-- Blocks of one file are blocks of the disk, and not of another file nor
free. -/
theorem Mounted.apart (h : Mounted g s V) (hi : V.maps[i]? = some F) (hj : V.maps[j]? = some F')
    (hne : i ≠ j) :
    (∀ b ∈ F'.chain, b < g.nib ∧ b ∉ F.chain ++ V.ifree) ∧
      ∀ n ∈ F'.dbs, g.IsDblock n ∧ n ∉ F.dbs ++ V.dfree :=
  ⟨fun b hb => ⟨h.irange (List.mem_append_left _ ((sublist_flatMap hj).subset hb)),
      flatMap_apart h.inodup hi hj hne b hb⟩,
    fun n hn => ⟨h.nrange (List.mem_append_left _ ((sublist_flatMap hj).subset hn)),
      flatMap_apart h.nnodup hi hj hne n hn⟩⟩

/-- **What a call on an open file finds.** -/
theorem Mounted.settled (h : Mounted g s V) (hf : InUse s m f) :
    ∃ F, V.maps[f.lfdirptr]? = some F ∧ Settled g ⟨s.disk, s.glob, f⟩ F V.ifree V.dfree := by
  obtain ⟨F, hF, hb⟩ := h.opened m f hf
  obtain ⟨e, he, hsize, hlist⟩ := h.entries _ F hF
  obtain ⟨hshape, htight⟩ := h.shape F (List.mem_of_getElem? hF)
  have hlt := (List.getElem?_eq_some_iff.mp hF).1
  have hroom := h.room
  have hentry : View.ldptr ⟨s.disk, s.glob, f⟩ = e := by
    unfold View.ldptr
    rw [List.getD_eq_getElem?_getD, he]
    rfl
  have hchain : (F.chain ++ V.ifree).Sublist (V.maps.flatMap FileMap.chain ++ V.ifree) :=
    (sublist_flatMap hF).append_right V.ifree
  have hdbs : (F.dbs ++ V.dfree).Sublist (V.maps.flatMap FileMap.dbs ++ V.dfree) :=
    (sublist_flatMap hF).append_right V.dfree
  exact ⟨F, hF,
    { used := hf.2
      sized := h.sized
      dirOk := h.dirOk
      slot := by show f.lfdirptr < LF_NUM_DIR_ENT; omega
      size := by rw [hentry, hsize]
      first := by rw [hentry, hlist]
      shape := hshape
      inodup := hchain.nodup h.inodup
      irange := fun b hb => h.irange (hchain.subset hb)
      nnodup := hdbs.nodup h.nnodup
      nrange := fun n hn => h.nrange (hdbs.subset hn)
      free := h.free
      disk := hb.disk
      mem := hb.mem
      tight := htight
      pos := hb.pos
      byte := hb.byte
      saved := h.saved }⟩

/-- What is in use after device `m` has got another control block. -/
theorem inUse_set {s' : FileSystem} (htab : s'.lfltab = s.lfltab.set m f') {k : Nat} {h : Lflcblk}
    (hu : InUse s' k h) : k = m ∧ h = f' ∨ k ≠ m ∧ InUse s k h := by
  obtain ⟨hk, hused⟩ := hu
  rw [htab, List.getElem?_set] at hk
  split at hk
  · rename_i hm
    split at hk
    · exact Or.inl ⟨hm.symm, (Option.some.inj hk).symm⟩
    · cases hk
  · rename_i hm
    exact Or.inr ⟨fun heq => hm heq.symm, hk, hused⟩

/-- **What a call on an open file leaves.** It may be closed, if nothing of it
is in memory only. -/
theorem Mounted.update (h : Mounted g s V) (ho : OpenOnce s) (hf : InUse s m f)
    (hF : V.maps[f.lfdirptr]? = some F) (hk : Keeps ⟨s.disk, s.glob, f⟩ w)
    (hw : Settled g w F' I' N')
    (hm : Moved g ⟨s.disk, s.glob, f⟩ w F F' V.ifree I' V.dfree N')
    (hused : f'.lfstate = .used → f' = w.file) (hfree : f'.lfstate = .free → Clean w) :
    Mounted g { s with disk := w.disk, glob := w.glob, lfltab := s.lfltab.set m f' }
      ⟨V.maps.set f.lfdirptr F', I', N'⟩ := by
  have hlt := (List.getElem?_eq_some_iff.mp hF).1
  have hroom := h.room
  have hptr : w.file.lfdirptr = f.lfdirptr := hk.handle.dirptr
  obtain ⟨e, -, hfiles⟩ := hk.files
  have hfiles : w.glob.lfDir.lfdFiles = s.glob.lfDir.lfdFiles.set f.lfdirptr e := hfiles
  have hlen : s.glob.lfDir.lfdFiles.length = LF_NUM_DIR_ENT := h.dirOk.2.2.2.1.1
  have hentry : w.ldptr = e := by
    unfold View.ldptr
    rw [hptr, hfiles, List.getD_eq_getElem?_getD, List.getElem?_set_self (by omega)]
    rfl
  -- the other files and their devices do not notice
  have hother : ∀ i G, V.maps[i]? = some G → i ≠ f.lfdirptr → ∀ ei ed,
      OnDisk s.disk G ei ed → OnDisk w.disk G ei ed := by
    intro i G hG hne ei ed hd
    have hap := h.apart hF hG (Ne.symm hne)
    exact hd.elsewhere hm.elsewhere hap.1 hap.2
  have hcases : ∀ k c, InUse { s with
      disk := w.disk, glob := w.glob, lfltab := s.lfltab.set m f' } k c →
      (k = m ∧ c = w.file) ∨ (k ≠ m ∧ InUse s k c ∧ c.lfdirptr ≠ f.lfdirptr) := by
    intro k c hc
    rcases inUse_set rfl hc with ⟨rfl, rfl⟩ | ⟨hne, hc'⟩
    · exact Or.inl ⟨rfl, hused hc.2⟩
    · exact Or.inr ⟨hne, hc', fun heq => hne (ho k m c f hc' hf heq)⟩
  refine
    { sized := hw.sized, dirOk := hw.dirOk, nfiles := ?_, room := ?_, entries := ?_, shape := ?_,
      iperm := (perm_flatMap_set hF hm.iperm).trans h.iperm,
      nperm := (perm_flatMap_set hF hm.nperm).trans h.nperm, free := hw.free, closed := ?_,
      opened := ?_, saved := hw.saved }
  · show w.glob.lfDir.lfdNfiles = (V.maps.set f.lfdirptr F').length
    rw [List.length_set, ← h.nfiles]
    exact hk.nfiles
  · show (V.maps.set f.lfdirptr F').length ≤ _
    rw [List.length_set]
    exact hroom
  · intro i G hG
    have hG : (V.maps.set f.lfdirptr F')[i]? = some G := hG
    show ∃ e, w.glob.lfDir.lfdFiles[i]? = some e ∧ _
    rw [hfiles]
    rw [List.getElem?_set] at hG ⊢
    split at hG
    · rename_i hi
      obtain rfl := Option.some.inj hG
      rw [if_pos hi, if_pos (by omega)]
      exact ⟨e, rfl, hentry ▸ hw.size, hentry ▸ hw.first⟩
    · rename_i hi
      rw [if_neg hi]
      exact h.entries i G hG
  · intro G hG
    rcases List.mem_or_eq_of_mem_set hG with hG | rfl
    · exact h.shape G hG
    · exact ⟨hw.shape, hw.tight⟩
  · intro i G hG hnone
    have hG : (V.maps.set f.lfdirptr F')[i]? = some G := hG
    rw [List.getElem?_set] at hG
    split at hG
    · rename_i hi
      obtain rfl := Option.some.inj hG
      -- the device of this file is free now
      have hst : f'.lfstate = .free := by
        cases hst : f'.lfstate with
        | free => rfl
        | used =>
          have heq := hused hst
          have hmlt := (List.getElem?_eq_some_iff.mp hf.1).1
          refine absurd ?_ (hnone m f' ⟨List.getElem?_set_self hmlt, hst⟩)
          rw [heq, hptr, hi]
      have hc := hfree hst
      have hd := hw.disk
      rw [dirtyIb_clean hc.ibdirty, dirtyDb_clean hc.dbdirty] at hd
      exact hd
    · rename_i hi
      refine hother i G hG (Ne.symm hi) none none (h.closed i G hG fun k c hc heq => ?_)
      have hkm : k ≠ m := by
        rintro rfl
        obtain rfl := Option.some.inj (hc.1.symm.trans hf.1)
        exact hi heq
      exact hnone k c ⟨(List.getElem?_set_ne (Ne.symm hkm)).trans hc.1, hc.2⟩ heq
  · intro k c hc
    rcases hcases k c hc with ⟨rfl, rfl⟩ | ⟨hne, hc', hptr'⟩
    · refine ⟨F', ?_, hw.mem, hw.disk, hw.pos, hw.byte⟩
      show (V.maps.set f.lfdirptr F')[w.file.lfdirptr]? = some F'
      rw [hptr, List.getElem?_set_self hlt]
    · obtain ⟨G, hG, hb⟩ := h.opened k c hc'
      refine ⟨G, ?_, hb.mem, hother _ G hG hptr' _ _ hb.disk, hb.pos, hb.byte⟩
      show (V.maps.set f.lfdirptr F')[c.lfdirptr]? = some G
      rw [List.getElem?_set_ne (Ne.symm hptr')]
      exact hG

/-! ## Opening -/

/-- A file without bytes. -/
def FileMap.empty : FileMap := ⟨[], [], []⟩

theorem OnDisk.empty (d : Disk) (ei ed : Option Nat) : OnDisk d FileMap.empty ei ed :=
  ⟨fun _ _ hj => (by cases hj), fun _ _ hm => (by cases hm)⟩

/-- A directory stays saved when an empty file is added to it. -/
theorem SameDir.newEntry {name : CString} {d : Lfdir} (h : SameDir d s.glob.lfDir) :
    SameDir d (newEntry name s).glob.lfDir := by
  have hfiles : (Lfs.newEntry name s).glob.lfDir.lfdFiles =
      s.glob.lfDir.lfdFiles.set s.glob.lfDir.lfdNfiles ⟨0, none, copyName name
        (s.glob.lfDir.lfdFiles.getD s.glob.lfDir.lfdNfiles ⟨0, none, []⟩).ldName⟩ := rfl
  have hn := h.nfiles
  refine ⟨h.dfree, h.ifree, Nat.le_succ_of_le hn, fun i hi => ?_, fun i e hi hlt he => ?_⟩
  · rw [hfiles, List.getElem?_set_ne (by omega)]
    exact h.files i hi
  · have hlt : i < s.glob.lfDir.lfdNfiles + 1 := hlt
    rw [hfiles, List.getElem?_set] at he
    split at he
    · split at he
      · obtain rfl := Option.some.inj he
        exact ⟨rfl, rfl⟩
      · cases he
    · exact h.fresh i e hi (by omega) he

/-- **A new directory entry**, of a file that no device is open on yet. -/
theorem Mounted.newEntry {name : CString} (h : Mounted g s V)
    (hroom : V.maps.length < LF_NUM_DIR_ENT) (hname : name.chars.length < LF_NAME_LEN) :
    Mounted g (newEntry name s) ⟨V.maps ++ [FileMap.empty], V.ifree, V.dfree⟩ := by
  obtain ⟨hd, hif, -, ⟨hlen, hall⟩, hpad⟩ := h.dirOk
  have hlen : s.glob.lfDir.lfdFiles.length = LF_NUM_DIR_ENT := hlen
  have hn := h.nfiles
  have hlt : s.glob.lfDir.lfdNfiles < s.glob.lfDir.lfdFiles.length := by
    rw [hlen]
    omega
  have hfiles : (Lfs.newEntry name s).glob.lfDir.lfdFiles =
      s.glob.lfDir.lfdFiles.set V.maps.length ⟨0, none, copyName name
        (s.glob.lfDir.lfdFiles.getD s.glob.lfDir.lfdNfiles ⟨0, none, []⟩).ldName⟩ := by
    rw [← hn]
    rfl
  -- the name and its null character fit into the old name
  have hold := hall _ (List.getElem_mem hlt)
  have hcopy : (copyName name
      (s.glob.lfDir.lfdFiles.getD s.glob.lfDir.lfdNfiles ⟨0, none, []⟩).ldName).length =
      LF_NAME_LEN := by
    have hget : s.glob.lfDir.lfdFiles.getD s.glob.lfDir.lfdNfiles ⟨0, none, []⟩ =
        s.glob.lfDir.lfdFiles[s.glob.lfDir.lfdNfiles] := by
      rw [List.getD_eq_getElem?_getD, List.getElem?_eq_getElem hlt]
      rfl
    have hname' : (s.glob.lfDir.lfdFiles[s.glob.lfDir.lfdNfiles]).ldName.length = LF_NAME_LEN :=
      hold.2.2
    unfold copyName
    rw [hget, length_splice, hname']
    rw [List.length_append, List.length_singleton, hname']
    omega
  have hflat : ∀ p : FileMap → List Nat, p FileMap.empty = [] →
      (V.maps ++ [FileMap.empty]).flatMap p = V.maps.flatMap p := by
    intro p hp
    rw [List.flatMap_append, List.flatMap_singleton, hp, List.append_nil]
  refine
    { sized := h.sized, dirOk := ⟨hd, hif, ?_, ⟨List.length_set.trans hlen, ?_⟩, hpad⟩,
      nfiles := ?_, room := ?_, entries := ?_, shape := ?_, iperm := ?_, nperm := ?_,
      free := ⟨h.free.iblocks, h.free.dblocks⟩, closed := ?_, opened := ?_,
      saved := fun hd => (h.saved hd).newEntry }
  · show s.glob.lfDir.lfdNfiles + 1 < 256 ^ 4
    unfold LF_NUM_DIR_ENT at hroom
    omega
  · intro e he
    rcases List.mem_or_eq_of_mem_set he with he | rfl
    · exact hall e he
    · refine ⟨?_, fun x hx => (by cases hx), hcopy⟩
      show 0 < 256 ^ 4
      omega
  · show s.glob.lfDir.lfdNfiles + 1 = (V.maps ++ [FileMap.empty]).length
    rw [List.length_append, hn]
    rfl
  · show (V.maps ++ [FileMap.empty]).length ≤ _
    rw [List.length_append, List.length_singleton]
    exact hroom
  · intro i F hF
    have hF : (V.maps ++ [FileMap.empty])[i]? = some F := hF
    rw [hfiles]
    rw [List.getElem?_append] at hF
    split at hF
    · rename_i hi
      rw [List.getElem?_set_ne (by omega)]
      exact h.entries i F hF
    · rename_i hi
      have hi' := (List.getElem?_eq_some_iff.mp hF).1
      rw [List.length_singleton] at hi'
      obtain rfl := List.mem_singleton.mp (List.mem_of_getElem? hF)
      rw [show i = V.maps.length by omega, List.getElem?_set_self (hn ▸ hlt)]
      exact ⟨_, rfl, rfl, rfl⟩
  · intro F hF
    rcases List.mem_append.mp hF with hF | hF
    · exact h.shape F hF
    · obtain rfl := List.mem_singleton.mp hF
      exact ⟨⟨Nat.le_refl _, Nat.zero_le _, Nat.le_refl _, Nat.zero_le _⟩,
        by show 0 < 512; omega, by show 0 < 16; omega⟩
  · show ((V.maps ++ [FileMap.empty]).flatMap FileMap.chain ++ V.ifree).Perm _
    rw [hflat _ rfl]
    exact h.iperm
  · show ((V.maps ++ [FileMap.empty]).flatMap FileMap.dbs ++ V.dfree).Perm _
    rw [hflat _ rfl]
    exact h.nperm
  · intro i F hF hnone
    have hF : (V.maps ++ [FileMap.empty])[i]? = some F := hF
    rw [List.getElem?_append] at hF
    split at hF
    · exact h.closed i F hF hnone
    · obtain rfl := List.mem_singleton.mp (List.mem_of_getElem? hF)
      exact OnDisk.empty _ _ _
  · intro k c hc
    obtain ⟨F, hF, hb⟩ := h.opened k c hc
    exact ⟨F, List.getElem?_append_left (List.getElem?_eq_some_iff.mp hF).1 ▸ hF, hb⟩

/-- **A device is opened** for a file that no other one is open on. -/
theorem Mounted.openFile {name : CString} {mbits k : Nat} {lf : Lflcblk} (h : Mounted g s V)
    (hlf : s.lfltab[k]? = some lf) (hfree : lf.lfstate = .free) (hi : i < V.maps.length)
    (hnew : ∀ j c, InUse s j c → c.lfdirptr ≠ i) :
    Mounted g (openFile s k i name mbits).2 V := by
  rw [openFile_tab hlf]
  have hklt := (List.getElem?_eq_some_iff.mp hlf).1
  -- the devices that were in use still are
  have hkeep : ∀ j c, InUse s j c →
      InUse { s with lfltab := s.lfltab.set k (openBlock lf i name mbits) } j c := by
    intro j c hc
    have hne : k ≠ j := by
      rintro rfl
      obtain rfl := Option.some.inj (hlf.symm.trans hc.1)
      exact LfState.noConfusion (hfree.symm.trans hc.2)
    exact ⟨(List.getElem?_set_ne hne).trans hc.1, hc.2⟩
  refine { h with closed := fun j F hF hnone => ?_, opened := fun j c hc => ?_ }
  · exact h.closed j F hF fun k' c hc => hnone k' c (hkeep k' c hc)
  · rcases inUse_set rfl hc with ⟨rfl, rfl⟩ | ⟨-, hc'⟩
    · obtain ⟨F, hF⟩ : ∃ F, V.maps[i]? = some F := ⟨_, List.getElem?_eq_getElem hi⟩
      refine ⟨F, hF, ⟨fun b hb => ?_, fun n hn => ?_, fun hb => ?_, fun hb => ?_⟩, ?_,
        Nat.zero_le _, Or.inl rfl⟩
      · cases hb
      · cases hn
      · cases hb
      · cases hb
      · exact h.closed i F hF hnew
    · exact h.opened j c hc'

end Mounted

end Xinu.Lfs
