import XinuCMips.Lfs.Volume

/-!
# The calls do what they are for

The file system on a disk, with its caches and free lists, does for its
callers what lists of bytes do: each call gives the same reply in both and
keeps them in step (`Represents`), or stops because the files do not fit on
the disk.

* `Implements` — a call on a file against its meaning;
* `onFile_step`, `lfsOpen_step`, `lflClose_step` — the three kinds of calls;
* `exec_step`, `run_refines` — any call, and any sequence of them.
-/

namespace Xinu.Lfs

open Bytes Follow

variable {g : Geometry} {s s₁ : FileSystem} {V : Volume} {a : Files}

/-! ## Names -/

/-- The characters of a stored name, before its null character. -/
def nameOf (l : List UInt8) : List UInt8 := l.takeWhile (· != 0)

/-- The comparison of a requested name with a stored one is exact. -/
theorem sameName_iff {n l : List UInt8} (hn : (0 : UInt8) ∉ n) :
    sameName n l = true ↔ nameOf l = n := by
  unfold nameOf
  induction n generalizing l with
  | nil =>
    cases l with
    | nil => simp [sameName]
    | cons b l => by_cases hb : b = 0 <;> simp [sameName, hb]
  | cons c n ih =>
    have hc : c ≠ 0 := fun h => hn (h ▸ List.mem_cons_self)
    have ih := @ih l.tail fun h => hn (List.mem_cons_of_mem c h)
    cases l with
    | nil => simp [sameName, hc]
    | cons b l =>
      by_cases hb : c = b
      · subst b
        simp only [List.tail_cons] at ih
        simp [sameName, hc, ih]
      · simp only [sameName, List.headD_cons, ne_eq, hb, not_false_eq_true, if_true,
          Bool.false_eq_true, false_iff]
        intro h
        rw [List.takeWhile_cons] at h
        split at h
        · exact hb (List.cons.inj h).1.symm
        · cases h

/-! ## Representation -/

/-- What a device is open on. -/
def handleOf (f : Lflcblk) : Option Handle :=
  if f.lfstate = .used then some ⟨f.lfdirptr, f.lfpos⟩ else none

/-- The files, positions and device numbers of a mounted file system. -/
structure Models (s : FileSystem) (V : Volume) (a : Files) : Prop where
  names : a.files.map ByteFile.name = (dirNames s.glob.lfDir).map nameOf
  bytes : a.files.map ByteFile.bytes = V.maps.map FileMap.bytes
  handles : a.handles = s.lfltab.map handleOf
  devs : a.devs = s.lfltab.map Lflcblk.lfdev

/-- **The file system `s` stands for the files `a`**, whether or not its
directory has been brought into memory yet. -/
structure Represents (g : Geometry) (s : FileSystem) (a : Files) : Prop where
  handles : Handles s
  once : OpenOnce s
  mounted : ∃ s₁ V, loadDir s = some s₁ ∧ Mounted g s₁ V ∧ Models s₁ V a

theorem Handles.present (h : Handles s) {m : Nat} {f : Lflcblk} (hf : InUse s m f) :
    s.glob.lfDirpresent = true := by
  cases hp : s.glob.lfDirpresent with
  | true => rfl
  | false =>
    have hfree := h.absent hp f (List.mem_of_getElem? hf.1)
    exact absurd (hf.2.symm.trans hfree) LfState.noConfusion

/-- As soon as a file is open the directory is in memory. -/
theorem Represents.inUse (h : Represents g s a) {m : Nat} {f : Lflcblk} (hf : InUse s m f) :
    loadDir s = some s ∧ ∃ V, Mounted g s V ∧ Models s V a := by
  have hload : loadDir s = some s := if_pos (h.handles.present hf)
  obtain ⟨s₁, V, hs₁, hm, hmod⟩ := h.mounted
  obtain rfl := Option.some.inj (hload.symm.trans hs₁)
  exact ⟨hload, V, hm, hmod⟩

theorem Represents.tab (h : Represents g s a) :
    a.handles = s.lfltab.map handleOf ∧ a.devs = s.lfltab.map Lflcblk.lfdev := by
  obtain ⟨s₁, V, hs₁, -, hmod⟩ := h.mounted
  rw [← (loadDir_cases hs₁).1]
  exact ⟨hmod.handles, hmod.devs⟩

/-- The file that an entry of the directory stands for. -/
theorem Models.file (h : Models s V a) {i : Nat} {F : FileMap} (hF : V.maps[i]? = some F) :
    ∃ A, a.files[i]? = some A ∧ A.bytes = F.bytes := by
  have hget := congrArg (fun l => l[i]?) h.bytes
  simp only [List.getElem?_map, hF, Option.map_some] at hget
  obtain ⟨A, hA, hb⟩ := Option.map_eq_some_iff.mp hget
  exact ⟨A, hA, hb⟩

/-! ## Room -/

/-- A file has as many blocks as its bytes need. -/
theorem FileMap.Tight.lengths {F : FileMap} (ht : F.Tight) (hs : F.Shape) :
    F.dbs.length = (F.bytes.length + 511) / 512 ∧
      F.chain.length = (F.bytes.length + 8191) / 8192 := by
  have := ht.spare
  have := ht.ispare
  have := hs.covers
  have := hs.indexed
  omega

/-- **What fits on the disk has room**: the blocks that a file needs are its
own or free. -/
theorem Mounted.room_of_fits {i : Nat} {F : FileMap} {A : ByteFile} {bytes : List UInt8}
    (h : Mounted g s V) (hmod : Models s V a) (hF : V.maps[i]? = some F)
    (hA : a.files[i]? = some A)
    (hfits : Files.Fits { a with files := a.files.set i { A with bytes := bytes } } g.nib g.ndb) :
    Room F V.ifree V.dfree bytes.length := by
  have hbytes : A.bytes = F.bytes := by
    obtain ⟨B, hB, hb⟩ := hmod.file hF
    obtain rfl := Option.some.inj (hA.symm.trans hB)
    exact hb
  obtain ⟨hshape, htight⟩ := h.shape F (List.mem_of_getElem? hF)
  obtain ⟨hdl, hcl⟩ := htight.lengths hshape
  -- the blocks of all files, counted by their bytes
  have hsum : ∀ (q : Nat → Nat) (p : FileMap → List Nat),
      (∀ G ∈ V.maps, (p G).length = q G.bytes.length) →
      (a.files.map fun f => q f.bytes.length).sum = (V.maps.flatMap p).length := by
    intro q p hq
    have hmap := congrArg (List.map fun l : List UInt8 => q l.length) hmod.bytes
    rw [List.map_map, List.map_map] at hmap
    rw [List.length_flatMap]
    refine congrArg List.sum (hmap.trans (List.map_congr_left fun G hG => ?_))
    exact (hq G hG).symm
  have hlen := h.iperm.length_eq
  have hlen' := h.nperm.length_eq
  rw [List.length_append, List.length_range] at hlen
  rw [List.length_append, List.length_range'] at hlen'
  have hi := hsum (fun n => (n + 8191) / 8192) FileMap.chain fun G hG =>
    ((h.shape G hG).2.lengths (h.shape G hG).1).2
  have hd := hsum (fun n => (n + 511) / 512) FileMap.dbs fun G hG =>
    ((h.shape G hG).2.lengths (h.shape G hG).1).1
  have hseti := sum_map_set (fun f : ByteFile => (f.bytes.length + 8191) / 8192)
    { A with bytes := bytes } hA
  have hsetd := sum_map_set (fun f : ByteFile => (f.bytes.length + 511) / 512)
    { A with bytes := bytes } hA
  have hfi := hfits.iblocks
  have hfd := hfits.dblocks
  dsimp only at hi hd hseti hsetd hfi hfd
  rw [hbytes] at hseti hsetd
  constructor <;> omega

/-! ## Calls on a file -/

/-- A call on a file does what `op` says. On a device that is not open it is
`refused`. -/
structure Implements (call : View → Except Fault (Reply × View)) (op : Op) (refused : Reply) :
    Prop where
  ends : ∀ {g v F I N}, Settled g v F I N → Ends g v F I N (call v) (op F.bytes v.file.lfpos).1
    (op F.bytes v.file.lfpos).2.1 (op F.bytes v.file.lfpos).2.2
  keeps : ∀ {v r w}, call v = .ok (r, w) → Keeps v w
  refuses : ∀ {v : View}, v.file.lfstate = .free → call v = .ok (refused, v)

/-- Storing what is there already changes nothing. -/
theorem set_same {α : Type} {l : List α} {i : Nat} {b : α} (h : l[i]? = some b) :
    l.set i b = l := by
  obtain ⟨l₁, l₂, rfl, hset⟩ := split_at h
  exact hset b

theorem handleOf_used {f : Lflcblk} (h : f.lfstate = .used) :
    handleOf f = some ⟨f.lfdirptr, f.lfpos⟩ := if_pos h

theorem handleOf_free {f : Lflcblk} (h : f.lfstate = .free) : handleOf f = none :=
  if_neg (by rw [h]; exact LfState.noConfusion)

/-- A call on device `m` that leaves its view as it is. -/
theorem onFile_same {m : Nat} {call : View → Except Fault (Reply × View)} {r : Reply}
    {f : Lflcblk} (hf : s.lfltab[m]? = some f)
    (hcall : call ⟨s.disk, s.glob, f⟩ = .ok (r, ⟨s.disk, s.glob, f⟩)) :
    onFile m call s = .ok (r, s) := by
  unfold onFile
  rw [hf]
  dsimp only
  rw [hcall]
  show Except.ok (r, { s with lfltab := s.lfltab.set m f }) = .ok (r, s)
  rw [set_same hf]

/-- The names in the directory stay what they are. -/
theorem Keeps.dirNames {v w : View} (h : Keeps v w) :
    dirNames w.glob.lfDir = dirNames v.glob.lfDir := by
  unfold Lfs.dirNames
  rw [List.map_take, List.map_take, h.names, h.nfiles]

/-- **The state after a call on an open file.** -/
theorem Represents.update {m : Nat} {f f' : Lflcblk} {w : View} {F F' : FileMap}
    {I' N' : List Nat} {A : ByteFile} (h : Represents g s a) (hf : InUse s m f)
    (hM : Mounted g s V) (hmod : Models s V a) (hF : V.maps[f.lfdirptr]? = some F)
    (hA : a.files[f.lfdirptr]? = some A) (hk : Keeps ⟨s.disk, s.glob, f⟩ w)
    (hw : Settled g w F' I' N')
    (hm : Moved g ⟨s.disk, s.glob, f⟩ w F F' V.ifree I' V.dfree N')
    (hused : f'.lfstate = .used → f' = w.file) (hfree : f'.lfstate = .free → Clean w)
    (hdev : f'.lfdev = f.lfdev)
    (hcalm : Calm s { s with disk := w.disk, glob := w.glob, lfltab := s.lfltab.set m f' }) :
    Represents g { s with disk := w.disk, glob := w.glob, lfltab := s.lfltab.set m f' }
      { a with
        files := a.files.set f.lfdirptr { A with bytes := F'.bytes }
        handles := a.handles.set m (handleOf f') } := by
  refine ⟨h.handles.calm hcalm, h.once.calm hcalm, _, _, if_pos ?_,
    hM.update h.once hf hF hk hw hm hused hfree, ?_, ?_, ?_, ?_⟩
  · show w.glob.lfDirpresent = true
    rw [hk.present]
    exact h.handles.present hf
  · have hname : (a.files.map ByteFile.name)[f.lfdirptr]? = some A.name := by
      rw [List.getElem?_map, hA]
      rfl
    show (a.files.set f.lfdirptr _).map ByteFile.name = (dirNames w.glob.lfDir).map nameOf
    rw [List.map_set, set_same hname, hmod.names, hk.dirNames]
  · show (a.files.set f.lfdirptr _).map ByteFile.bytes =
      (V.maps.set f.lfdirptr F').map FileMap.bytes
    rw [List.map_set, List.map_set, hmod.bytes]
  · show a.handles.set m (handleOf f') = (s.lfltab.set m f').map handleOf
    rw [List.map_set, hmod.handles]
  · have hdevs : (s.lfltab.map Lflcblk.lfdev)[m]? = some f'.lfdev := by
      rw [List.getElem?_map, hf.1, hdev]
      rfl
    show a.devs = (s.lfltab.set m f').map Lflcblk.lfdev
    rw [List.map_set, set_same hdevs]
    exact hmod.devs

/-- **A call on a file and its meaning.** -/
theorem onFile_step {call : View → Except Fault (Reply × View)} {op : Op} {refused : Reply}
    {m : Nat} (hc : Implements call op refused) (h : Represents g s a) :
    (∃ msg, onFile m call s = .error (.panic msg) ∧
      ¬ (a.onHandle m op refused).2.Fits g.nib g.ndb) ∨
    ∃ s', onFile m call s = .ok ((a.onHandle m op refused).1, s') ∧
      Represents g s' (a.onHandle m op refused).2 := by
  have htab : a.handles[m]? = s.lfltab[m]?.map handleOf := by
    rw [h.tab.1, List.getElem?_map]
  unfold Files.onHandle
  rw [htab]
  cases hm : s.lfltab[m]? with
  | none =>
    refine Or.inr ⟨s, ?_, h⟩
    unfold onFile
    rw [hm]
    rfl
  | some f =>
    rw [Option.map_some]
    cases hst : f.lfstate with
    | free =>
      rw [handleOf_free hst]
      exact Or.inr ⟨s, onFile_same hm (hc.refuses hst), h⟩
    | used =>
      have hf : InUse s m f := ⟨hm, hst⟩
      obtain ⟨hload, V, hM, hmod⟩ := h.inUse hf
      obtain ⟨F, hF, hset⟩ := hM.settled hf
      obtain ⟨A, hA, hbytes⟩ := hmod.file hF
      rw [handleOf_used hst]
      dsimp only
      rw [hA]
      dsimp only
      rw [hbytes]
      unfold onFile
      rw [hm]
      dsimp only
      rcases hc.ends hset with ⟨msg, hpanic, hroom⟩ | ⟨w, F', I', N', hw, hs', hmv, hb, hp⟩
      · refine Or.inl ⟨msg, ?_, fun hfits => hroom ?_⟩
        · rw [hpanic]
          rfl
        · exact hM.room_of_fits hmod hF hA ⟨hfits.iblocks, hfits.dblocks⟩
      · have hk := hc.keeps hw
        have hptr : w.file.lfdirptr = f.lfdirptr := hk.handle.dirptr
        have hexec : onFile m call s = .ok ((op F.bytes f.lfpos).1,
            { s with disk := w.disk, glob := w.glob, lfltab := s.lfltab.set m w.file }) := by
          unfold onFile
          rw [hm]
          dsimp only
          rw [hw]
          rfl
        have hup := h.update hf hM hmod hF hA hk hs' hmv (fun _ => rfl)
          (fun hfree => absurd (hs'.used.symm.trans hfree) LfState.noConfusion) hk.handle.dev
          (onFile_calm (fun v r w hw => (hc.keeps hw).loose) hexec)
        rw [handleOf_used hs'.used, hptr, hp, hb] at hup
        refine Or.inr ⟨_, ?_, hup⟩
        rw [hw]
        rfl

/-! ## The meaning of each call -/

/-- A call that stores nothing for the caller. -/
theorem Ends.plain {v : View} {F : FileMap} {I N : List Nat}
    {call : View → Except Fault (Int × View)} {r : Int} {data : List UInt8} {pos : Nat}
    (h : Ends g v F I N (call v) r data pos) :
    Ends g v F I N (plain call v) (r, []) data pos := by
  refine h.bind (Nat.le_refl _) fun w F' I' N' hs hb hp => ?_
  rw [← hb, ← hp]
  exact Ends.ok hs rfl

/-- What calls without data return is enough. -/
theorem Implements.plain {call : View → Except Fault (Int × View)} {op : Op} {r : Int}
    (hends : ∀ {g v F I N}, Settled g v F I N → ∃ k, (op F.bytes v.file.lfpos).1 = (k, []) ∧
      Ends g v F I N (call v) k (op F.bytes v.file.lfpos).2.1 (op F.bytes v.file.lfpos).2.2)
    (hkeeps : ∀ {v k w}, call v = .ok (k, w) → Keeps v w)
    (hrefuses : ∀ {v : View}, v.file.lfstate = .free → call v = .ok (r, v)) :
    Implements (plain call) op (r, []) where
  ends h := by
    obtain ⟨k, hk, he⟩ := hends h
    rw [hk]
    exact he.plain
  keeps h := by
    obtain ⟨⟨k, u⟩, hu, h⟩ := bind_eq_ok h
    obtain ⟨-, rfl⟩ := Prod.mk.inj (Except.ok.inj h)
    exact hkeeps hu
  refuses h := by
    unfold Lfs.plain
    rw [hrefuses h]
    rfl

/-- A device that is free is not in use. -/
theorem not_used {f : Lflcblk} (h : f.lfstate = .free) : f.lfstate ≠ .used := by
  rw [h]
  exact LfState.noConfusion

theorem lflPutc_free {v : View} (ch : UInt8) (h : v.file.lfstate = .free) :
    lflPutc ch v = .ok (SYSERR, v) := if_pos (not_used h)

theorem lflGetc_free {v : View} (h : v.file.lfstate = .free) : lflGetc v = .ok (SYSERR, v) :=
  if_pos (not_used h)

theorem putc_implements (ch : UInt8) :
    Implements (plain (lflPutc ch)) (.putc ch) (SYSERR, []) :=
  .plain (fun h => ⟨OK, rfl, lflPutc_ends h⟩) lflPutc_keeps (lflPutc_free ch)

theorem getc_implements : Implements (plain lflGetc) .getc (SYSERR, []) := by
  refine .plain (fun {g v F I N} h => ?_) lflGetc_keeps lflGetc_free
  unfold Op.getc
  cases hb : F.bytes[v.file.lfpos]? with
  | some b => exact ⟨_, rfl, lflGetc_ends h hb⟩
  | none =>
    have heof : lflGetc v = .ok (EOF, v) := by
      unfold lflGetc
      rw [if_neg (not_not.mpr h.used),
        if_pos (by rw [h.size]; exact List.getElem?_eq_none_iff.mp hb)]
    rw [heof]
    exact ⟨EOF, rfl, Ends.ok h rfl⟩

theorem lflWrite_keeps {buff : List UInt8} {count r : Int} {v w : View}
    (h : lflWrite buff count v = .ok (r, w)) : Keeps v w := by
  unfold lflWrite at h
  split at h
  · obtain ⟨-, rfl⟩ := Prod.mk.inj (Except.ok.inj h)
    exact Keeps.refl v
  · obtain ⟨⟨b, u⟩, hu, h⟩ := bind_eq_ok h
    obtain ⟨-, rfl⟩ := Prod.mk.inj (Except.ok.inj h)
    exact lflWriteLoop_keeps hu

theorem write_implements (buff : List UInt8) {count : Int} (hcount : ¬ count < 0) :
    Implements (plain (lflWrite buff count)) (.write (buff.take count.toNat) count)
      (if buff.take count.toNat = [] then count else SYSERR, []) := by
  refine .plain (fun h => ⟨count, rfl, lflWrite_ends buff h hcount⟩) lflWrite_keeps
    fun {v} h => ?_
  unfold lflWrite
  rw [if_neg hcount]
  cases hdata : buff.take count.toNat with
  | nil => rfl
  | cons ch data =>
    unfold lflWriteLoop
    rw [lflPutc_free ch h]
    rfl

theorem lflRead_keeps {count : Int} {r : Reply} {v w : View}
    (h : lflRead count v = .ok (r, w)) : Keeps v w := by
  unfold lflRead at h
  split at h
  · obtain ⟨-, rfl⟩ := Prod.mk.inj (Except.ok.inj h)
    exact Keeps.refl v
  · exact lflReadLoop_keeps h

theorem read_implements {count : Int} (hcount : ¬ count < 0) :
    Implements (lflRead count) (.read count.toNat)
      (if count = 0 then 0 else SYSERR, []) := by
  refine ⟨fun h => lflRead_ends h hcount, lflRead_keeps, fun {v} h => ?_⟩
  unfold lflRead
  rw [if_neg hcount]
  cases hn : count.toNat with
  | zero =>
    rw [if_pos (by omega)]
    rfl
  | succ n =>
    rw [if_neg (by omega)]
    unfold lflReadLoop
    rw [lflGetc_free h]
    rfl

theorem seek_implements (offset : Nat) :
    Implements (plain fun v => .ok (lflSeek offset v)) (.seek offset) (SYSERR, []) := by
  refine .plain (fun {g v F I N} h => ?_) (fun {v k w} h => ?_) fun {v} h => ?_
  · unfold Op.seek
    split
    · rename_i hlt
      have hsys : lflSeek offset v = (SYSERR, v) := by
        unfold lflSeek
        rw [if_neg (not_not.mpr h.used), if_pos (by rw [h.size]; exact hlt)]
      rw [hsys]
      exact ⟨SYSERR, rfl, Ends.ok h rfl⟩
    · exact ⟨OK, rfl, lflSeek_ends h (by omega)⟩
  · rw [show w = (lflSeek offset v).2 from (congrArg Prod.snd (Except.ok.inj h)).symm]
    exact lflSeek_keeps offset v
  · exact congrArg Except.ok (if_pos (not_used h))

theorem trunc_implements (unused : Unused) :
    Implements (plain (lflControl LF_CTL_TRUNC unused.1)) .trunc (SYSERR, []) := by
  refine .plain (fun {g v F I N} h => ⟨OK, rfl, ?_⟩) (fun {v k w} h => ?_) fun h =>
    if_pos (not_used h)
  · unfold lflControl
    rw [if_neg (not_not.mpr h.used), if_pos rfl]
    exact lftruncate_ends unused h
  · unfold lflControl at h
    split at h
    · obtain ⟨-, rfl⟩ := Prod.mk.inj (Except.ok.inj h)
      exact Keeps.refl v
    · rw [if_pos rfl] at h
      exact lftruncate_keeps h

theorem flush_implements :
    Implements (plain fun v => .ok (lfflush v)) (.skip OK) (SYSERR, []) := by
  refine .plain (fun {g v F I N} h => ?_) (fun {v k w} h => ?_) fun h =>
    congrArg Except.ok (if_pos h)
  · obtain ⟨w, hw, hs, hm, hfile, -⟩ := lfflush_settled h
    have hp : w.file.lfpos = v.file.lfpos := by rw [hfile]
    rw [hw]
    exact ⟨OK, rfl, Or.inr ⟨w, F, I, N, rfl, hs, hm, rfl, hp⟩⟩
  · rw [show w = (lfflush v).2 from (congrArg Prod.snd (Except.ok.inj h)).symm]
    exact lfflush_keeps v

/-! ## Closing -/

/-- What a close leaves of an open file. -/
theorem lflClose_exec {m : Nat} {f : Lflcblk} (hf : InUse s m f) :
    onFile m (plain fun v => .ok (lflClose v)) s = .ok ((OK, []), { s with
      disk := (flushAll ⟨s.disk, s.glob, f⟩).disk
      glob := (flushAll ⟨s.disk, s.glob, f⟩).glob
      lfltab := s.lfltab.set m
        { (flushAll ⟨s.disk, s.glob, f⟩).file with lfstate := .free } }) := by
  have hclose : lflClose ⟨s.disk, s.glob, f⟩ = (OK, { flushAll ⟨s.disk, s.glob, f⟩ with
      file := { (flushAll ⟨s.disk, s.glob, f⟩).file with lfstate := .free } }) :=
    if_neg (not_not.mpr hf.2)
  unfold onFile plain
  rw [hf.1]
  dsimp only
  rw [hclose]
  rfl

/-- **A close** writes what is in memory only and frees the device. -/
theorem lflClose_step (m : Nat) (h : Represents g s a) :
    ∃ s', onFile m (plain fun v => .ok (lflClose v)) s = .ok ((a.close m).1, s') ∧
      Represents g s' (a.close m).2 := by
  have htab : a.handles[m]? = s.lfltab[m]?.map handleOf := by
    rw [h.tab.1, List.getElem?_map]
  unfold Files.close
  rw [htab]
  cases hm : s.lfltab[m]? with
  | none =>
    refine ⟨s, ?_, h⟩
    unfold onFile
    rw [hm]
    rfl
  | some f =>
    rw [Option.map_some]
    cases hst : f.lfstate with
    | free =>
      rw [handleOf_free hst]
      refine ⟨s, onFile_same hm ?_, h⟩
      have hclose : lflClose ⟨s.disk, s.glob, f⟩ = (SYSERR, ⟨s.disk, s.glob, f⟩) :=
        if_pos (not_used hst)
      unfold plain
      dsimp only
      rw [hclose]
      rfl
    | used =>
      have hf : InUse s m f := ⟨hm, hst⟩
      obtain ⟨hload, V, hM, hmod⟩ := h.inUse hf
      obtain ⟨F, hF, hset⟩ := hM.settled hf
      obtain ⟨A, hA, hbytes⟩ := hmod.file hF
      obtain ⟨hs', hmv, hclean⟩ := flushAll_settled hset
      have hk := flushAll_keeps ⟨s.disk, s.glob, f⟩
      have hexec := lflClose_exec hf
      have hcalm := exec_calm (c := .close m) hexec nofun
      have hdev : ({ (flushAll ⟨s.disk, s.glob, f⟩).file with lfstate := .free } :
          Lflcblk).lfdev = f.lfdev := hk.handle.dev
      have hup := h.update hf hM hmod hF hA hk hs' hmv (fun hu => LfState.noConfusion hu)
        (fun _ => hclean) hdev hcalm
      -- the bytes of the file stay as they are
      have hsame : a.files.set f.lfdirptr { A with bytes := F.bytes } = a.files := by
        rw [← hbytes]
        exact set_same hA
      rw [hsame] at hup
      rw [handleOf_used hst]
      exact ⟨_, hexec, hup⟩

/-! ## Opening -/

/-- The search of the table, for a name that no device in use answers to. -/
theorem searchTab_eq {name : CString} {tab : List Lflcblk} (i : Nat) (acc : Option Nat)
    (hname : ∀ f ∈ tab, f.lfstate = .used → sameName name.chars f.lfname = false) :
    searchTab name tab i acc =
      some (acc.or ((tab.findIdx? fun f => (handleOf f).isNone).map (· + i))) := by
  induction tab generalizing i acc with
  | nil => cases acc <;> rfl
  | cons f tab ih =>
    rw [List.forall_mem_cons] at hname
    unfold searchTab
    rw [List.findIdx?_cons]
    cases hst : f.lfstate with
    | free =>
      rw [if_pos rfl, ih _ _ hname.2, handleOf_free hst]
      cases acc <;> simp
    | used =>
      rw [if_neg LfState.noConfusion, if_neg (by rw [hname.1 hst]; exact Bool.false_ne_true),
        ih _ _ hname.2, handleOf_used hst, if_neg (by simp)]
      congr 2
      rw [Option.map_map]
      congr 1
      funext k
      show k + (i + 1) = k + 1 + i
      omega

/-- Both searches of the directory give the same file. -/
theorem Models.find (hmod : Models s V a) (name : CString) :
    a.find name.chars = searchDir name s.glob.lfDir := by
  have hmap : a.find name.chars = (a.files.map ByteFile.name).findIdx? (· == name.chars) := by
    unfold Files.find
    rw [List.findIdx?_map]
    rfl
  rw [hmap, hmod.names, List.findIdx?_map, searchDir_eq]
  congr 1
  funext l
  show (nameOf l == name.chars) = sameName name.chars l
  rw [Bool.eq_iff_iff, beq_iff_eq, sameName_iff name.nonzero]

/-- A device in use is open on its file. -/
theorem Represents.isOpen (h : Represents g s a) {m : Nat} {f : Lflcblk} (hf : InUse s m f)
    {l : List UInt8} (hl : (dirNames s.glob.lfDir)[f.lfdirptr]? = some l) :
    a.IsOpen (nameOf l) := by
  obtain ⟨-, V, -, hmod⟩ := h.inUse hf
  have hget := congrArg (fun l => l[f.lfdirptr]?) hmod.names
  simp only [List.getElem?_map, hl, Option.map_some] at hget
  obtain ⟨A, hA, hn⟩ := Option.map_eq_some_iff.mp hget
  refine ⟨⟨f.lfdirptr, f.lfpos⟩, A, ?_, hA, hn⟩
  rw [hmod.handles, ← handleOf_used hf.2]
  exact List.mem_map_of_mem (List.mem_of_getElem? hf.1)

/-- The state after a device has been opened. -/
theorem Represents.openFile {name : CString} {mbits m i : Nat} {f : Lflcblk}
    (hs : Handles (openFile s m i name mbits).2) (ho : OpenOnce (openFile s m i name mbits).2)
    (hp : s.glob.lfDirpresent = true) (hM : Mounted g s V) (hmod : Models s V a)
    (hf : s.lfltab[m]? = some f) (hfree : f.lfstate = .free) (hi : i < V.maps.length)
    (hnew : ∀ j c, InUse s j c → c.lfdirptr ≠ i) :
    (openFile s m i name mbits).1 = (a.openOn m i).1 ∧
      Represents g (openFile s m i name mbits).2 (a.openOn m i).2 := by
  have hM' := @Mounted.openFile g s V i name mbits m f hM hf hfree hi hnew
  rw [openFile_tab hf] at hs ho hM' ⊢
  have hdev : a.devs[m]? = some f.lfdev := by
    rw [hmod.devs, List.getElem?_map, hf]
    rfl
  have hdevs : (s.lfltab.map Lflcblk.lfdev)[m]? = some f.lfdev := hmod.devs ▸ hdev
  refine ⟨?_, hs, ho, _, V, if_pos hp, hM', hmod.names, hmod.bytes, ?_, ?_⟩
  · unfold Files.openOn
    dsimp only
    rw [List.getD_eq_getElem?_getD, hdev]
    rfl
  · show a.handles.set m (some ⟨i, 0⟩) = (s.lfltab.set m (openBlock f i name mbits)).map handleOf
    rw [List.map_set, hmod.handles]
    rfl
  · show a.devs = (s.lfltab.set m (openBlock f i name mbits)).map Lflcblk.lfdev
    rw [List.map_set, show (openBlock f i name mbits).lfdev = f.lfdev from rfl, set_same hdevs]
    exact hmod.devs

/-- A file system whose directory is in memory now. -/
theorem Represents.load (h : Represents g s a) (hload : loadDir s = some s₁) :
    Represents g s₁ a := by
  obtain ⟨s₂, V, hs₂, hM, hmod⟩ := h.mounted
  obtain rfl := Option.some.inj (hload.symm.trans hs₂)
  exact ⟨h.handles.load hload, h.once.load hload, s₁, V, if_pos (loadDir_cases hload).2.1, hM, hmod⟩

/-- The names in the directory with a new entry. -/
theorem Models.newEntry (hM : Mounted g s V) (hmod : Models s V a) (name : CString)
    (hroom : V.maps.length < LF_NUM_DIR_ENT) :
    Models (newEntry name s) ⟨V.maps ++ [FileMap.empty], V.ifree, V.dfree⟩
      { a with files := a.files ++ [⟨name.chars, []⟩] } := by
  have hlen : s.glob.lfDir.lfdFiles.length = LF_NUM_DIR_ENT := hM.dirOk.2.2.2.1.1
  have hn := hM.nfiles
  obtain ⟨l, hl, hdir⟩ := @dirNames_newEntry name s (by omega)
  refine ⟨?_, ?_, hmod.handles, hmod.devs⟩
  · rw [hdir, List.map_append, List.map_append, hmod.names]
    rw [List.map_singleton, List.map_singleton, (sameName_iff name.nonzero).mp hl]
  · show (a.files ++ [(⟨name.chars, []⟩ : ByteFile)]).map ByteFile.bytes =
      (V.maps ++ [FileMap.empty]).map FileMap.bytes
    rw [List.map_append, List.map_append, hmod.bytes]
    rfl

/-- What `lfsOpen` does once it has found a device and read the directory. -/
theorem openNamed_step {name : CString} {mbits m : Nat} {f : Lflcblk}
    (h : Represents g s a) (hp : s.glob.lfDirpresent = true)
    (hunused : ∀ i, searchDir name s.glob.lfDir = some i → mbits &&& LF_MODE_N = 0 →
      ∀ j c, InUse s j c → c.lfdirptr ≠ i)
    (hname : name.chars.length < LF_NAME_LEN) (hf : s.lfltab[m]? = some f)
    (hfree : f.lfstate = .free) (hs : Handles (openNamed name mbits m s).2)
    (ho : OpenOnce (openNamed name mbits m s).2) :
    (openNamed name mbits m s).1 = (a.openNamed name mbits m).1 ∧
      Represents g (openNamed name mbits m s).2 (a.openNamed name mbits m).2 := by
  obtain ⟨s₁, V, hload, hM, hmod⟩ := h.mounted
  obtain rfl := Option.some.inj ((if_pos hp : loadDir s = some s).symm.trans hload)
  have hcount : a.files.length = V.maps.length := by
    have := congrArg List.length hmod.bytes
    rwa [List.length_map, List.length_map] at this
  have hn := hM.nfiles
  unfold Files.openNamed
  rw [hmod.find]
  unfold openNamed at hs ho ⊢
  cases hdir : searchDir name s.glob.lfDir with
  | none =>
    -- case #1: the file is not in the directory
    rw [hdir] at hs ho
    dsimp only at hs ho ⊢
    rw [hcount]
    rw [hn] at hs ho ⊢
    split
    · exact ⟨rfl, h⟩
    rename_i hold
    rw [if_neg hold] at hs ho
    split
    · exact ⟨rfl, h⟩
    rename_i hroom
    rw [if_neg hroom] at hs ho
    refine Represents.openFile hs ho hp (hM.newEntry (by omega) hname)
      (hmod.newEntry hM name (by omega)) hf hfree ?_ fun j c hc heq => ?_
    · show V.maps.length < (V.maps ++ [FileMap.empty]).length
      rw [List.length_append, List.length_singleton]
      omega
    · -- entries in use are old ones
      obtain ⟨F, hF, -⟩ := hM.opened j c hc
      have := (List.getElem?_eq_some_iff.mp hF).1
      omega
  | some i =>
    -- case #2: the file is in the directory
    rw [hdir] at hs ho
    dsimp only at hs ho ⊢
    split
    · exact ⟨rfl, h⟩
    rename_i hnew
    rw [if_neg hnew] at hs ho
    obtain ⟨l, hl, -⟩ := searchDir_name hdir
    have hi : i < V.maps.length := by
      have hlt := (List.getElem?_eq_some_iff.mp hl).1
      unfold dirNames at hlt
      rw [List.length_map, List.length_take] at hlt
      omega
    exact Represents.openFile hs ho hp hM hmod hf hfree hi (hunused i hdir (not_not.mp hnew))

/-- **Opening a file**, unless the call slips. -/
theorem lfsOpen_step {name mode : CString} (hslip : ¬ Slips s name mode)
    (h : Represents g s a) :
    (lfsOpen name mode s).1 = (a.open name mode).1 ∧
      Represents g (lfsOpen name mode s).2 (a.open name mode).2 := by
  have hs := @Handles.lfsOpen s name mode h.handles
  have ho := h.once.lfsOpen h.handles hslip
  unfold Files.open lfsOpen at *
  by_cases hlen : LF_NAME_LEN ≤ name.chars.length
  · rw [if_pos hlen, if_pos hlen]
    exact ⟨rfl, h⟩
  rw [if_neg hlen] at hs ho ⊢
  rw [if_neg hlen]
  by_cases hmode : lfgetmode mode = SYSERR
  · rw [if_pos hmode, if_pos hmode]
    exact ⟨rfl, h⟩
  rw [if_neg hmode] at hs ho ⊢
  rw [if_neg hmode]
  by_cases hempty : name.chars = [] ∧ a.handles.any Option.isSome
  · -- the name of every device in use is empty
    obtain ⟨hnil, hany⟩ := hempty
    rw [if_pos ⟨hnil, hany⟩]
    rw [h.tab.1, List.any_map, List.any_eq_true] at hany
    obtain ⟨f, hf, hsome⟩ := hany
    have hused : f.lfstate = .used := by
      cases hst : f.lfstate with
      | used => rfl
      | free =>
        rw [Function.comp_apply, handleOf_free hst] at hsome
        cases hsome
    obtain ⟨t, ht⟩ := h.handles.blank f hf
    rw [searchTab_open 0 none hf hused (by rw [ht, sameName_blank _ _ name.nonzero]; exact hnil)]
    exact ⟨rfl, h⟩
  rw [if_neg hempty]
  have hname : ∀ f ∈ s.lfltab, f.lfstate = .used → sameName name.chars f.lfname = false := by
    intro f hf hused
    obtain ⟨t, ht⟩ := h.handles.blank f hf
    rw [ht, Bool.eq_false_iff, ne_eq, sameName_blank _ _ name.nonzero]
    refine fun hnil => hempty ⟨hnil, ?_⟩
    rw [h.tab.1, List.any_map, List.any_eq_true]
    exact ⟨f, hf, by rw [Function.comp_apply, handleOf_used hused]; rfl⟩
  have hfind : a.handles.findIdx? Option.isNone =
      s.lfltab.findIdx? fun f => (handleOf f).isNone := by
    rw [h.tab.1, List.findIdx?_map]
    rfl
  have htab : searchTab name s.lfltab 0 none =
      some (s.lfltab.findIdx? fun f => (handleOf f).isNone) := by
    rw [searchTab_eq 0 none hname]
    simp
  rw [htab] at hs ho ⊢
  rw [hfind]
  cases hm : s.lfltab.findIdx? fun f => (handleOf f).isNone with
  | none => exact ⟨rfl, h⟩
  | some m =>
    rw [hm] at hs ho
    dsimp only at hs ho ⊢
    obtain ⟨f, hf, hfree⟩ : ∃ f, s.lfltab[m]? = some f ∧ f.lfstate = .free := by
      obtain ⟨hlt, hnone, -⟩ := List.findIdx?_eq_some_iff_getElem.mp hm
      refine ⟨_, List.getElem?_eq_getElem hlt, ?_⟩
      cases hst : s.lfltab[m].lfstate with
      | free => rfl
      | used =>
        rw [handleOf_used hst] at hnone
        cases hnone
    obtain ⟨s₁, V, hload, -, -⟩ := h.mounted
    rw [hload] at hs ho ⊢
    dsimp only at hs ho ⊢
    obtain ⟨htab', hp, -⟩ := loadDir_cases hload
    refine openNamed_step (h.load hload) hp (fun i hdir hnew j c hc heq => hslip ?_) (by omega)
      (htab' ▸ hf) hfree hs ho
    -- the entry found would be in use already
    obtain ⟨l, hl, hsame⟩ := searchDir_name hdir
    exact Slips.of_opened h.handles (by omega) hmode hnew (by rw [htab, hm])
      ((IsOpen.load h.handles hload).mp ⟨j, c, hc, l, heq ▸ hl, hsame⟩)

/-- A call that opens no open file does not slip. -/
theorem Represents.noSlip (h : Represents g s a) {c : Call} (hd : a.Distinct c) :
    NoSlip s c := by
  cases c with
  | «open» name mode =>
    intro hslip
    obtain ⟨m, f, hf, l, hl, hsame⟩ := hslip.opened
    have hopen := h.isOpen hf hl
    rw [(sameName_iff name.nonzero).mp hsame] at hopen
    exact hd hopen
  | _ => trivial

/-! ## Any call -/

/-- A call that is refused on every device. -/
theorem onFile_refused (m : Nat) {call : View → Except Fault (Reply × View)}
    (hcall : ∀ v, call v = .ok ((SYSERR, []), v)) :
    onFile m call s = .ok ((SYSERR, []), s) := by
  cases hm : s.lfltab[m]? with
  | some f => exact onFile_same hm (hcall _)
  | none =>
    unfold onFile
    rw [hm]

theorem write_refused (buff : List UInt8) {count : Int} (h : count < 0) (v : View) :
    plain (lflWrite buff count) v = .ok ((SYSERR, []), v) := by
  unfold plain lflWrite
  rw [if_pos h]
  rfl

theorem read_refused {count : Int} (h : count < 0) (v : View) :
    lflRead count v = .ok ((SYSERR, []), v) := if_pos h

theorem control_refused {func : Int} (h : func ≠ LF_CTL_TRUNC) (unused : List UInt8) (v : View) :
    plain (lflControl func unused) v = .ok ((SYSERR, []), v) := by
  unfold plain lflControl
  rw [if_neg h, ite_self]
  rfl

/-- **One call**: the same reply, unless the files do not fit on the disk. -/
theorem exec_step (c : Call) (hd : NoSlip s c) (h : Represents g s a) :
    (∃ msg, exec c s = .error (.panic msg) ∧ ¬ (Files.step c a).2.Fits g.nib g.ndb) ∨
    ∃ s', exec c s = .ok ((Files.step c a).1, s') ∧ Represents g s' (Files.step c a).2 := by
  cases c with
  | «open» name mode =>
    obtain ⟨hr, hs⟩ := @lfsOpen_step g s a name mode hd h
    refine Or.inr ⟨_, ?_, hs⟩
    show Except.ok (((lfsOpen name mode s).1, []), _) = .ok (((a.open name mode).1, []), _)
    rw [hr]
  | putc m ch => exact onFile_step (putc_implements ch) h
  | write m buff count =>
    have hstep : Files.step (.write m buff count) a = if count < 0 then ((SYSERR, []), a)
        else a.onHandle m (.write (buff.take count.toNat) count)
          (if buff.take count.toNat = [] then count else SYSERR, []) := rfl
    rw [hstep]
    by_cases hcount : count < 0
    · rw [if_pos hcount]
      exact Or.inr ⟨s, onFile_refused m (write_refused buff hcount), h⟩
    · rw [if_neg hcount]
      exact onFile_step (write_implements buff hcount) h
  | getc m => exact onFile_step getc_implements h
  | read m count =>
    have hstep : Files.step (.read m count) a = if count < 0 then ((SYSERR, []), a)
        else a.onHandle m (.read count.toNat) (if count = 0 then 0 else SYSERR, []) := rfl
    rw [hstep]
    by_cases hcount : count < 0
    · rw [if_pos hcount]
      exact Or.inr ⟨s, onFile_refused m (read_refused hcount), h⟩
    · rw [if_neg hcount]
      exact onFile_step (read_implements hcount) h
  | seek m offset => exact onFile_step (seek_implements offset) h
  | control m func unused =>
    have hstep : Files.step (.control m func unused) a = if func = LF_CTL_TRUNC then
        a.onHandle m .trunc (SYSERR, []) else ((SYSERR, []), a) := rfl
    rw [hstep]
    by_cases hfunc : func = LF_CTL_TRUNC
    · rw [if_pos hfunc, hfunc]
      exact onFile_step (trunc_implements unused) h
    · rw [if_neg hfunc]
      exact Or.inr ⟨s, onFile_refused m (control_refused hfunc unused.1), h⟩
  | flush m => exact onFile_step flush_implements h
  | close m => exact Or.inr (lflClose_step m h)

/-- **Any sequence of calls** that opens no open file again and that the disk
has room for. -/
theorem run_refines (cs : List Call) (hw : Files.Within g.nib g.ndb cs a)
    (h : Represents g s a) :
    ∃ s', run cs s = .ok ((Files.run cs a).1, s') ∧ Represents g s' (Files.run cs a).2 := by
  induction cs generalizing s a with
  | nil => exact ⟨s, rfl, h⟩
  | cons c cs ih =>
    obtain ⟨hd, hfits, hrest⟩ := hw
    rcases exec_step c (h.noSlip hd) h with ⟨msg, -, hno⟩ | ⟨s₁, hs₁, h₁⟩
    · exact absurd hfits hno
    · obtain ⟨s₂, hs₂, h₂⟩ := ih hrest h₁
      refine ⟨s₂, ?_, h₂⟩
      unfold run Files.run
      rw [hs₁]
      show (run cs s₁ >>= _) = _
      rw [hs₂]
      rfl

end Xinu.Lfs
