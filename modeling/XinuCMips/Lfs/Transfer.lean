import XinuCMips.Lfs.Abstract
import XinuCMips.Lfs.Position

/-!
# Reading and writing bytes

Between two calls an open file is `Settled`: there are no more blocks than its
bytes need, and the byte pointer either lies outside the data block in memory
or at the place of the position in it. Every call on a settled file ends with
the file settled again (`Ends`), or stops because the blocks that are left do
not make room for its new bytes.

* `lflPutc_ends`, `lflGetc_ends`, `lflSeek_ends` — a byte, and the position;
* `lflWrite_ends`, `lflRead_ends` — the loops over them.
-/

namespace Xinu.Lfs

open Bytes Follow

variable {g : Geometry} {v w : View} {F F' : FileMap} {I I' N N' : List Nat}

/-! ## Between calls -/

/-- The byte pointer lies at the place of the position in the data block in
memory. -/
structure AtByte (f : Lflcblk) (F : FileMap) : Prop where
  byte : f.lfbyte = f.lfpos % 512
  inum : ∃ b, f.lfinum = some b ∧ F.chain[f.lfpos / 8192]? = some b
  dnum : ∃ n, f.lfdnum = some n ∧ F.dbs[f.lfpos / 512]? = some n

/-- **An open file between calls.** -/
structure Settled (g : Geometry) (v : View) (F : FileMap) (I N : List Nat) : Prop
    extends Holds g v F I N where
  tight : F.Tight
  pos : v.file.lfpos ≤ F.bytes.length
  byte : v.file.lfbyte = LF_BLKSIZ ∨ AtByte v.file F
  saved : SavedOrDirty v

/-- Blocks go from the free lists to the file and back, and no others are
written. -/
structure Moved (g : Geometry) (v w : View) (F F' : FileMap) (I I' N N' : List Nat) : Prop where
  elsewhere : Elsewhere g (F.chain ++ I) (F.dbs ++ N) v.disk w.disk
  iperm : (F'.chain ++ I').Perm (F.chain ++ I)
  nperm : (F'.dbs ++ N').Perm (F.dbs ++ N)

theorem Moved.refl : Moved g v v F F I I N N :=
  ⟨Elsewhere.refl, List.Perm.refl _, List.Perm.refl _⟩

theorem Moved.trans {u : View} {F'' : FileMap} {I'' N'' : List Nat}
    (h : Moved g v w F F' I I' N N') (h' : Moved g w u F' F'' I' I'' N' N'') :
    Moved g v u F F'' I I'' N N'' where
  elsewhere := h.elsewhere.trans (h'.elsewhere.mono h.iperm.subset h.nperm.subset)
  iperm := h'.iperm.trans h.iperm
  nperm := h'.nperm.trans h.nperm

/-- Those blocks that are free make room for `len` bytes in the file. -/
structure Room (F : FileMap) (I N : List Nat) (len : Nat) : Prop where
  iblocks : len ≤ 8192 * (F.chain.length + I.length)
  dblocks : len ≤ 512 * (F.dbs.length + N.length)

theorem Room.mono {len len' : Nat} (h : Room F I N len) (hle : len' ≤ len) : Room F I N len' :=
  ⟨hle.trans h.iblocks, hle.trans h.dblocks⟩

/-- There is as much room when blocks have moved. -/
theorem Room.moved {len : Nat} (h : Room F I N len) (hm : Moved g v w F F' I I' N N') :
    Room F' I' N' len := by
  have hi := hm.iperm.length_eq
  have hn := hm.nperm.length_eq
  rw [List.length_append, List.length_append] at hi hn
  exact ⟨hi ▸ h.iblocks, hn ▸ h.dblocks⟩

/-- Blocks have run out where there is no room for the byte at the position. -/
theorem Exhausted.no_room (h : Exhausted v F I N) : ¬ Room F I N (v.file.lfpos + 1) := by
  intro hr
  have hi := hr.iblocks
  have hn := hr.dblocks
  rcases h with ⟨rfl, hp⟩ | ⟨rfl, hp⟩
  · rw [List.length_nil] at hi
    omega
  · rw [List.length_nil] at hn
    omega

/-! ## The block of the position -/

/-- **The data block of the position is in memory.** The file has no more
blocks than it needs with the byte at the position in it. -/
structure Fetched (g : Geometry) (v w : View) (F F' : FileMap) (I I' N N' : List Nat) : Prop where
  holds : Holds g w F' I' N'
  bytes : F'.bytes = F.bytes
  pos : w.file.lfpos = v.file.lfpos
  here : AtByte w.file F'
  saved : SavedOrDirty w
  moved : Moved g v w F F' I I' N N'
  spare : 512 * F'.dbs.length < max F.bytes.length (v.file.lfpos + 1) + 512
  ispare : 16 * F'.chain.length < F'.dbs.length + 16
  still : v.file.lfpos < F.bytes.length → v.file.lfibdirty = false →
    v.file.lfdbdirty = false → Still v w ∧ w.file.lfdbdirty = false

theorem ensureBlock_spec (h : Settled g v F I N) :
    (∃ msg, ensureBlock v = .error (.panic msg) ∧ Exhausted v F I N) ∨
    ∃ w F' I' N', ensureBlock v = .ok w ∧ Fetched g v w F F' I I' N N' := by
  have hs := h.tight.spare
  have hi := h.tight.ispare
  unfold ensureBlock
  rcases h.byte with hout | hat
  · rw [if_pos (Nat.le_of_eq hout.symm)]
    rcases lfsetup_spec h.toHolds h.pos h.saved with herr | ⟨w, F', I', N', hw, hr, hb⟩
    · exact Or.inl herr
    have hcovers := h.shape.covers
    refine Or.inr ⟨w, F', I', N', hw, hr.holds, hr.bytes, hr.pos, ?_, hr.saved, ?_, ?_, ?_,
      fun hlt hib hdb => ⟨hr.still (by omega) hib hdb, hr.clean⟩⟩
    · refine ⟨?_, ?_, ?_⟩ <;> rw [hr.pos]
      · exact hb
      · exact hr.inum
      · exact hr.dnum
    · exact ⟨hr.elsewhere.mono (List.subset_append_left _ _) (List.subset_append_left _ _),
        hr.iperm, hr.nperm⟩
    · rcases hr.grown with ⟨rfl, -, -⟩ | ⟨hp, hlen, -⟩ <;> omega
    · rcases hr.grown with ⟨rfl, -, -⟩ | ⟨-, -, ht⟩
      · exact hi
      · exact ht h.tight
  · -- the byte pointer lies in the block already
    rw [if_neg (by rw [hat.byte]; unfold LF_BLKSIZ; omega)]
    exact Or.inr ⟨v, F, I, N, rfl, h.toHolds, rfl, rfl, hat, h.saved, Moved.refl, by omega, hi,
      fun _ _ hdb => ⟨Still.refl, hdb⟩⟩

/-- A position before the end of the file has its blocks. -/
theorem Settled.not_exhausted (h : Settled g v F I N) (hlt : v.file.lfpos < F.bytes.length) :
    ¬ Exhausted v F I N := by
  have := h.shape.covers
  have := h.shape.indexed
  rintro (⟨-, hp⟩ | ⟨-, hp⟩) <;> omega

/-! ## One byte -/

/-- A call on the file gives back `r` and leaves the file with `bytes` and
position `pos`; or there is no room for so many bytes. -/
def Ends {α : Type} (g : Geometry) (v : View) (F : FileMap) (I N : List Nat)
    (res : Except Fault (α × View)) (r : α) (bytes : List UInt8) (pos : Nat) : Prop :=
  (∃ msg, res = .error (.panic msg) ∧ ¬ Room F I N bytes.length) ∨
  ∃ w F' I' N', res = .ok (r, w) ∧ Settled g w F' I' N' ∧ Moved g v w F F' I I' N N' ∧
    F'.bytes = bytes ∧ w.file.lfpos = pos

/-- A call that changes nothing on disk. -/
theorem Ends.ok {α : Type} {r : α} (h : Settled g w F I N) (hd : w.disk = v.disk) :
    Ends g v F I N (.ok (r, w)) r F.bytes w.file.lfpos :=
  Or.inr ⟨w, F, I, N, rfl, h, ⟨hd ▸ Elsewhere.refl, List.Perm.refl _, List.Perm.refl _⟩, rfl, rfl⟩

/-- A call that goes on with another one. -/
theorem Ends.bind {α β : Type} {res : Except Fault (α × View)}
    {f : α × View → Except Fault (β × View)} {r : α} {r' : β} {bytes bytes' : List UInt8}
    {pos pos' : Nat}
    (h : Ends g v F I N res r bytes pos) (hle : bytes.length ≤ bytes'.length)
    (hf : ∀ w F' I' N', Settled g w F' I' N' → F'.bytes = bytes → w.file.lfpos = pos →
      Ends g w F' I' N' (f (r, w)) r' bytes' pos') :
    Ends g v F I N (res >>= f) r' bytes' pos' := by
  rcases h with ⟨msg, hm, hno⟩ | ⟨w, F', I', N', hw, hs, hmoved, hb, hp⟩
  · refine Or.inl ⟨msg, ?_, fun hr => hno (hr.mono hle)⟩
    rw [hm]
    rfl
  · rw [hw]
    rcases hf w F' I' N' hs hb hp with
      ⟨msg, hm, hno⟩ | ⟨u, F'', I'', N'', hu, hs', hmoved', hb', hp'⟩
    · exact Or.inl ⟨msg, hm, fun hr => hno (hr.moved hmoved)⟩
    · exact Or.inr ⟨u, F'', I'', N'', hu, hs', hmoved.trans hmoved', hb', hp'⟩

/-- The position goes one byte ahead. -/
theorem stepByte_pos (hlt : v.file.lfpos < 2 ^ 32 - 1) :
    (stepByte v.file).lfpos = v.file.lfpos + 1 :=
  Nat.mod_eq_of_lt (by omega)

/-- The byte after one of the block lies in it too, or behind its end. -/
theorem AtByte.step (h : AtByte v.file F) {u : View}
    (hpos : u.file.lfpos = v.file.lfpos + 1) (hbyte : u.file.lfbyte = v.file.lfbyte + 1)
    (hinum : u.file.lfinum = v.file.lfinum) (hdnum : u.file.lfdnum = v.file.lfdnum)
    (hchain : F'.chain = F.chain) (hdbs : F'.dbs = F.dbs) :
    u.file.lfbyte = LF_BLKSIZ ∨ AtByte u.file F' := by
  have hb := h.byte
  unfold LF_BLKSIZ
  by_cases hend : v.file.lfpos % 512 = 511
  · exact Or.inl (by omega)
  · refine Or.inr ⟨by omega, ?_, ?_⟩
    · rw [hinum, hchain, show u.file.lfpos / 8192 = v.file.lfpos / 8192 by omega]
      exact h.inum
    · rw [hdnum, hdbs, show u.file.lfpos / 512 = v.file.lfpos / 512 by omega]
      exact h.dnum

/-- **The next byte is read**, before the end of the file. -/
theorem lflGetc_ends {b : UInt8} (h : Settled g v F I N) (hb : F.bytes[v.file.lfpos]? = some b) :
    Ends g v F I N (lflGetc v) (b.toNat : Int) F.bytes (v.file.lfpos + 1) := by
  have hlt := (List.getElem?_eq_some_iff.mp hb).1
  have hsize := h.size_lt
  unfold lflGetc
  rw [if_neg (not_not.mpr h.used), if_neg (by rw [h.size]; omega)]
  rcases ensureBlock_spec h with ⟨msg, -, hno⟩ | ⟨w, F', I', N', hw, hf⟩
  · exact absurd hno (h.not_exhausted hlt)
  obtain ⟨n, hn, hdn⟩ := hf.here.dnum
  obtain ⟨m, hm, hag⟩ := hf.holds.mem.dblock n hn
  obtain rfl := nodup_index hf.holds.dbs_nodup hdn hm
  have hp := hf.pos
  have hspare := hf.spare
  -- the byte in the buffer is the byte of the file
  have hbyte : w.file.lfdblock.getD w.file.lfbyte 0 = b := by
    have hat := hag.2 (w.file.lfpos % 512) (by omega) (by rw [hf.bytes]; omega)
    rw [hf.bytes, show w.file.lfpos / 512 * 512 + w.file.lfpos % 512 = v.file.lfpos by omega, hb]
      at hat
    rw [hf.here.byte, List.getD_eq_getElem?_getD, hat]
    rfl
  have hstep : (stepByte w.file).lfpos = w.file.lfpos + 1 := stepByte_pos (by omega)
  refine Or.inr ⟨{ w with file := stepByte w.file }, F', I', N', ?_, ?_, ?_, hf.bytes, ?_⟩
  · rw [hw, ← hbyte]
    rfl
  · refine ⟨{ hf.holds with mem := { hf.holds.mem with } }, ⟨?_, hf.ispare⟩, ?_,
      hf.here.step hstep rfl rfl rfl rfl rfl, fun hd => (hf.saved hd).congr rfl rfl⟩
    · rw [hf.bytes]
      omega
    · show (stepByte w.file).lfpos ≤ _
      rw [hstep, hf.bytes]
      omega
  · exact ⟨hf.moved.elsewhere, hf.moved.iperm, hf.moved.nperm⟩
  · show (stepByte w.file).lfpos = _
    rw [hstep, hp]

/-- A file with the byte at `pos` replaced, or one more byte. -/
def FileMap.put (F : FileMap) (pos : Nat) (ch : UInt8) : FileMap :=
  { F with bytes := splice pos [ch] F.bytes }

section Put

variable {pos m : Nat} {ch : UInt8} {buf : List UInt8}

theorem length_put (hpos : pos ≤ F.bytes.length) :
    (F.put pos ch).bytes.length = max F.bytes.length (pos + 1) :=
  length_splice_of_le hpos

theorem getElem?_put (hpos : pos ≤ F.bytes.length) (k : Nat) :
    (F.put pos ch).bytes[k]? = if k = pos then some ch else F.bytes[k]? := by
  unfold FileMap.put
  dsimp only
  rw [getElem?_splice_of_le hpos, List.length_singleton]
  by_cases hk : k = pos
  · rw [if_pos (by omega), if_pos hk, hk, Nat.sub_self]
    rfl
  · rw [if_neg (by omega), if_neg hk]

/-- The byte goes into the buffer of its block. -/
theorem FileMap.Agrees.put (h : F.Agrees (pos / 512) buf) (hpos : pos ≤ F.bytes.length) :
    (F.put pos ch).Agrees (pos / 512) (buf.set (pos % 512) ch) := by
  refine ⟨List.length_set.trans h.1, fun k hk hlt => ?_⟩
  have hlen : buf.length = 512 := h.1
  rw [length_put hpos] at hlt
  rw [List.getElem?_set, getElem?_put hpos]
  by_cases heq : pos % 512 = k
  · rw [if_pos heq, if_pos (by omega), if_pos (by omega)]
  · rw [if_neg heq, if_neg (by omega)]
    exact h.2 k hk (by omega)

/-- The other blocks do not change. -/
theorem FileMap.Agrees.put_of_ne (h : F.Agrees m buf) (hpos : pos ≤ F.bytes.length)
    (hm : m ≠ pos / 512) : (F.put pos ch).Agrees m buf := by
  refine ⟨h.1, fun k hk hlt => ?_⟩
  rw [length_put hpos] at hlt
  rw [getElem?_put hpos, if_neg (by omega)]
  exact h.2 k hk (by omega)

end Put

/-- The size of the file with the byte at the position in it. -/
theorem growFile_ldptr (h : Holds g v F I N) (hlt : v.file.lfpos < 2 ^ 32 - 1)
    (hpos : v.file.lfpos ≤ F.bytes.length) :
    (growFile v).ldptr =
      { v.ldptr with ldSize := max F.bytes.length (v.file.lfpos + 1) } := by
  unfold growFile
  rw [h.size]
  split
  · rw [ldptr_setEntry (by
      show _ < v.glob.lfDir.lfdFiles.length
      rw [h.files_length]
      exact h.slot)]
    have hmax : max F.bytes.length (v.file.lfpos + 1) = (F.bytes.length + 1) % 2 ^ 32 := by omega
    rw [hmax]
  · have hmax : max F.bytes.length (v.file.lfpos + 1) = v.ldptr.ldSize := by
      rw [h.size]
      omega
    rw [hmax]

theorem growFile_glob (v : View) :
    (growFile v).file = v.file ∧ (growFile v).disk = v.disk ∧
      (growFile v).glob.lfDir.lfdIfree = v.glob.lfDir.lfdIfree ∧
      (growFile v).glob.lfDir.lfdDfree = v.glob.lfDir.lfdDfree := by
  unfold growFile
  split <;> exact ⟨rfl, rfl, rfl, rfl⟩

theorem growFile_ok (h : Holds g v F I N) : Lfdir.layout.Ok (growFile v).glob.lfDir := by
  unfold growFile
  split
  · refine setEntry_ok h.dirOk ⟨Nat.mod_lt _ (by omega), h.entry_ok.2⟩
  · exact h.dirOk

/-- The directory is marked as changed when the size in it is. -/
theorem growFile_saved (h : SavedOrDirty v) : SavedOrDirty (growFile v) := by
  unfold growFile
  split
  · exact fun hd => Bool.noConfusion hd
  · exact h

/-- **A byte is put into the block of its position**, at the end of the file
or before it. -/
theorem putByte_settled (ch : UInt8) (h : Fetched g v w F F' I I' N N')
    (hpos : v.file.lfpos ≤ F.bytes.length) :
    Settled g (putByte ch (growFile w)) (F'.put v.file.lfpos ch) I' N' ∧
      (putByte ch (growFile w)).file.lfpos = v.file.lfpos + 1 := by
  have hh := h.holds
  have hp := h.pos
  have hspare := h.spare
  have hispare := h.ispare
  have hlen : (F'.put v.file.lfpos ch).bytes.length = max F.bytes.length (v.file.lfpos + 1) := by
    rw [length_put (by rw [h.bytes]; exact hpos), h.bytes]
  have hpos' : w.file.lfpos ≤ F'.bytes.length := by
    rw [h.bytes]
    omega
  obtain ⟨n, hn, hdn⟩ := h.here.dnum
  have hblock := (List.getElem?_eq_some_iff.mp hdn).1
  have hbound : w.file.lfpos < 2 ^ 32 - 1 := by
    have := hh.dbs_length
    have := g.small
    omega
  obtain ⟨hfile, hdisk, hifree, hdfree⟩ := growFile_glob w
  have hstep : (stepByte w.file).lfpos = w.file.lfpos + 1 := stepByte_pos hbound
  have hx : (putByte ch (growFile w)).file = { stepByte w.file with
      lfdblock := w.file.lfdblock.set w.file.lfbyte ch, lfdbdirty := true } := by
    unfold putByte
    rw [hfile]
  have hposx : (putByte ch (growFile w)).file.lfpos = w.file.lfpos + 1 := by
    rw [hx]
    exact hstep
  -- the entry of the file has its new size
  have hentry : (putByte ch (growFile w)).ldptr =
      { w.ldptr with ldSize := max F.bytes.length (v.file.lfpos + 1) } := by
    have hgrow := growFile_ldptr hh hbound hpos'
    rw [h.bytes, hp] at hgrow
    rw [← hgrow]
    unfold View.ldptr
    rw [hx, hfile]
    rfl
  have hdirty : dirtyDb (putByte ch (growFile w)).file = some n := by
    unfold dirtyDb
    rw [hx]
    exact hn
  have hcovers := hh.shape.covers
  refine ⟨⟨?_, ⟨?_, hispare⟩, ?_, ?_, ?_⟩, hposx.trans (by rw [hp])⟩
  · refine
      { used := ?_, sized := ?_, dirOk := growFile_ok hh, slot := ?_, size := ?_, first := ?_,
        shape := ⟨?_, ?_, hh.shape.indexed, hh.shape.ispare⟩, inodup := hh.inodup,
        irange := hh.irange, nnodup := hh.nnodup, nrange := hh.nrange, free := ?_, disk := ?_,
        mem := ?_ }
    · rw [hx]
      exact hh.used
    · show (growFile w).disk.Sized
      rw [hdisk]
      exact hh.sized
    · rw [hx]
      exact hh.slot
    · rw [hentry, hlen]
    · rw [hentry]
      exact hh.first
    · rw [hlen]
      show _ ≤ 512 * F'.dbs.length
      rw [h.bytes] at hcovers
      omega
    · rw [hlen]
      show 512 * F'.dbs.length ≤ _
      omega
    · constructor
      · show Follows (nextI (growFile w).disk) (growFile w).glob.lfDir.lfdIfree I'
        rw [hdisk, hifree]
        exact hh.free.iblocks
      · show Follows (nextD (growFile w).disk) (growFile w).glob.lfDir.lfdDfree N'
        rw [hdisk, hdfree]
        exact hh.free.dblocks
    · refine ⟨fun j b hj hne => ?_, fun m k hm hne => ?_⟩
      · show lfibget (growFile w).disk b = F'.iblock j
        rw [hdisk]
        refine hh.disk.iblocks j b hj fun heq => hne ?_
        rw [heq, hx]
        rfl
      · -- only the block of the position is in memory with the new byte
        rw [hdirty] at hne
        have hmne : m ≠ w.file.lfpos / 512 := by
          rintro rfl
          exact hne (hm.symm.trans hdn)
        have hold : F'.Agrees m (w.disk k) := by
          refine hh.disk.dblocks m k hm fun heq => ?_
          unfold dirtyDb at heq
          split at heq
          · exact hne (heq.trans hn)
          · exact Option.some_ne_none k heq
        show FileMap.Agrees _ m ((growFile w).disk k)
        rw [hdisk, ← hp]
        exact hold.put_of_ne hpos' hmne
    · refine ⟨fun b hb => ?_, fun k hk => ?_, fun hb => ?_, fun _ => ?_⟩
      · rw [hx] at hb ⊢
        exact hh.mem.iblock b hb
      · rw [hx] at hk
        obtain rfl := Option.some.inj (hn.symm.trans hk)
        obtain ⟨m, hm, hag⟩ := hh.mem.dblock n hn
        obtain rfl := nodup_index hh.dbs_nodup hdn hm
        refine ⟨w.file.lfpos / 512, hdn, ?_⟩
        rw [hx, ← hp]
        show FileMap.Agrees _ _ (w.file.lfdblock.set w.file.lfbyte ch)
        rw [h.here.byte]
        exact hag.put hpos'
      · rw [hx] at hb ⊢
        exact hh.mem.ibdirty hb
      · rw [hx]
        show w.file.lfdnum ≠ none
        rw [hn]
        exact Option.some_ne_none n
  · rw [hlen]
    exact hspare
  · rw [hposx, hlen]
    omega
  · exact h.here.step hposx (by rw [hx]; rfl) (by rw [hx]; rfl) (by rw [hx]; rfl) rfl rfl
  · exact fun hd => (growFile_saved h.saved hd).congr rfl rfl

/-- **One byte is written.** -/
theorem lflPutc_ends {ch : UInt8} (h : Settled g v F I N) :
    Ends g v F I N (lflPutc ch v) OK (splice v.file.lfpos [ch] F.bytes) (v.file.lfpos + 1) := by
  have hlen : (splice v.file.lfpos [ch] F.bytes).length = max F.bytes.length (v.file.lfpos + 1) :=
    length_splice_of_le h.pos
  unfold lflPutc
  rw [if_neg (not_not.mpr h.used), if_neg (by rw [h.size]; exact Nat.not_lt.mpr h.pos)]
  rcases ensureBlock_spec h with ⟨msg, hm, hno⟩ | ⟨w, F', I', N', hw, hf⟩
  · refine Or.inl ⟨msg, ?_, fun hr => hno.no_room (hr.mono (by omega))⟩
    rw [hm]
    rfl
  · obtain ⟨hs, hp⟩ := putByte_settled ch hf h.pos
    refine Or.inr ⟨_, _, I', N', ?_, hs, ⟨?_, hf.moved.iperm, hf.moved.nperm⟩, ?_, hp⟩
    · rw [hw]
      rfl
    · show Elsewhere g _ _ v.disk (growFile w).disk
      rw [(growFile_glob w).2.1]
      exact hf.moved.elsewhere
    · show splice v.file.lfpos [ch] F'.bytes = _
      rw [hf.bytes]

/-! ## Loops -/

/-- **All bytes of a buffer are written**, one after the other. -/
theorem lflWriteLoop_ends (buff : List UInt8) (h : Settled g v F I N) :
    Ends g v F I N (lflWriteLoop buff v) true (splice v.file.lfpos buff F.bytes)
      (v.file.lfpos + buff.length) := by
  induction buff generalizing v F I N with
  | nil =>
    have hsame : splice v.file.lfpos [] F.bytes = F.bytes := by
      unfold splice
      rw [List.append_nil, List.length_nil, Nat.add_zero, List.take_append_drop]
    rw [hsame]
    exact Ends.ok h rfl
  | cons ch buff ih =>
    have hpos := h.pos
    have hlen : (splice v.file.lfpos [ch] F.bytes).length =
        max F.bytes.length (v.file.lfpos + 1) := length_splice_of_le hpos
    have hall : splice (v.file.lfpos + 1) buff (splice v.file.lfpos [ch] F.bytes) =
        splice v.file.lfpos (ch :: buff) F.bytes := @splice_append _ _ [ch] buff _ hpos
    unfold lflWriteLoop
    refine (lflPutc_ends h).bind ?_ fun w F' I' N' hs hb hp => ?_
    · rw [hlen, length_splice_of_le hpos, List.length_cons]
      omega
    · have hrest := ih hs
      rw [hb, hp, hall] at hrest
      rw [List.length_cons, Nat.add_comm buff.length 1, ← Nat.add_assoc]
      exact hrest

/-- The first of the bytes from `pos` on. -/
theorem slice_succ {bytes : List UInt8} {pos n : Nat} {b : UInt8} (hb : bytes[pos]? = some b) :
    slice pos (n + 1) bytes = b :: slice (pos + 1) n bytes := by
  obtain ⟨hlt, rfl⟩ := List.getElem?_eq_some_iff.mp hb
  unfold slice
  rw [List.drop_eq_getElem_cons hlt, List.take_succ_cons]

/-- **The loop of `lflRead`** stops at the end of the file. -/
theorem lflReadLoop_ends (n : Nat) (buff : List UInt8) (h : Settled g v F I N) :
    Ends g v F I N (lflReadLoop n buff v)
      (readReply (buff.length + n) (buff ++ slice v.file.lfpos n F.bytes)) F.bytes
      (v.file.lfpos + (slice v.file.lfpos n F.bytes).length) := by
  induction n generalizing v F I N buff with
  | zero =>
    have hdata : slice v.file.lfpos 0 F.bytes = [] := List.take_zero
    have hreply : readReply (buff.length + 0) (buff ++ []) = ((buff.length : Int), buff) := by
      unfold readReply
      rw [List.append_nil, if_neg]
      rintro ⟨rfl, hne⟩
      exact hne rfl
    rw [hdata, hreply]
    exact Ends.ok h rfl
  | succ n ih =>
    unfold lflReadLoop
    cases hb : F.bytes[v.file.lfpos]? with
    | none =>
      -- end of file
      have hge := List.getElem?_eq_none_iff.mp hb
      have hdata : slice v.file.lfpos (n + 1) F.bytes = [] := by
        unfold slice
        rw [List.drop_eq_nil_of_le hge, List.take_nil]
      have heof : lflGetc v = .ok (EOF, v) := by
        unfold lflGetc
        rw [if_neg (not_not.mpr h.used), if_pos (by rw [h.size]; exact hge)]
      have hreply : readReply (buff.length + (n + 1)) (buff ++ []) =
          ((if buff.length = 0 then EOF else buff.length, buff) : Reply) := by
        unfold readReply
        rw [List.append_nil]
        by_cases hnil : buff = []
        · rw [if_pos ⟨hnil, by omega⟩, if_pos (by rw [hnil]; rfl)]
        · rw [if_neg fun hc => hnil hc.1, if_neg fun hc => hnil (List.length_eq_zero_iff.mp hc)]
      rw [hdata, hreply, heof]
      exact Ends.ok h rfl
    | some b =>
      refine (lflGetc_ends h hb).bind (Nat.le_refl _) fun w F' I' N' hs hbytes hp => ?_
      have hlt := b.toNat_lt
      dsimp only
      rw [if_neg (by unfold SYSERR; omega), if_neg (by unfold EOF; omega), slice_succ hb]
      have hrest := ih (buff ++ [UInt8.ofNat (b.toNat : Int).toNat]) hs
      have hbyte : UInt8.ofNat (b.toNat : Int).toNat = b := by
        rw [Int.toNat_natCast, UInt8.ofNat_toNat]
      rw [hbytes, hp, hbyte, List.append_assoc, List.length_append, List.length_singleton,
        Nat.add_assoc buff.length 1 n, Nat.add_comm 1 n, Nat.add_assoc v.file.lfpos,
        Nat.add_comm 1] at hrest
      rw [hbyte]
      exact hrest

/-- **Bytes are written**, unless the count is negative. -/
theorem lflWrite_ends (buff : List UInt8) {count : Int} (h : Settled g v F I N)
    (hcount : ¬ count < 0) :
    Ends g v F I N (lflWrite buff count v) count
      (splice v.file.lfpos (buff.take count.toNat) F.bytes)
      (v.file.lfpos + (buff.take count.toNat).length) := by
  unfold lflWrite
  rw [if_neg hcount]
  exact (lflWriteLoop_ends _ h).bind (Nat.le_refl _) fun w F' I' N' hs hb hp => by
    rw [← hb, ← hp]
    exact Ends.ok hs rfl

/-- **Bytes are read**, unless the count is negative. -/
theorem lflRead_ends {count : Int} (h : Settled g v F I N) (hcount : ¬ count < 0) :
    Ends g v F I N (lflRead count v)
      (readReply count.toNat (slice v.file.lfpos count.toNat F.bytes)) F.bytes
      (v.file.lfpos + (slice v.file.lfpos count.toNat F.bytes).length) := by
  have hloop := lflReadLoop_ends count.toNat [] h
  rw [List.length_nil, Nat.zero_add, List.nil_append] at hloop
  unfold lflRead
  rw [if_neg hcount]
  exact hloop

/-! ## The position -/

/-- **A seek** within the file moves the position only. -/
theorem lflSeek_ends {offset : Nat} (h : Settled g v F I N) (hle : offset ≤ F.bytes.length) :
    Ends g v F I N (.ok (lflSeek offset v)) OK F.bytes offset := by
  have hs : Settled g { v with file := { v.file with lfpos := offset, lfbyte := LF_BLKSIZ } }
      F I N :=
    { toHolds := { h.toHolds with mem := { h.mem with } }
      tight := h.tight
      pos := hle
      byte := Or.inl rfl
      saved := fun hd => (h.saved hd).congr rfl rfl }
  unfold lflSeek
  rw [if_neg (not_not.mpr h.used), if_neg (by rw [h.size]; exact Nat.not_lt.mpr hle)]
  exact Ends.ok hs rfl

/-! ## Flushing and closing -/

/-- Nothing of the file, and nothing of the directory, is in memory only. -/
structure Clean (v : View) : Prop where
  ibdirty : v.file.lfibdirty = false
  dbdirty : v.file.lfdbdirty = false
  dirdirty : v.glob.lfDirdirty = false

theorem lfflush_dirdirty (h : v.file.lfstate = .used) :
    (lfflush v).2.glob.lfDirdirty = false := by
  have hdir : (flushDir v).glob.lfDirdirty = false := by
    unfold flushDir
    split
    · rfl
    · rename_i hd
      exact Bool.not_eq_true _ ▸ hd
  have hdb : ∀ u : View, (flushDblock u).glob = u.glob := by
    intro u
    unfold flushDblock
    split <;> rfl
  have hib : ∀ u : View, (flushIblock u).glob = u.glob := by
    intro u
    unfold flushIblock
    split <;> rfl
  unfold lfflush
  rw [if_neg (by rw [h]; exact LfState.noConfusion)]
  dsimp only
  rw [hib, hdb]
  exact hdir

/-- **A flush** leaves file, blocks and position as they are, and everything
on disk. -/
theorem lfflush_settled (h : Settled g v F I N) :
    ∃ w, lfflush v = (OK, w) ∧ Settled g w F I N ∧ Moved g v w F F I I N N ∧
      w.file = { v.file with lfibdirty := false, lfdbdirty := false } ∧ Clean w := by
  obtain ⟨hh, hfile, -, he, hs⟩ := h.toHolds.lfflush
  have hok : (lfflush v).1 = OK := by
    unfold lfflush
    rw [if_neg (by rw [h.used]; exact LfState.noConfusion)]
  have hpos : (lfflush v).2.file.lfpos = v.file.lfpos := by rw [hfile]
  refine ⟨(lfflush v).2, by rw [← hok], ⟨hh, h.tight, by rw [hpos]; exact h.pos, ?_,
    fun _ => hs h.saved⟩, ⟨he.mono (List.subset_append_left _ _) (List.subset_append_left _ _),
    List.Perm.refl _, List.Perm.refl _⟩, hfile, by rw [hfile], by rw [hfile],
    lfflush_dirdirty h.used⟩
  rcases h.byte with hb | hat
  · exact Or.inl (by rw [hfile]; exact hb)
  · exact Or.inr ⟨by rw [hfile]; exact hat.byte, by rw [hfile]; exact hat.inum,
      by rw [hfile]; exact hat.dnum⟩

/-- What a close writes before the device is freed. -/
theorem flushAll_settled (h : Settled g v F I N) :
    Settled g (flushAll v) F I N ∧ Moved g v (flushAll v) F F I I N N ∧ Clean (flushAll v) := by
  unfold flushAll
  split
  · obtain ⟨w, hw, hs, hm, -, hc⟩ := lfflush_settled h
    rw [hw]
    exact ⟨hs, hm, hc⟩
  · rename_i hclean
    simp only [Bool.or_eq_true, not_or, Bool.not_eq_true] at hclean
    exact ⟨h, Moved.refl, hclean.2, hclean.1.2, hclean.1.1⟩

end Xinu.Lfs
