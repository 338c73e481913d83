import XinuCMips.Lfs.Ownership

/-!
# Access modes

`lfsOpen` parses the mode string and stores the bits for reading and writing
in the control block of the device. `Enforced` says what the calls on the
device owe to it: on a file opened without `w` nothing that would change the
file goes through, on a file opened without `r` nothing that would give out its
bytes.

No call looks at `lfmode` again. A call keeps the promise exactly if it does
not offend against the mode, or is refused for its count (`modes_enforced_iff`).
Everything else that can be called on a device opened for reading leaves all
files, all index blocks and the directory as they are: its buffers never get
dirty, and a position that is inside the file has its blocks.
-/

namespace Xinu.Lfs

variable {g : Geometry} {s s' s₀ : FileSystem} {a : Files} {v w : View} {F : FileMap}
  {I N : List Nat} {m : Nat} {c : Call} {r : Reply} {name mode : CString}

attribute [local simp] lfflush flushDir flushDblock flushIblock lflSeek lflClose flushAll lflGetc lflRead lflReadLoop

/-! ## What the modes promise -/

/-- The calls that change a file. -/
def Call.Changes : Call → Prop
  | .putc _ _ | .write _ _ _ => True
  | .control _ func _ => func = LF_CTL_TRUNC
  | _ => False

/-- The calls that ask for bytes of a file. -/
def Call.Asks : Call → Prop
  | .getc _ | .read _ _ => True
  | _ => False

/-- A count that is refused on every device. -/
def Call.Negative : Call → Prop
  | .write _ _ count | .read _ count => count < 0
  | _ => False

/-- The reply hands out bytes of the file. -/
def Call.Gives : Call → Reply → Prop
  | .getc _, r => 0 ≤ r.1
  | .read _ _, r => r.2 ≠ []
  | _, _ => False

/-- The file may be read. -/
def Readable (mode : CString) : Prop := (lfgetmode mode).toNat &&& LF_MODE_R ≠ 0

/-- The file may be written. -/
def Writable (mode : CString) : Prop := (lfgetmode mode).toNat &&& LF_MODE_W ≠ 0

/-- The mode does not allow the call. -/
def Offends (mode : CString) (c : Call) : Prop :=
  c.Changes ∧ ¬ Writable mode ∨ c.Asks ∧ ¬ Readable mode

/-- The directory in memory and all sectors are the same; the sector of the
directory may have been brought up to date. -/
structure SameFiles (d : Disk) (dir : Lfdir) (d' : Disk) (dir' : Lfdir) : Prop where
  memory : dir' = dir
  disk : ∀ n, n ≠ LF_AREA_DIR → d' n = d n
  sector : d' LF_AREA_DIR = d LF_AREA_DIR ∨ d' LF_AREA_DIR = Lfdir.layout.enc dir

/-- Nothing has changed for any file, nor on any device but `m`. -/
structure Unchanged (m : Nat) (s s' : FileSystem) : Prop where
  files : SameFiles s.disk s.glob.lfDir s'.disk s'.glob.lfDir
  others : ∀ k, k ≠ m → s'.lfltab[k]? = s.lfltab[k]?

/-- **The mode is kept** by a call on device `m`, which was opened with it. -/
structure Enforced (mode : CString) (m : Nat) (s : FileSystem) (c : Call) (r : Reply)
    (s' : FileSystem) : Prop where
  refused : (∃ f, InUse s m f) → Offends mode c → r = (SYSERR, []) ∧ s' = s
  readOnly : ¬ Writable mode → Unchanged m s s'
  writeOnly : ¬ Readable mode → ¬ c.Gives r

/-- The condition on a call: no offence while the device is open. -/
def Obeys (mode : CString) (m : Nat) (s : FileSystem) (c : Call) : Prop :=
  (∃ f, InUse s m f) → Offends mode c → c.Negative

/-- An open has taken device `m`. -/
def Takes (s : FileSystem) (name mode : CString) (m : Nat) : Prop :=
  (∀ f, ¬ InUse s m f) ∧ ∃ f, InUse (lfsOpen name mode s).2 m f

/-! ## Calls that write nothing -/

/-- The buffers hold nothing that has to be written. -/
structure Unwritten (f : Lflcblk) : Prop where
  ibdirty : f.lfibdirty = false
  dbdirty : f.lfdbdirty = false

theorem SameFiles.refl (d : Disk) (dir : Lfdir) : SameFiles d dir d dir :=
  ⟨rfl, fun _ _ => rfl, Or.inl rfl⟩

theorem Unchanged.refl : Unchanged m s s := ⟨.refl _ _, fun _ _ => rfl⟩

/-- What such a call leaves of its view. -/
structure Quiet (v w : View) : Prop where
  files : SameFiles v.disk v.glob.lfDir w.disk w.glob.lfDir
  file : w.file.lfstate = .used → Unwritten w.file

theorem Still.quiet (h : Still v w) (hv : v.file.lfibdirty = false)
    (hw : w.file.lfdbdirty = false) : Quiet v w := by
  refine ⟨?_, fun _ => ⟨h.ibdirty.trans hv, hw⟩⟩
  rw [h.disk, h.glob]
  exact .refl _ _

/-- **One byte is read** from the blocks that the file has. -/
theorem lflGetc_still {k : Int} (h : Settled g v F I N) (hv : Unwritten v.file)
    (hok : lflGetc v = .ok (k, w)) : Still v w ∧ w.file.lfdbdirty = false := by
  unfold lflGetc at hok
  rw [if_neg (not_not.mpr h.used)] at hok
  by_cases hend : v.ldptr.ldSize ≤ v.file.lfpos
  · rw [if_pos hend] at hok
    obtain ⟨-, rfl⟩ := Prod.mk.inj (Except.ok.inj hok)
    exact ⟨.refl, hv.dbdirty⟩
  · rw [if_neg hend] at hok
    obtain ⟨u, hu, hok⟩ := bind_eq_ok hok
    obtain ⟨-, rfl⟩ := Prod.mk.inj (Except.ok.inj hok)
    have hsize := h.size
    rcases ensureBlock_spec h with ⟨msg, hm, -⟩ | ⟨u', F', I', N', hu', hf⟩
    · cases hu.symm.trans hm
    · obtain rfl := Except.ok.inj (hu.symm.trans hu')
      obtain ⟨hstill, hdb⟩ := hf.still (by omega) hv.ibdirty hv.dbdirty
      exact ⟨⟨hstill.glob, hstill.disk, hstill.ibdirty⟩, hdb⟩

/-- **Several bytes are read.** -/
theorem lflReadLoop_still (n : Nat) (buff : List UInt8) (h : Settled g v F I N)
    (hv : Unwritten v.file) (hok : lflReadLoop n buff v = .ok (r, w)) :
    Still v w ∧ w.file.lfdbdirty = false := by
  induction n generalizing v F I N buff with
  | zero =>
    obtain ⟨-, rfl⟩ := Prod.mk.inj (Except.ok.inj hok)
    exact ⟨.refl, hv.dbdirty⟩
  | succ n ih =>
    obtain ⟨⟨k, u⟩, hu, hok⟩ := bind_eq_ok hok
    obtain ⟨hstill, hdb⟩ := lflGetc_still h hv hu
    dsimp only at hok
    by_cases herr : k = SYSERR
    · rw [if_pos herr] at hok
      obtain ⟨-, rfl⟩ := Prod.mk.inj (Except.ok.inj hok)
      exact ⟨hstill, hdb⟩
    rw [if_neg herr] at hok
    by_cases heof : k = EOF
    · rw [if_pos heof] at hok
      obtain ⟨-, rfl⟩ := Prod.mk.inj (Except.ok.inj hok)
      exact ⟨hstill, hdb⟩
    rw [if_neg heof] at hok
    -- a byte of the file has been read, and the next one is read from there
    obtain ⟨F', I', N', hset⟩ : ∃ F' I' N', Settled g u F' I' N' := by
      cases hb : F.bytes[v.file.lfpos]? with
      | none =>
        have hend := List.getElem?_eq_none_iff.mp hb
        have hnone : lflGetc v = .ok (EOF, v) := by
          unfold lflGetc
          rw [if_neg (not_not.mpr h.used), if_pos (by rw [h.size]; exact hend)]
        obtain ⟨rfl, -⟩ := Prod.mk.inj (Except.ok.inj (hu.symm.trans hnone))
        exact absurd rfl heof
      | some b =>
        rcases lflGetc_ends h hb with ⟨msg, hm, -⟩ | ⟨u', F', I', N', hu', hset, -⟩
        · cases hu.symm.trans hm
        · obtain ⟨-, rfl⟩ := Prod.mk.inj (Except.ok.inj (hu.symm.trans hu'))
          exact ⟨F', I', N', hset⟩
    obtain ⟨hrest, hdb'⟩ := ih _ hset ⟨hstill.ibdirty.trans hv.ibdirty, hdb⟩ hok
    exact ⟨hstill.trans hrest, hdb'⟩

/-- With clean buffers a flush writes the directory only. -/
theorem lfflush_quiet (hv : Unwritten v.file) : Quiet v (lfflush v).2 := by
  unfold lfflush
  split
  · exact ⟨.refl _ _, fun _ => hv⟩
  · -- neither block is written
    have hfile : (flushDir v).file = v.file := by
      unfold flushDir
      split <;> rfl
    have hdb : flushDblock (flushDir v) = flushDir v := by
      unfold flushDblock
      rw [hfile, hv.dbdirty]
      rfl
    have hib : flushIblock (flushDir v) = flushDir v := by
      unfold flushIblock
      rw [hfile, hv.ibdirty]
      rfl
    dsimp only
    rw [hdb, hib]
    refine ⟨?_, fun _ => hfile ▸ hv⟩
    unfold flushDir
    split
    · exact ⟨rfl, fun n hn => write_of_ne hn, Or.inr (write_self v.disk LF_AREA_DIR _)⟩
    · exact .refl _ _

theorem lflSeek_quiet (offset : Nat) (hv : Unwritten v.file) : Quiet v (lflSeek offset v).2 := by
  unfold lflSeek
  split
  · exact ⟨.refl _ _, fun _ => hv⟩
  split
  · exact ⟨.refl _ _, fun _ => hv⟩
  · exact ⟨.refl _ _, fun _ => ⟨hv.ibdirty, hv.dbdirty⟩⟩

theorem lflClose_quiet (hv : Unwritten v.file) : Quiet v (lflClose v).2 := by
  unfold lflClose
  split
  · exact ⟨.refl _ _, fun _ => hv⟩
  · refine ⟨?_, nofun⟩
    unfold flushAll
    split
    · exact (lfflush_quiet hv).files
    · exact .refl _ _

/-- A call that writes nothing for an open file with clean buffers, and does
nothing on a device that is free. -/
structure Harmless (call : View → Except Fault (Reply × View)) : Prop where
  quiet : ∀ {g v F I N r w}, Settled g v F I N → Unwritten v.file → call v = .ok (r, w) →
    Quiet v w
  free : ∀ {v r w}, v.file.lfstate = .free → call v = .ok (r, w) → w = v

/-- A call with one result for each view. -/
theorem Harmless.of_eq {f : View → Reply × View}
    (hquiet : ∀ v, Unwritten v.file → Quiet v (f v).2)
    (hfree : ∀ v, v.file.lfstate = .free → (f v).2 = v) : Harmless fun v => .ok (f v) where
  quiet _ hv hok := by
    have hq := hquiet _ hv
    rw [Except.ok.inj hok] at hq
    exact hq
  free hst hok := by
    rw [← hfree _ hst, Except.ok.inj hok]

theorem plain_ok (f : View → Int × View) :
    (plain fun v => .ok (f v)) = fun v => .ok (((f v).1, []), (f v).2) :=
  rfl

theorem getc_harmless : Harmless (plain lflGetc) where
  quiet h hv hok := by
    obtain ⟨⟨k, u⟩, hu, hok⟩ := bind_eq_ok hok
    obtain ⟨-, rfl⟩ := Prod.mk.inj (Except.ok.inj hok)
    obtain ⟨hstill, hdb⟩ := lflGetc_still h hv hu
    exact hstill.quiet hv.ibdirty hdb
  free hst hok := by
    have heq := getc_implements.refuses hst
    exact (Prod.mk.inj (Except.ok.inj (hok.symm.trans heq))).2

theorem read_harmless (count : Int) : Harmless (lflRead count) where
  quiet h hv hok := by
    unfold lflRead at hok
    split at hok
    · obtain ⟨-, rfl⟩ := Prod.mk.inj (Except.ok.inj hok)
      exact ⟨.refl _ _, fun _ => hv⟩
    · obtain ⟨hstill, hdb⟩ := lflReadLoop_still _ _ h hv hok
      exact hstill.quiet hv.ibdirty hdb
  free {v r w} hst hok := by
    by_cases hcount : count < 0
    · unfold lflRead at hok
      rw [if_pos hcount] at hok
      exact (Prod.mk.inj (Except.ok.inj hok)).2.symm
    · have heq := (read_implements hcount).refuses hst
      exact (Prod.mk.inj (Except.ok.inj (hok.symm.trans heq))).2

theorem seek_harmless (offset : Nat) : Harmless (plain fun v => .ok (lflSeek offset v)) := by
  rw [plain_ok]
  refine .of_eq (fun v hv => lflSeek_quiet offset hv) fun v hst => ?_
  show (lflSeek offset v).2 = v
  unfold lflSeek
  rw [if_pos (not_used hst)]

theorem flush_harmless : Harmless (plain fun v => .ok (lfflush v)) := by
  rw [plain_ok]
  refine .of_eq (fun v hv => lfflush_quiet hv) fun v hst => ?_
  show (lfflush v).2 = v
  unfold lfflush
  rw [if_pos hst]

theorem close_harmless : Harmless (plain fun v => .ok (lflClose v)) := by
  rw [plain_ok]
  refine .of_eq (fun v hv => lflClose_quiet hv) fun v hst => ?_
  show (lflClose v).2 = v
  unfold lflClose
  rw [if_pos (not_used hst)]

/-- A call that is refused on every device. -/
theorem refused_harmless {call : View → Except Fault (Reply × View)}
    (hcall : ∀ v, call v = .ok ((SYSERR, []), v)) : Harmless call where
  quiet _ hv hok := by
    obtain ⟨-, rfl⟩ := Prod.mk.inj (Except.ok.inj (hok.symm.trans (hcall _)))
    exact ⟨.refl _ _, fun _ => hv⟩
  free _ hok := (Prod.mk.inj (Except.ok.inj (hok.symm.trans (hcall _)))).2

/-- **The calls that change nothing**: those that are not meant to, and those
that are refused for their count. -/
theorem exec_harmless (hm : c.minor = some m) (hc : c.Changes → c.Negative) :
    ∃ call, (∀ s, exec c s = onFile m call s) ∧ Harmless call := by
  cases c with
  | «open» => cases hm
  | putc => exact absurd (hc trivial) id
  | write k buff count =>
    obtain rfl := Option.some.inj hm
    exact ⟨_, fun _ => rfl, refused_harmless (write_refused buff (hc trivial))⟩
  | getc =>
    obtain rfl := Option.some.inj hm
    exact ⟨_, fun _ => rfl, getc_harmless⟩
  | read k count =>
    obtain rfl := Option.some.inj hm
    exact ⟨_, fun _ => rfl, read_harmless count⟩
  | seek k offset =>
    obtain rfl := Option.some.inj hm
    exact ⟨_, fun _ => rfl, seek_harmless offset⟩
  | control k func unused =>
    obtain rfl := Option.some.inj hm
    exact ⟨_, fun _ => rfl, refused_harmless (control_refused (fun h => hc h) unused.1)⟩
  | flush =>
    obtain rfl := Option.some.inj hm
    exact ⟨_, fun _ => rfl, flush_harmless⟩
  | close =>
    obtain rfl := Option.some.inj hm
    exact ⟨_, fun _ => rfl, close_harmless⟩

/-- Such a call on a device with clean buffers. -/
theorem onFile_harmless {call : View → Except Fault (Reply × View)} (hc : Harmless call)
    (h : Represents g s a) (hv : ∀ f, InUse s m f → Unwritten f)
    (hok : onFile m call s = .ok (r, s')) :
    Unchanged m s s' ∧ ∀ f, InUse s' m f → Unwritten f := by
  rcases onFile_cases hok with ⟨-, rfl⟩ | ⟨f, w, hf, hw, rfl⟩
  · exact ⟨.refl, hv⟩
  have hlt := (List.getElem?_eq_some_iff.mp hf).1
  cases hst : f.lfstate with
  | free =>
    obtain rfl := hc.free hst hw
    have hsame : { s with lfltab := s.lfltab.set m f } = s := by rw [set_same hf]
    show Unchanged m s { s with lfltab := s.lfltab.set m f } ∧ ∀ f',
      InUse { s with lfltab := s.lfltab.set m f } m f' → Unwritten f'
    rw [hsame]
    exact ⟨.refl, hv⟩
  | used =>
    obtain ⟨-, V, hM, -⟩ := h.inUse ⟨hf, hst⟩
    obtain ⟨F, -, hset⟩ := hM.settled ⟨hf, hst⟩
    have hq := hc.quiet hset (hv f ⟨hf, hst⟩) hw
    refine ⟨⟨hq.files, fun k hk => List.getElem?_set_ne (Ne.symm hk)⟩, ?_⟩
    rintro f' ⟨hf', hused⟩
    have heq : w.file = f' := by
      rw [show ({ s with disk := w.disk, glob := w.glob, lfltab := s.lfltab.set m w.file } :
        FileSystem).lfltab = s.lfltab.set m w.file from rfl, List.getElem?_set_self hlt] at hf'
      exact Option.some.inj hf'
    subst heq
    exact hq.file hused

/-! ## Calls that offend -/

/-- The reply to a call is that of the byte lists. -/
theorem reply_eq (h : Represents g s a) (hm : c.minor = some m) (hok : exec c s = .ok (r, s')) :
    r = (Files.step c a).1 ∧ Represents g s' (Files.step c a).2 := by
  have hslip : NoSlip s c := by
    cases c with
    | «open» => cases hm
    | _ => trivial
  rcases exec_step c hslip h with ⟨msg, hp, -⟩ | ⟨t, ht, hrep⟩
  · cases hok.symm.trans hp
  · obtain ⟨rfl, rfl⟩ := Prod.mk.inj (Except.ok.inj (hok.symm.trans ht))
    exact ⟨rfl, hrep⟩

/-- The reply on a device in use is that of the operation. -/
theorem reply_inUse (h : Represents g s a) {f : Lflcblk} (hf : InUse s m f) :
    ∃ (bytes : List UInt8) (pos : Nat), ∀ (op : Op) (refused : Reply),
      (a.onHandle m op refused).1 = (op bytes pos).1 := by
  obtain ⟨-, V, hM, hmod⟩ := h.inUse hf
  obtain ⟨F, hF, -⟩ := hM.settled hf
  obtain ⟨A, hA, -⟩ := hmod.file hF
  have hhandle : a.handles[m]? = some (some ⟨f.lfdirptr, f.lfpos⟩) := by
    rw [h.tab.1, List.getElem?_map, hf.1, Option.map_some, handleOf_used hf.2]
  refine ⟨A.bytes, f.lfpos, fun op refused => ?_⟩
  unfold Files.onHandle
  rw [hhandle]
  dsimp only
  rw [hA]

/-- **An offence goes through**: its reply is not an error, unless it is
refused for its count. -/
theorem reply_of_offends (h : Represents g s a) (hm : c.minor = some m)
    {f : Lflcblk} (hf : InUse s m f) (hc : c.Changes ∨ c.Asks) (hn : ¬ c.Negative)
    (hok : exec c s = .ok (r, s')) : r.1 ≠ SYSERR := by
  obtain ⟨bytes, pos, hreply⟩ := reply_inUse h hf
  rw [(reply_eq h hm hok).1]
  cases c with
  | «open» => cases hm
  | putc k ch =>
    obtain rfl := Option.some.inj hm
    show (a.onHandle k _ _).1.1 ≠ SYSERR
    rw [hreply]
    show OK ≠ SYSERR
    decide
  | write k buff count =>
    obtain rfl := Option.some.inj hm
    show (if count < 0 then ((SYSERR, []), a) else a.onHandle k _ _).1.1 ≠ SYSERR
    rw [if_neg (show ¬ count < 0 from hn), hreply]
    intro heq
    have hcount : count = -1 := heq
    exact hn (show count < 0 by omega)
  | getc k =>
    obtain rfl := Option.some.inj hm
    show (a.onHandle k _ _).1.1 ≠ SYSERR
    rw [hreply]
    unfold Op.getc
    split
    · show EOF ≠ SYSERR
      decide
    · rename_i b _
      show (b.toNat : Int) ≠ -1
      omega
  | read k count =>
    obtain rfl := Option.some.inj hm
    show (if count < 0 then ((SYSERR, []), a) else a.onHandle k _ _).1.1 ≠ SYSERR
    rw [if_neg (show ¬ count < 0 from hn), hreply]
    unfold Op.read readReply
    dsimp only
    split
    · show EOF ≠ SYSERR
      decide
    · show ((Bytes.slice pos count.toNat bytes).length : Int) ≠ -1
      omega
  | control k func unused =>
    obtain rfl := Option.some.inj hm
    have hfunc : func = LF_CTL_TRUNC := hc.resolve_right id
    show (if func = LF_CTL_TRUNC then a.onHandle k .trunc (SYSERR, []) else ((SYSERR, []), a)).1.1
      ≠ SYSERR
    rw [if_pos hfunc, hreply]
    show OK ≠ SYSERR
    decide
  | _ => exact absurd hc (not_or.mpr ⟨id, id⟩)

/-! ## A device that is not open -/

theorem handle_none (h : Represents g s a) (hidle : ∀ f, ¬ InUse s m f) (op : Op)
    (refused : Reply) : (a.onHandle m op refused) = ((SYSERR, []), a) ∨
      (a.onHandle m op refused) = (refused, a) := by
  have hget : a.handles[m]? = s.lfltab[m]?.map handleOf := by
    rw [h.tab.1, List.getElem?_map]
  unfold Files.onHandle
  cases hf : s.lfltab[m]? with
  | none =>
    rw [hget, hf]
    exact Or.inl rfl
  | some f =>
    have hfree : f.lfstate = .free := by
      cases hst : f.lfstate with
      | free => rfl
      | used => exact absurd ⟨hf, hst⟩ (hidle f)
    rw [hget, hf, Option.map_some, handleOf_free hfree]
    exact Or.inr rfl

/-- A call on a file that does nothing on a device that is free. -/
theorem exec_free (hm : c.minor = some m) :
    ∃ call, (∀ s, exec c s = onFile m call s) ∧
      ∀ v r w, v.file.lfstate = .free → call v = .ok (r, w) → w = v := by
  have himp : ∀ {call op refused}, Implements call op refused →
      ∀ v r w, v.file.lfstate = .free → call v = .ok (r, w) → w = v := by
    intro call op refused hc v r w hst hok
    exact (Prod.mk.inj (Except.ok.inj (hok.symm.trans (hc.refuses hst)))).2
  by_cases hc : c.Changes → c.Negative
  · obtain ⟨call, hexec, hh⟩ := exec_harmless hm hc
    exact ⟨call, hexec, fun v r w hst hok => hh.free hst hok⟩
  obtain ⟨hchanges, hn⟩ := not_forall.mp hc
  cases c with
  | putc k ch =>
    obtain rfl := Option.some.inj hm
    exact ⟨_, fun _ => rfl, himp (putc_implements ch)⟩
  | write k buff count =>
    obtain rfl := Option.some.inj hm
    exact ⟨_, fun _ => rfl, himp (write_implements buff hn)⟩
  | control k func unused =>
    obtain rfl := Option.some.inj hm
    obtain rfl : func = LF_CTL_TRUNC := hchanges
    exact ⟨_, fun _ => rfl, himp (trunc_implements unused)⟩
  | _ => exact absurd hchanges id

/-- **On a device that is not open** nothing is done, and no bytes are given
out. -/
theorem exec_idle (h : Represents g s a) (hm : c.minor = some m)
    (hidle : ∀ f, ¬ InUse s m f) (hok : exec c s = .ok (r, s')) : s' = s ∧ ¬ c.Gives r := by
  refine ⟨?_, ?_⟩
  · obtain ⟨call, hexec, hfree⟩ := exec_free hm
    rw [hexec] at hok
    rcases onFile_cases hok with ⟨-, rfl⟩ | ⟨f, w, hf, hw, rfl⟩
    · rfl
    have hst : f.lfstate = .free := by
      cases hst : f.lfstate with
      | free => rfl
      | used => exact absurd ⟨hf, hst⟩ (hidle f)
    obtain rfl := hfree _ _ _ hst hw
    show { s with lfltab := s.lfltab.set m f } = s
    rw [set_same hf]
  · have hr := (reply_eq h hm hok).1
    cases c with
    | getc k =>
      obtain rfl := Option.some.inj hm
      have hrep : r = (SYSERR, []) := by
        rw [hr]
        rcases handle_none h hidle .getc (SYSERR, []) with heq | heq
        · exact congrArg Prod.fst heq
        · exact congrArg Prod.fst heq
      rw [hrep]
      exact fun hg => absurd (show (0 : Int) ≤ -1 from hg) (by decide)
    | read k count =>
      obtain rfl := Option.some.inj hm
      have hrep : r.2 = [] := by
        rw [hr]
        show (if count < 0 then ((SYSERR, []), a) else a.onHandle k _ _).1.2 = []
        split
        · rfl
        · rcases handle_none h hidle (.read count.toNat) (if count = 0 then 0 else SYSERR, [])
            with heq | heq
          · rw [heq]
          · rw [heq]
      exact fun hg => hg hrep
    | _ => exact id

/-! ## Runs on the device -/

/-- **What holds on the device between calls**: the file system is sound, and
on a file opened without `w` the buffers stay clean. -/
structure Guarded (g : Geometry) (mode : CString) (m : Nat) (s : FileSystem) : Prop where
  sound : ∃ a, Represents g s a
  clean : ¬ Writable mode → ∀ f, InUse s m f → Unwritten f

/-- The open. -/
theorem Takes.guarded (ht : Takes s name mode m) (h : Represents g s a)
    (hslip : ¬ Slips s name mode) : Guarded g mode m (lfsOpen name mode s).2 := by
  refine ⟨⟨_, (lfsOpen_step hslip h).2⟩, fun _ f hf => ?_⟩
  rcases lfsOpen_cases name mode s with ⟨-, heq | hload⟩ | ⟨k, i, s₁, -, -, hk, hopen, heq⟩
  · rw [heq] at hf
    exact absurd hf (ht.1 f)
  · refine absurd ?_ (ht.1 f)
    unfold InUse at hf ⊢
    rwa [(loadDir_cases hload).1] at hf
  · have htab : s₁.lfltab = s.lfltab := by
      cases hopen with
      | old hload => exact (loadDir_cases hload).1
      | new hload => exact (loadDir_cases hload).1
    obtain ⟨lf, hlf, -⟩ := searchTab_device hk
    rw [heq, openFile_tab (htab ▸ hlf)] at hf
    by_cases hkm : k = m
    · subst hkm
      have hlt := (List.getElem?_eq_some_iff.mp hlf).1
      obtain ⟨hf, -⟩ := hf
      dsimp only at hf
      rw [htab, List.getElem?_set_self hlt] at hf
      obtain rfl := Option.some.inj hf
      exact ⟨rfl, rfl⟩
    · refine absurd ?_ (ht.1 f)
      unfold InUse at hf ⊢
      dsimp only at hf
      rwa [htab, List.getElem?_set_ne hkm] at hf

/-- One call on the device. -/
theorem Guarded.step (h : Guarded g mode m s) (hm : c.minor = some m) (hobeys : Obeys mode m s c)
    (hok : exec c s = .ok (r, s')) :
    Guarded g mode m s' ∧ (¬ Writable mode → Unchanged m s s') := by
  obtain ⟨a, ha⟩ := h.sound
  have hsound := (reply_eq ha hm hok).2
  by_cases hopen : ∃ f, InUse s m f
  · by_cases hw : Writable mode
    · exact ⟨⟨⟨_, hsound⟩, fun hno => absurd hw hno⟩, fun hno => absurd hw hno⟩
    have hc : c.Changes → c.Negative := fun hc => hobeys hopen (Or.inl ⟨hc, hw⟩)
    obtain ⟨call, hexec, hh⟩ := exec_harmless hm hc
    rw [hexec] at hok
    obtain ⟨hun, hclean⟩ := onFile_harmless hh ha (h.clean hw) hok
    exact ⟨⟨⟨_, hsound⟩, fun _ => hclean⟩, fun _ => hun⟩
  · obtain ⟨rfl, -⟩ := exec_idle ha hm (not_exists.mp hopen) hok
    exact ⟨h, fun _ => .refl⟩

/-- All calls on the device. -/
theorem Guarded.run {ok : FileSystem → Call → Prop}
    (hok : ∀ s c, ok s c → c.minor = some m ∧ Obeys mode m s c)
    (h : Guarded g mode m s₀) (hr : Reaches ok s₀ s) : Guarded g mode m s := by
  induction hr with
  | start => exact h
  | call _ hc hex ih => exact (ih.step (hok _ _ hc).1 (hok _ _ hc).2 hex).1

/-- **A call keeps the promise of the mode exactly if it obeys.** -/
theorem Guarded.enforced_iff (h : Guarded g mode m s) (hm : c.minor = some m)
    (hok : exec c s = .ok (r, s')) : Enforced mode m s c r s' ↔ Obeys mode m s c := by
  obtain ⟨a, ha⟩ := h.sound
  constructor
  · intro henf hopen hoff
    by_contra hn
    obtain ⟨f, hf⟩ := hopen
    have hr := (henf.refused ⟨f, hf⟩ hoff).1
    refine reply_of_offends ha hm hf ?_ hn hok ?_
    · exact hoff.imp And.left And.left
    · rw [hr]
  · intro hobeys
    have hneg : ∀ hopen : ∃ f, InUse s m f, Offends mode c → r = (SYSERR, []) ∧ s' = s := by
      intro hopen hoff
      have hn := hobeys hopen hoff
      have heq : exec c s = .ok ((SYSERR, []), s) := by
        cases c with
        | write k buff count => exact onFile_refused k (write_refused buff hn)
        | read k count => exact onFile_refused k (read_refused hn)
        | _ => exact absurd hn id
      obtain ⟨rfl, rfl⟩ := Prod.mk.inj (Except.ok.inj (hok.symm.trans heq))
      exact ⟨rfl, rfl⟩
    refine ⟨hneg, (h.step hm hobeys hok).2, fun hread hgives => ?_⟩
    by_cases hopen : ∃ f, InUse s m f
    · have hasks : c.Asks := by
        cases c with
        | getc | read => trivial
        | _ => exact absurd hgives id
      obtain ⟨rfl, -⟩ := hneg hopen (Or.inr ⟨hasks, hread⟩)
      cases c with
      | getc => exact absurd (show (0 : Int) ≤ -1 from hgives) (by decide)
      | read => exact hgives rfl
      | _ => exact hgives
    · exact (exec_idle ha hm (not_exists.mp hopen) hok).2 hgives

/-- **Access modes are kept as long as nothing offends.** A disk is formatted,
and any calls are made that open no open file again; then a file is opened with
any mode, and the calls on its device obey. The next call on the device keeps
the promise of the mode exactly if it obeys too. -/
theorem modes_enforced_iff {disk d : Disk} {lfiblks : Int} {dsiz : Nat} {devs : List Nat}
    (h : Formattable disk lfiblks dsiz) (hd : lfscreate disk lfiblks dsiz = some d)
    (hr : Reaches NoSlip (bootLfs d devs) s₀) (hslip : NoSlip s₀ (.open name mode))
    (ht : Takes s₀ name mode m)
    (hrun : Reaches (fun s c => c.minor = some m ∧ Obeys mode m s c) (lfsOpen name mode s₀).2 s)
    (hm : c.minor = some m) (hok : exec c s = .ok (r, s')) :
    Enforced mode m s c r s' ↔ Obeys mode m s c := by
  obtain ⟨a, ha, -⟩ := Reaches.represents ((lfscreate_blank h hd).represents devs) hr
  have hguarded := (ht.guarded ha hslip).run (fun _ _ hok => hok) hrun
  exact hguarded.enforced_iff hm hok

/-- Mode `r`. -/
def readMode : CString := ⟨[114], by decide⟩

/-- A new file, opened with mode `r`. -/
def readOnly : FileSystem := (lfsOpen fileA readMode (bootLfs sampleDisk (List.range 6))).2

/-- Its device is in use, a read finds the end of the file, and a write is taken. -/
theorem readOnly_replies :
    (readOnly.lfltab[0]?).map Lflcblk.lfstate = some .used ∧
    (exec (.getc 0) readOnly).toOption.map Prod.fst = some (EOF, []) ∧
    (exec (.putc 0 65) readOnly).toOption.map Prod.fst = some (OK, []) := by
  decide +kernel

theorem readOnly_takes : Takes (bootLfs sampleDisk (List.range 6)) fileA readMode 0 := by
  refine ⟨fun f hf => ?_, ?_⟩
  · obtain ⟨n, -, rfl⟩ := List.mem_map.mp (List.mem_of_getElem? hf.1)
    exact LfState.noConfusion hf.2
  · obtain ⟨f, hf, hst⟩ := Option.map_eq_some_iff.mp readOnly_replies.1
    exact ⟨f, hf, hst⟩

/-- The theorem for a byte read from that file, which is empty. -/
theorem modes_enforced_getc : ∃ s', exec (.getc 0) readOnly = .ok ((EOF, []), s') ∧
    Enforced readMode 0 readOnly (.getc 0) (EOF, []) s' := by
  have hreply := readOnly_replies.2.1
  cases hex : exec (.getc 0) readOnly with
  | error e =>
    rw [hex] at hreply
    cases hreply
  | ok p =>
    obtain ⟨r, s'⟩ := p
    rw [hex] at hreply
    obtain rfl := Option.some.inj hreply
    refine ⟨s', rfl, (modes_enforced_iff sample_formattable sampleDisk_eq .start
      (boot_noSlip _ _ _ _) readOnly_takes .start rfl hex).mpr ?_⟩
    rintro - (⟨hc, -⟩ | ⟨-, hread⟩)
    · exact absurd hc id
    · exact absurd (by unfold Readable; decide) hread

/-- A file opened with mode `r` is written: no call looks at the mode. -/
theorem modes_not_enforced :
    ¬ ∀ (disk d : Disk) (lfiblks : Int) (dsiz : Nat) (devs : List Nat) (s₀ s s' : FileSystem)
      (name mode : CString) (m : Nat) (c : Call) (r : Reply), Formattable disk lfiblks dsiz →
      lfscreate disk lfiblks dsiz = some d → Reaches NoSlip (bootLfs d devs) s₀ →
      NoSlip s₀ (.open name mode) → Takes s₀ name mode m →
      Reaches (fun _ c => c.minor = some m) (lfsOpen name mode s₀).2 s → c.minor = some m →
      exec c s = .ok (r, s') → Enforced mode m s c r s' := by
  intro hall
  have hreply := readOnly_replies.2.2
  cases hex : exec (.putc 0 65) readOnly with
  | error e =>
    rw [hex] at hreply
    cases hreply
  | ok p =>
    obtain ⟨r, s'⟩ := p
    rw [hex] at hreply
    obtain rfl := Option.some.inj hreply
    have henf := hall _ _ _ _ _ _ _ s' fileA readMode 0 (.putc 0 65) (OK, [])
      sample_formattable sampleDisk_eq .start (boot_noSlip _ _ _ _) readOnly_takes .start rfl hex
    have hoff : Offends readMode (.putc 0 65) := Or.inl ⟨trivial, by unfold Writable; decide⟩
    have hres := (henf.refused readOnly_takes.2 hoff).1
    exact absurd (congrArg Prod.fst hres) (by decide)

end Xinu.Lfs
