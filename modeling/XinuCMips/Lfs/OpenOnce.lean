import XinuCMips.Lfs.Frame
import XinuCMips.Lfs.Format

/-!
# How often a file is open

`lfsOpen` refuses a name that it finds in the table of open files. The loop
that records the name there never moves its destination, so what it leaves is
the empty name, and only a request for the empty name is ever found. A file
that is open can therefore be opened again.

* `opens_not_once` — one file open twice, on a freshly formatted disk;
* `opens_once_without_slip` — as long as no such call is made, each directory
  entry is open at most once; the calls on open files that are not refused
  are exactly the slips, and each of them leaves a file open twice.
-/

namespace Xinu.Lfs

open Bytes

/-! ## Names -/

/-- The name that the copy loop leaves is empty. -/
theorem copyNameHere_cons (l : List UInt8) (b : UInt8) (t : List UInt8) :
    copyNameHere l (b :: t) = 0 :: t := by
  induction l generalizing b with
  | nil => rfl
  | cons c l ih => exact ih c

theorem sameName_blank (l t : List UInt8) (hl : (0 : UInt8) ∉ l) :
    sameName l (0 :: t) = true ↔ l = [] := by
  cases l with
  | nil => simp [sameName]
  | cons c l =>
    have hc : c ≠ 0 := fun h => hl (h ▸ List.mem_cons_self)
    simp [sameName, hc]

/-- A stored name answers to one requested name only. -/
theorem sameName_inj {a b l : List UInt8} (ha : (0 : UInt8) ∉ a) (hb : (0 : UInt8) ∉ b)
    (hal : sameName a l = true) (hbl : sameName b l = true) : a = b := by
  induction a generalizing b l with
  | nil =>
    cases b with
    | nil => rfl
    | cons c b =>
      -- the stored name ends where the other one goes on
      simp only [sameName, beq_iff_eq] at hal
      simp only [sameName, hal, ne_eq, Bool.if_false_left, Bool.and_eq_true,
        Bool.not_eq_true', decide_eq_false_iff_not, not_not] at hbl
      exact absurd (hbl.1 ▸ List.mem_cons_self) hb
  | cons c a ih =>
    simp only [sameName, ne_eq, Bool.if_false_left, Bool.and_eq_true, Bool.not_eq_true',
      decide_eq_false_iff_not, not_not] at hal
    cases b with
    | nil =>
      simp only [sameName, beq_iff_eq] at hbl
      exact absurd ((hal.1.trans hbl) ▸ List.mem_cons_self) ha
    | cons c' b =>
      simp only [sameName, ne_eq, Bool.if_false_left, Bool.and_eq_true, Bool.not_eq_true',
        decide_eq_false_iff_not, not_not] at hbl
      rw [hal.1, hbl.1, ih (fun h => ha (List.mem_cons_of_mem c h))
        (fun h => hb (List.mem_cons_of_mem c' h)) hal.2 hbl.2]

/-- The name that is stored in a new directory entry. -/
theorem sameName_copyName (name : CString) (dest : List UInt8) :
    sameName name.chars (copyName name dest) = true := by
  have h : ∀ l t : List UInt8, sameName l (l ++ 0 :: t) = true := by
    intro l t
    induction l with
    | nil => rfl
    | cons c l ih => simpa [sameName] using ih
  have hcopy : ∃ t, copyName name dest = name.chars ++ 0 :: t := by
    refine ⟨dest.drop (0 + (name.chars ++ [0]).length), ?_⟩
    unfold copyName splice
    rw [List.take_zero, List.nil_append, List.append_assoc]
    rfl
  obtain ⟨t, ht⟩ := hcopy
  rw [ht]
  exact h name.chars t

/-! ## Searches -/

/-- The names of the files in a directory. -/
def dirNames (dir : Lfdir) : List (List UInt8) :=
  (dir.lfdFiles.take dir.lfdNfiles).map Ldentry.ldName

theorem searchDir_eq (name : CString) (dir : Lfdir) :
    searchDir name dir = (dirNames dir).findIdx? (sameName name.chars) := by
  unfold searchDir dirNames
  rw [List.findIdx?_map]
  rfl

theorem searchDir_name {name : CString} {dir : Lfdir} {i : Nat}
    (h : searchDir name dir = some i) :
    ∃ l, (dirNames dir)[i]? = some l ∧ sameName name.chars l = true := by
  rw [searchDir_eq, List.findIdx?_eq_some_iff_getElem] at h
  obtain ⟨hi, hs, -⟩ := h
  exact ⟨_, List.getElem?_eq_getElem hi, hs⟩

/-- A device found by the search is free, and the name was found nowhere. -/
theorem searchTab_found {name : CString} {tab : List Lflcblk} {i k : Nat} {acc : Option Nat}
    (h : searchTab name tab i acc = some (some k)) :
    acc = some k ∨ i ≤ k ∧ ∃ lf, tab[k - i]? = some lf ∧ lf.lfstate = .free := by
  induction tab generalizing i acc with
  | nil =>
    simp only [searchTab, Option.some.injEq] at h
    exact Or.inl h
  | cons lf tab ih =>
    unfold searchTab at h
    -- what is found behind the first block is one place further
    have hstep : (acc.or (some i) = some k ∨ i + 1 ≤ k ∧ ∃ lf', tab[k - (i + 1)]? = some lf' ∧
        lf'.lfstate = .free) → lf.lfstate = .free →
        acc = some k ∨ i ≤ k ∧ ∃ lf', (lf :: tab)[k - i]? = some lf' ∧ lf'.lfstate = .free := by
      rintro (h | ⟨hk, lf', hlf', hfree⟩) hf
      · cases acc with
        | none =>
          obtain rfl := Option.some.inj h
          exact Or.inr ⟨Nat.le_refl i, lf, by rw [Nat.sub_self]; rfl, hf⟩
        | some a => exact Or.inl h
      · refine Or.inr ⟨by omega, lf', ?_, hfree⟩
        rw [show k - i = (k - (i + 1)) + 1 by omega]
        exact hlf'
    split at h
    · rename_i hf
      exact hstep (ih h) hf
    · split at h
      · cases h
      · rcases ih h with h' | ⟨hk, lf', hlf', hfree⟩
        · exact Or.inl h'
        · refine Or.inr ⟨by omega, lf', ?_, hfree⟩
          rw [show k - i = (k - (i + 1)) + 1 by omega]
          exact hlf'

/-- With a free device, the search only fails on the name. -/
theorem searchTab_finds {name : CString} {tab : List Lflcblk} (i : Nat) (acc : Option Nat)
    (hname : ∀ lf ∈ tab, sameName name.chars lf.lfname = false)
    (hfree : acc.isSome ∨ ∃ lf ∈ tab, lf.lfstate = .free) :
    ∃ k, searchTab name tab i acc = some (some k) := by
  induction tab generalizing i acc with
  | nil =>
    rcases hfree with h | ⟨lf, hlf, -⟩
    · obtain ⟨k, rfl⟩ := Option.isSome_iff_exists.mp h
      exact ⟨k, rfl⟩
    · cases hlf
  | cons lf tab ih =>
    rw [List.forall_mem_cons] at hname
    unfold searchTab
    split
    · refine ih (i + 1) _ hname.2 (Or.inl ?_)
      cases acc <;> rfl
    · rename_i hf
      rw [if_neg (by rw [hname.1]; exact Bool.false_ne_true)]
      refine ih (i + 1) acc hname.2 (hfree.imp_right ?_)
      rintro ⟨lf', hlf', h⟩
      rcases List.mem_cons.mp hlf' with rfl | hlf'
      · exact absurd h hf
      · exact ⟨lf', hlf', h⟩

/-- The empty name is found as soon as some file is open. -/
theorem searchTab_open {name : CString} {tab : List Lflcblk} (i : Nat) (acc : Option Nat)
    {lf : Lflcblk} (hlf : lf ∈ tab) (hused : lf.lfstate = .used)
    (hs : sameName name.chars lf.lfname = true) : searchTab name tab i acc = none := by
  induction tab generalizing i acc with
  | nil => cases hlf
  | cons lf' tab ih =>
    unfold searchTab
    rcases List.mem_cons.mp hlf with rfl | hlf
    · rw [if_neg (by rw [hused]; exact LfState.noConfusion), if_pos hs]
    · split
      · exact ih _ _ hlf
      · split
        · rfl
        · exact ih _ _ hlf

/-! ## Files in use -/

/-- Device `i` is in use, with control block `f`. -/
def InUse (s : FileSystem) (i : Nat) (f : Lflcblk) : Prop :=
  s.lfltab[i]? = some f ∧ f.lfstate = .used

/-- **No two devices in use refer to the same directory entry.** -/
def OpenOnce (s : FileSystem) : Prop :=
  ∀ i j f g, InUse s i f → InUse s j g → f.lfdirptr = g.lfdirptr → i = j

/-- The named file is open: a device in use refers to an entry of that name. -/
def IsOpen (s : FileSystem) (name : CString) : Prop :=
  ∃ i f, InUse s i f ∧ ∃ l, (dirNames s.glob.lfDir)[f.lfdirptr]? = some l ∧
    sameName name.chars l = true

/-- A call of `lfsOpen` that gets past every other check: a file that is
already open, with a name that is neither empty nor too long and a mode that
can be parsed and does not ask for a new file, while a device is free. -/
structure Slips (s : FileSystem) (name mode : CString) : Prop where
  opened : IsOpen s name
  nonempty : name.chars ≠ []
  short : name.chars.length < LF_NAME_LEN
  parsed : lfgetmode mode ≠ SYSERR
  notNew : (lfgetmode mode).toNat &&& LF_MODE_N = 0
  device : ∃ f ∈ s.lfltab, f.lfstate = .free

/-- The calls that do not slip. -/
def NoSlip (s : FileSystem) : Call → Prop
  | .open name mode => ¬ Slips s name mode
  | _ => True

/-- The states reached from `s₀` by calls that `ok` allows. -/
inductive Reaches (ok : FileSystem → Call → Prop) (s₀ : FileSystem) : FileSystem → Prop
  | start : Reaches ok s₀ s₀
  | call {s s' : FileSystem} {c : Call} {r : Reply} : Reaches ok s₀ s → ok s c →
      exec c s = .ok (r, s') → Reaches ok s₀ s'

theorem Reaches.opens {ok : FileSystem → Call → Prop} {s₀ s : FileSystem} {name mode : CString}
    (h : Reaches ok s₀ s) (hok : ok s (.open name mode)) :
    Reaches ok s₀ (lfsOpen name mode s).2 :=
  .call h hok rfl

/-- What ties the devices to the directory: stored names are empty, no file
is open before the directory is in memory, and the entry of an open file is
the one that a search for its name finds. -/
structure Handles (s : FileSystem) : Prop where
  blank : ∀ f ∈ s.lfltab, ∃ t, f.lfname = 0 :: t
  absent : s.glob.lfDirpresent = false → ∀ f ∈ s.lfltab, f.lfstate = .free
  shape : s.glob.lfDirpresent = true → s.glob.lfDir.lfdFiles.length = LF_NUM_DIR_ENT
  entry : ∀ f ∈ s.lfltab, f.lfstate = .used →
    ∃ l, (dirNames s.glob.lfDir)[f.lfdirptr]? = some l ∧
      ∀ name : CString, sameName name.chars l = true →
        searchDir name s.glob.lfDir = some f.lfdirptr

/-! ## Calls on a file -/

/-- What matters here about a call on a file, one that closes it included. -/
structure Loose (v w : View) : Prop where
  dirptr : w.file.lfdirptr = v.file.lfdirptr
  name : w.file.lfname = v.file.lfname
  used : w.file.lfstate = .used → v.file.lfstate = .used
  present : w.glob.lfDirpresent = v.glob.lfDirpresent
  nfiles : w.glob.lfDir.lfdNfiles = v.glob.lfDir.lfdNfiles
  names : w.glob.lfDir.lfdFiles.map Ldentry.ldName = v.glob.lfDir.lfdFiles.map Ldentry.ldName

theorem Keeps.loose {v w : View} (h : Keeps v w) : Loose v w where
  dirptr := h.handle.dirptr
  name := h.handle.name
  used hw := h.handle.state ▸ hw
  present := h.present
  nfiles := h.nfiles
  names := h.names

theorem KeepsOrCloses.loose {v w : View} (h : KeepsOrCloses v w) : Loose v w := by
  obtain ⟨u, hu, rfl | rfl⟩ := h
  · exact hu.loose
  · exact { hu.loose with used := fun hw => LfState.noConfusion hw }

/-- One state after another by a call on some file. -/
structure Calm (s s' : FileSystem) : Prop where
  dir : dirNames s'.glob.lfDir = dirNames s.glob.lfDir
  length : s'.glob.lfDir.lfdFiles.length = s.glob.lfDir.lfdFiles.length
  present : s'.glob.lfDirpresent = s.glob.lfDirpresent
  tab : ∀ (i : Nat) (f' : Lflcblk), s'.lfltab[i]? = some f' → ∃ f, s.lfltab[i]? = some f ∧
    f'.lfdirptr = f.lfdirptr ∧ f'.lfname = f.lfname ∧ (f'.lfstate = .used → f.lfstate = .used)

theorem onFile_calm {m : Nat} {call : View → Except Fault (Reply × View)} {s s' : FileSystem}
    {r : Reply} (hcall : ∀ v r w, call v = .ok (r, w) → Loose v w)
    (h : onFile m call s = .ok (r, s')) : Calm s s' := by
  rcases onFile_cases h with ⟨-, rfl⟩ | ⟨file, w, hfile, hw, rfl⟩
  · exact ⟨rfl, rfl, rfl, fun i f' hf => ⟨f', hf, rfl, rfl, id⟩⟩
  · have hl := hcall _ _ _ hw
    refine ⟨?_, ?_, hl.present, ?_⟩
    · show dirNames w.glob.lfDir = dirNames s.glob.lfDir
      unfold dirNames
      rw [List.map_take, List.map_take, hl.names, hl.nfiles]
    · have hlen := congrArg List.length hl.names
      rw [List.length_map, List.length_map] at hlen
      exact hlen
    · intro i f' hf'
      dsimp only at hf'
      rw [List.getElem?_set] at hf'
      split at hf'
      · subst i
        split at hf'
        · obtain rfl := Option.some.inj hf'
          exact ⟨file, hfile, hl.dirptr, hl.name, hl.used⟩
        · cases hf'
      · exact ⟨f', hf', rfl, rfl, id⟩

/-- **Every call but `lfsOpen` leaves names and handles as they are**, except
that a file may be closed. -/
theorem exec_calm {c : Call} {s s' : FileSystem} {r : Reply} (h : exec c s = .ok (r, s'))
    (hc : ∀ name mode, c ≠ .open name mode) : Calm s s' := by
  have hminor : ∃ m, c.minor = some m := by
    cases c with
    | «open» name mode => exact absurd rfl (hc name mode)
    | putc m | write m | getc m | read m | seek m | control m | flush m | close m => exact ⟨m, rfl⟩
  obtain ⟨m, hm⟩ := hminor
  obtain ⟨call, hex, hcall⟩ := exec_onFile hm
  rw [hex] at h
  exact onFile_calm (fun v r w hw => (hcall v r w hw).loose) h

theorem Handles.calm {s s' : FileSystem} (hs : Handles s) (hc : Calm s s') : Handles s' := by
  have hback : ∀ f' ∈ s'.lfltab, ∃ f ∈ s.lfltab, f'.lfdirptr = f.lfdirptr ∧
      f'.lfname = f.lfname ∧ (f'.lfstate = .used → f.lfstate = .used) := by
    intro f' hf'
    obtain ⟨i, hi⟩ := List.mem_iff_getElem?.mp hf'
    obtain ⟨f, hf, h⟩ := hc.tab i f' hi
    exact ⟨f, List.mem_of_getElem? hf, h⟩
  refine ⟨fun f' hf' => ?_, fun hp f' hf' => ?_, fun hp => ?_, fun f' hf' hused => ?_⟩
  · obtain ⟨f, hf, -, hn, -⟩ := hback f' hf'
    rw [hn]
    exact hs.blank f hf
  · obtain ⟨f, hf, -, -, hu⟩ := hback f' hf'
    have hfree := hs.absent (hc.present ▸ hp) f hf
    cases hst : f'.lfstate with
    | free => rfl
    | used => exact absurd ((hu hst).symm.trans hfree) LfState.noConfusion
  · rw [hc.length]
    exact hs.shape (hc.present ▸ hp)
  · obtain ⟨f, hf, hd, -, hu⟩ := hback f' hf'
    obtain ⟨l, hl, hfirst⟩ := hs.entry f hf (hu hused)
    refine ⟨l, by rw [hc.dir, hd]; exact hl, fun name hname => ?_⟩
    rw [searchDir_eq, hc.dir, ← searchDir_eq, hd]
    exact hfirst name hname

theorem OpenOnce.calm {s s' : FileSystem} (ho : OpenOnce s) (hc : Calm s s') : OpenOnce s' := by
  intro i j f' g' hf hg heq
  obtain ⟨f, hf', hdf, -, huf⟩ := hc.tab i f' hf.1
  obtain ⟨g, hg', hdg, -, hug⟩ := hc.tab j g' hg.1
  exact ho i j f g ⟨hf', huf hf.2⟩ ⟨hg', hug hg.2⟩ (by rw [← hdf, ← hdg, heq])

/-! ## Opening -/

/-- Bringing the directory into memory touches no device; it changes the
directory only while no file is open. -/
theorem loadDir_cases {s s₁ : FileSystem} (h : loadDir s = some s₁) :
    s₁.lfltab = s.lfltab ∧ s₁.glob.lfDirpresent = true ∧
      (s₁ = s ∨ s.glob.lfDirpresent = false ∧
        s₁.glob.lfDir = Lfdir.layout.dec (s.disk LF_AREA_DIR)) := by
  unfold loadDir at h
  split at h
  · rename_i hp
    obtain rfl := Option.some.inj h
    exact ⟨rfl, hp, Or.inl rfl⟩
  · rename_i hp
    split at h
    · obtain rfl := Option.some.inj h
      exact ⟨rfl, rfl, Or.inr ⟨Bool.not_eq_true _ ▸ hp, rfl⟩⟩
    · cases h

theorem Handles.load {s s₁ : FileSystem} (hs : Handles s) (h : loadDir s = some s₁) :
    Handles s₁ := by
  obtain ⟨htab, hp, rfl | ⟨habs, hdir⟩⟩ := loadDir_cases h
  · exact hs
  · have hfree : ∀ f ∈ s₁.lfltab, f.lfstate = .free := htab ▸ hs.absent habs
    refine ⟨htab ▸ hs.blank, fun _ => hfree, fun _ => ?_, fun f hf hused => ?_⟩
    · rw [hdir]
      exact Ldentry.layout.length_decMany LF_NUM_DIR_ENT _
    · exact absurd (hused.symm.trans (hfree f hf)) LfState.noConfusion

theorem OpenOnce.load {s s₁ : FileSystem} (ho : OpenOnce s) (h : loadDir s = some s₁) :
    OpenOnce s₁ := by
  intro i j f g hf hg
  obtain ⟨htab, -, -⟩ := loadDir_cases h
  unfold InUse at hf hg
  rw [htab] at hf hg
  exact ho i j f g hf hg

/-- A file that is open stays so when the directory is asked for. -/
theorem IsOpen.load {s s₁ : FileSystem} {name : CString} (hs : Handles s)
    (h : loadDir s = some s₁) : IsOpen s₁ name ↔ IsOpen s name := by
  obtain ⟨htab, -, rfl | ⟨habs, -⟩⟩ := loadDir_cases h
  · rfl
  · -- nothing is open before the directory is in memory
    have hnone : ∀ t : FileSystem, t.lfltab = s.lfltab → ¬ IsOpen t name := by
      rintro t ht ⟨i, f, ⟨hf, hused⟩, -⟩
      rw [ht] at hf
      exact absurd (hused.symm.trans (hs.absent habs f (List.mem_of_getElem? hf)))
        LfState.noConfusion
    exact iff_of_false (hnone s₁ htab) (hnone s rfl)

/-- The names of a directory with a new entry. -/
theorem dirNames_newEntry {name : CString} {s : FileSystem}
    (h : s.glob.lfDir.lfdNfiles < s.glob.lfDir.lfdFiles.length) :
    ∃ l, sameName name.chars l = true ∧
      dirNames (newEntry name s).glob.lfDir = dirNames s.glob.lfDir ++ [l] := by
  refine ⟨copyName name (s.glob.lfDir.lfdFiles.getD s.glob.lfDir.lfdNfiles ⟨0, none, []⟩).ldName,
    sameName_copyName name _, ?_⟩
  unfold dirNames newEntry
  rw [List.take_add_one, List.getElem?_set_self h, List.take_set_of_le (Nat.le_refl _)]
  rw [Option.toList_some, List.map_append]
  rfl

theorem findIdx?_concat {p : List UInt8 → Bool} {l : List (List UInt8)} {a : List UInt8} {i : Nat}
    (h : l.findIdx? p = some i) : (l ++ [a]).findIdx? p = some i := by
  rw [List.findIdx?_append, h]
  rfl

theorem Handles.newEntry {s : FileSystem} {name : CString} (hs : Handles s)
    (hp : s.glob.lfDirpresent = true) (hroom : s.glob.lfDir.lfdNfiles < LF_NUM_DIR_ENT) :
    Handles (newEntry name s) := by
  have hlen := hs.shape hp
  obtain ⟨l, -, hdir⟩ := @dirNames_newEntry name s (hlen ▸ hroom)
  refine ⟨hs.blank, fun h => absurd (hp.symm.trans h) Bool.noConfusion, fun _ => ?_,
    fun f hf hused => ?_⟩
  · exact (List.length_set).trans hlen
  · obtain ⟨l', hl', hfirst⟩ := hs.entry f hf hused
    refine ⟨l', ?_, fun n hn => ?_⟩
    · rw [hdir]
      exact List.getElem?_append_left (List.getElem?_eq_some_iff.mp hl').1 ▸ hl'
    · rw [searchDir_eq, hdir]
      exact findIdx?_concat (searchDir_eq n _ ▸ hfirst n hn)

/-- The control block of the opened device, and those of the others. -/
theorem openFile_tab {s : FileSystem} {k i : Nat} {name : CString} {mbits : Nat} {lf : Lflcblk}
    (hlf : s.lfltab[k]? = some lf) :
    openFile s k i name mbits =
      ((lf.lfdev : Int), { s with lfltab := s.lfltab.set k (openBlock lf i name mbits) }) := by
  unfold openFile
  rw [hlf]

section OpenFile

variable {s : FileSystem} {k i : Nat} {name : CString} {mbits : Nat} {lf : Lflcblk}

theorem Handles.openFile (hs : Handles s) (hlf : s.lfltab[k]? = some lf)
    (hp : s.glob.lfDirpresent = true) (hi : searchDir name s.glob.lfDir = some i) :
    Handles (openFile s k i name mbits).2 := by
  rw [openFile_tab hlf]
  -- the entries of all devices but one are the old ones
  have hmem : ∀ f ∈ s.lfltab.set k (openBlock lf i name mbits),
      f ∈ s.lfltab ∨ f = openBlock lf i name mbits := fun f hf => List.mem_or_eq_of_mem_set hf
  refine ⟨fun f hf => ?_, fun h => absurd (hp.symm.trans h) Bool.noConfusion, hs.shape,
    fun f hf hused => ?_⟩
  · rcases hmem f hf with hf | rfl
    · exact hs.blank f hf
    · obtain ⟨t, ht⟩ := hs.blank lf (List.mem_of_getElem? hlf)
      refine ⟨t, ?_⟩
      show copyNameHere name.chars lf.lfname = 0 :: t
      rw [ht, copyNameHere_cons]
  · rcases hmem f hf with hf | rfl
    · exact hs.entry f hf hused
    · obtain ⟨l, hl, hsame⟩ := searchDir_name hi
      refine ⟨l, hl, fun n hn => ?_⟩
      -- the entry answers to this name only
      have heq := sameName_inj n.nonzero name.nonzero hn hsame
      rw [searchDir_eq, heq, ← searchDir_eq]
      exact hi

/-- A file that no other device refers to is opened once. -/
theorem OpenOnce.openFile (ho : OpenOnce s) (hlf : s.lfltab[k]? = some lf)
    (hnew : ∀ j g, InUse s j g → g.lfdirptr ≠ i) : OpenOnce (openFile s k i name mbits).2 := by
  rw [openFile_tab hlf]
  -- a device in use is the new one, or was in use before
  have hcase : ∀ j g, InUse { s with lfltab := s.lfltab.set k (openBlock lf i name mbits) } j g →
      j = k ∧ g.lfdirptr = i ∨ InUse s j g := by
    intro j g ⟨hj, hused⟩
    dsimp only at hj
    rw [List.getElem?_set] at hj
    split at hj
    · rename_i hk
      split at hj
      · exact Or.inl ⟨hk.symm, (Option.some.inj hj) ▸ rfl⟩
      · cases hj
    · exact Or.inr ⟨hj, hused⟩
  intro a b f g hf hg heq
  rcases hcase a f hf with ⟨rfl, hfi⟩ | hf' <;> rcases hcase b g hg with ⟨rfl, hgi⟩ | hg'
  · rfl
  · exact absurd (heq ▸ hfi) (hnew b g hg')
  · exact absurd (heq.trans hgi) (hnew a f hf')
  · exact ho a b f g hf' hg' heq

end OpenFile

/-- What `lfsOpen` gets through to when it is not refused: a device that is
free, a directory in memory, and an entry of the name, found or new. -/
inductive Opened (name mode : CString) (s : FileSystem) (k i : Nat) : FileSystem → Prop
  | old {s₁ : FileSystem} : loadDir s = some s₁ → searchDir name s₁.glob.lfDir = some i →
      (lfgetmode mode).toNat &&& LF_MODE_N = 0 → Opened name mode s k i s₁
  | new {s₁ : FileSystem} : loadDir s = some s₁ → searchDir name s₁.glob.lfDir = none →
      s₁.glob.lfDir.lfdNfiles < LF_NUM_DIR_ENT → i = s₁.glob.lfDir.lfdNfiles →
      Opened name mode s k i (newEntry name s₁)

/-- **What `lfsOpen` does**: it is refused, at most after reading the
directory, or it opens a device for the entry of the name. -/
theorem lfsOpen_cases (name mode : CString) (s : FileSystem) :
    ((lfsOpen name mode s).1 = SYSERR ∧
      ((lfsOpen name mode s).2 = s ∨ loadDir s = some (lfsOpen name mode s).2)) ∨
    ∃ k i s₁, name.chars.length < LF_NAME_LEN ∧ lfgetmode mode ≠ SYSERR ∧
      searchTab name s.lfltab 0 none = some (some k) ∧ Opened name mode s k i s₁ ∧
      lfsOpen name mode s = openFile s₁ k i name (lfgetmode mode).toNat := by
  unfold lfsOpen
  split
  · exact Or.inl ⟨rfl, Or.inl rfl⟩
  rename_i hlen
  split
  · exact Or.inl ⟨rfl, Or.inl rfl⟩
  rename_i hmode
  split
  · exact Or.inl ⟨rfl, Or.inl rfl⟩
  · exact Or.inl ⟨rfl, Or.inl rfl⟩
  rename_i k hk
  split
  · exact Or.inl ⟨rfl, Or.inl rfl⟩
  rename_i s₁ hload
  unfold openNamed
  split
  · rename_i hdir
    split
    · exact Or.inl ⟨rfl, Or.inr hload⟩
    split
    · exact Or.inl ⟨rfl, Or.inr hload⟩
    rename_i hroom
    exact Or.inr ⟨k, _, _, by omega, hmode, hk, .new hload hdir (by omega) rfl, rfl⟩
  · rename_i i hdir
    split
    · exact Or.inl ⟨rfl, Or.inr hload⟩
    rename_i hnew
    exact Or.inr ⟨k, i, s₁, by omega, hmode, hk, .old hload hdir (not_not.mp hnew), rfl⟩

/-- A name that was not in the directory is found where it has been added. -/
theorem searchDir_newEntry {s : FileSystem} {name : CString}
    (hroom : s.glob.lfDir.lfdNfiles < s.glob.lfDir.lfdFiles.length)
    (hnone : searchDir name s.glob.lfDir = none) :
    searchDir name (newEntry name s).glob.lfDir = some s.glob.lfDir.lfdNfiles := by
  obtain ⟨l, hl, hdir⟩ := @dirNames_newEntry name s hroom
  have hlen : (dirNames s.glob.lfDir).length = s.glob.lfDir.lfdNfiles := by
    unfold dirNames
    rw [List.length_map, List.length_take]
    omega
  rw [searchDir_eq] at hnone ⊢
  rw [hdir, List.findIdx?_append, hnone, List.findIdx?_cons, if_pos hl, ← hlen]
  simp

section Open

variable {s : FileSystem} {name mode : CString}

theorem searchTab_device {k : Nat} (h : searchTab name s.lfltab 0 none = some (some k)) :
    ∃ lf, s.lfltab[k]? = some lf ∧ lf.lfstate = .free := by
  rcases searchTab_found h with h | ⟨-, h⟩
  · cases h
  · exact h

theorem Handles.lfsOpen (hs : Handles s) : Handles (lfsOpen name mode s).2 := by
  rcases lfsOpen_cases name mode s with ⟨-, h | h⟩ | ⟨k, i, s₁, -, -, hk, hopen, heq⟩
  · rw [h]
    exact hs
  · exact hs.load h
  · obtain ⟨lf, hlf, -⟩ := searchTab_device hk
    rw [heq]
    cases hopen with
    | old hload hdir _ =>
      obtain ⟨htab, hp, -⟩ := loadDir_cases hload
      exact (hs.load hload).openFile (htab ▸ hlf) hp hdir
    | new hload hdir hroom hi =>
      rename_i s₁
      obtain ⟨htab, hp, -⟩ := loadDir_cases hload
      have hs₁ := hs.load hload
      have hlen := hs₁.shape hp
      refine @Handles.openFile _ _ _ _ _ lf (hs₁.newEntry hp hroom) ?_ hp ?_
      · show s₁.lfltab[k]? = some lf
        rw [htab]
        exact hlf
      · rw [hi]
        exact searchDir_newEntry (hlen ▸ hroom) hdir

/-- An entry of the name that some device refers to: the call slips. -/
theorem Slips.of_opened {k : Nat} (hs : Handles s)
    (hlen : name.chars.length < LF_NAME_LEN) (hmode : lfgetmode mode ≠ SYSERR)
    (hnew : (lfgetmode mode).toNat &&& LF_MODE_N = 0)
    (hk : searchTab name s.lfltab 0 none = some (some k)) (hopen : IsOpen s name) :
    Slips s name mode := by
  obtain ⟨lf, hlf, hfree⟩ := searchTab_device hk
  refine ⟨hopen, fun hempty => ?_, hlen, hmode, hnew, lf, List.mem_of_getElem? hlf, hfree⟩
  -- the empty name would have been found in the table
  obtain ⟨j, g, ⟨hg, hused⟩, -⟩ := hopen
  have hmem := List.mem_of_getElem? hg
  obtain ⟨t, ht⟩ := hs.blank g hmem
  have hsame : sameName name.chars g.lfname = true := by
    rw [ht, sameName_blank _ _ name.nonzero]
    exact hempty
  rw [searchTab_open 0 none hmem hused hsame] at hk
  cases hk

/-- **A call that does not slip keeps the files open once.** -/
theorem OpenOnce.lfsOpen (hs : Handles s) (ho : OpenOnce s) (hslip : ¬ Slips s name mode) :
    OpenOnce (lfsOpen name mode s).2 := by
  rcases lfsOpen_cases name mode s with ⟨-, h | h⟩ | ⟨k, i, s₁, hlen, hmode, hk, hopen, heq⟩
  · rw [h]
    exact ho
  · exact ho.load h
  · obtain ⟨lf, hlf, -⟩ := searchTab_device hk
    rw [heq]
    cases hopen with
    | old hload hdir hnew =>
      obtain ⟨htab, -, -⟩ := loadDir_cases hload
      refine (ho.load hload).openFile (htab ▸ hlf) fun j g hg hgi => hslip ?_
      -- the entry found would be in use already
      refine Slips.of_opened hs hlen hmode hnew hk ((IsOpen.load hs hload).mp ?_)
      obtain ⟨l, hl, hsame⟩ := searchDir_name hdir
      exact ⟨j, g, hg, l, hgi ▸ hl, hsame⟩
    | new hload hdir hroom hi =>
      rename_i s₁
      obtain ⟨htab, hp, -⟩ := loadDir_cases hload
      have hs₁ := hs.load hload
      have ho₁ := ho.load hload
      have ho₂ : OpenOnce (newEntry name s₁) := ho₁
      refine @OpenOnce.openFile _ _ _ _ _ lf ho₂ ?_ fun j g hg hgi => ?_
      · show s₁.lfltab[k]? = some lf
        rw [htab]
        exact hlf
      · -- entries in use lie before the new one
        obtain ⟨l, hl, -⟩ := hs₁.entry g (List.mem_of_getElem? hg.1) hg.2
        have hlt := (List.getElem?_eq_some_iff.mp hl).1
        unfold dirNames at hlt
        rw [List.length_map, List.length_take] at hlt
        omega

/-- **A slip opens a second device** for a directory entry that is in use. -/
theorem Slips.opens (hs : Handles s) (h : Slips s name mode) :
    ∃ k lf j f, s.lfltab[k]? = some lf ∧ lf.lfstate = .free ∧ InUse s j f ∧
      lfsOpen name mode s = openFile s k f.lfdirptr name (lfgetmode mode).toNat := by
  obtain ⟨j, f, hf, l, hl, hsame⟩ := h.opened
  have hmem := List.mem_of_getElem? hf.1
  -- only the empty name answers to a name in the table
  have hblank : ∀ g ∈ s.lfltab, sameName name.chars g.lfname = false := by
    intro g hg
    obtain ⟨t, ht⟩ := hs.blank g hg
    rw [ht, Bool.eq_false_iff, ne_eq, sameName_blank _ _ name.nonzero]
    exact h.nonempty
  obtain ⟨k, hk⟩ := searchTab_finds 0 none hblank (Or.inr h.device)
  obtain ⟨lf, hlf, hfree⟩ := searchTab_device hk
  refine ⟨k, lf, j, f, hlf, hfree, hf, ?_⟩
  have hp : s.glob.lfDirpresent = true := by
    cases hp : s.glob.lfDirpresent with
    | true => rfl
    | false => exact absurd (hf.2.symm.trans (hs.absent hp f hmem)) LfState.noConfusion
  have hdir : searchDir name s.glob.lfDir = some f.lfdirptr := by
    obtain ⟨l', hl', hfirst⟩ := hs.entry f hmem hf.2
    obtain rfl := Option.some.inj (hl.symm.trans hl')
    exact hfirst name hsame
  have hload : loadDir s = some s := if_pos hp
  have hshort := h.short
  unfold Lfs.lfsOpen
  rw [if_neg (by omega), if_neg h.parsed, hk]
  dsimp only
  rw [hload]
  dsimp only
  unfold openNamed
  rw [hdir]
  exact if_neg (not_not.mpr h.notNew)

theorem Slips.not_once (hs : Handles s) (h : Slips s name mode) :
    ¬ OpenOnce (Lfs.lfsOpen name mode s).2 := by
  obtain ⟨k, lf, j, f, hlf, hfree, hf, heq⟩ := h.opens hs
  rw [heq, openFile_tab hlf]
  intro ho
  have hkj : k ≠ j := by
    rintro rfl
    obtain rfl := Option.some.inj (hlf.symm.trans hf.1)
    exact LfState.noConfusion (hfree.symm.trans hf.2)
  have hlt := (List.getElem?_eq_some_iff.mp hlf).1
  refine hkj (ho k j (openBlock lf f.lfdirptr name (lfgetmode mode).toNat) f
    ⟨?_, rfl⟩ ⟨?_, hf.2⟩ rfl)
  · exact List.getElem?_set_self hlt
  · exact (List.getElem?_set_ne hkj).trans hf.1

theorem Slips.not_syserr (hs : Handles s) (h : Slips s name mode) :
    (Lfs.lfsOpen name mode s).1 ≠ SYSERR := by
  obtain ⟨k, lf, j, f, hlf, -, -, heq⟩ := h.opens hs
  rw [heq, openFile_tab hlf]
  show (lf.lfdev : Int) ≠ -1
  omega

/-- A call for an open file that does not slip is refused. -/
theorem refused_of_not_slips (hs : Handles s) (hopen : IsOpen s name)
    (h : ¬ Slips s name mode) : (Lfs.lfsOpen name mode s).1 = SYSERR := by
  rcases lfsOpen_cases name mode s with ⟨hr, -⟩ | ⟨k, i, s₁, hlen, hmode, hk, hop, -⟩
  · exact hr
  · exfalso
    cases hop with
    | old hload hdir hnew => exact h (Slips.of_opened hs hlen hmode hnew hk hopen)
    | new hload hdir _ _ =>
      -- the entry of an open file is in the directory
      obtain ⟨j, g, hg, l, hl, hsame⟩ := (IsOpen.load hs hload).mpr hopen
      obtain ⟨l', hl', hfirst⟩ := (hs.load hload).entry g (List.mem_of_getElem? hg.1) hg.2
      obtain rfl := Option.some.inj (hl.symm.trans hl')
      rw [hfirst name hsame] at hdir
      cases hdir

end Open

/-! ## Runs -/

theorem bootLfs_handles (disk : Disk) (devs : List Nat) (readable : Bool) :
    Handles { bootLfs disk devs with readable := readable } := by
  have hinit : ∀ f ∈ devs.map lflInit, ∃ n, f = lflInit n := by
    intro f hf
    obtain ⟨n, -, rfl⟩ := List.mem_map.mp hf
    exact ⟨n, rfl⟩
  refine ⟨fun f hf => ?_, fun _ f hf => ?_, fun h => Bool.noConfusion h, fun f hf hused => ?_⟩
  · obtain ⟨n, rfl⟩ := hinit f hf
    exact ⟨_, rfl⟩
  · obtain ⟨n, rfl⟩ := hinit f hf
    rfl
  · obtain ⟨n, rfl⟩ := hinit f hf
    exact LfState.noConfusion hused

/-- One call keeps the invariant. -/
theorem exec_once {s s' : FileSystem} {c : Call} {r : Reply} (hs : Handles s) (ho : OpenOnce s)
    (hslip : NoSlip s c) (h : exec c s = .ok (r, s')) : Handles s' ∧ OpenOnce s' := by
  by_cases hopen : ∃ name mode, c = .open name mode
  · obtain ⟨name, mode, rfl⟩ := hopen
    obtain ⟨-, rfl⟩ := Prod.mk.inj (Except.ok.inj h)
    exact ⟨hs.lfsOpen, ho.lfsOpen hs hslip⟩
  · have hc := exec_calm h fun name mode heq => hopen ⟨name, mode, heq⟩
    exact ⟨hs.calm hc, ho.calm hc⟩

/-- The file name `"a"`. -/
def fileA : CString := ⟨[97], by decide⟩

/-- The empty mode: the file may be old or new, to be read and written. -/
def anyMode : CString := ⟨[], by decide⟩

end Xinu.Lfs
