import XinuCMips.Lfs.OpenOnce
import XinuCMips.Lib.Histories
import XinuCMips.Lib.Sema

/-!
# Processes that open files

`lfsOpen` chooses a pseudo-device that is free, waits for `lf_mutex`, reads the
directory if it is not in memory, and opens the device. Other processes run
while it waits and while it reads. Calls on open files take `lf_mutex` as well,
and hold it while they wait for the disk.

* `opens_apart_without_slip` — as long as the device that a call has chosen is
  still free when the call gets `lf_mutex` after waiting, all files that are open
  have devices of their own, and only calls on a file change its control block;
* `opens_not_apart`          — two calls that choose before one of them opens get
  the same device.
-/

namespace Xinu.Lfs

abbrev Pid := Nat

/-- A call of `lfsOpen` that has chosen a device. It waits for `lf_mutex`, or
holds it and reads the directory. -/
structure OpenCall where
  name : CString
  mbits : Nat
  lfnext : Nat
  reading : Bool := false

structure Openers where
  fs : FileSystem
  lfMutex : Sema
  calls : Pid → Option OpenCall
  /-- Calls on open files that wait for `lf_mutex`, or hold it. -/
  users : Pid → Option Bool

inductive OpenEvent
  /-- `lfsOpen` returns a device, and leaves its control block so. -/
  | opened (pid : Pid) (minor : Nat) (value : Int) (file : Lflcblk)
  | failed (pid : Pid)
  /-- A call on a file leaves its control block so. -/
  | called (minor : Nat) (file : Lflcblk)

/-- `lfsOpen` up to `wait`: the device that it chooses. -/
def choose (name mode : CString) (s : FileSystem) : Option OpenCall :=
  if LF_NAME_LEN ≤ name.chars.length then none
  else if lfgetmode mode = SYSERR then none
  else
    match searchTab name s.lfltab 0 none with
    | none | some none => none
    | some (some lfnext) => some { name, mbits := (lfgetmode mode).toNat, lfnext }

/-- With no other process between its parts, a call is `lfsOpen`. -/
theorem lfsOpen_eq (name mode : CString) (s : FileSystem) :
    lfsOpen name mode s =
      match choose name mode s with
      | none => (SYSERR, s)
      | some c =>
        match loadDir s with
        | none => (SYSERR, s)
        | some s => openNamed c.name c.mbits c.lfnext s := by
  unfold lfsOpen choose
  by_cases hlen : LF_NAME_LEN ≤ name.chars.length
  · rw [if_pos hlen, if_pos hlen]
  rw [if_neg hlen, if_neg hlen]
  by_cases hmode : lfgetmode mode = SYSERR
  · rw [if_pos hmode, if_pos hmode]
  rw [if_neg hmode, if_neg hmode]
  cases searchTab name s.lfltab 0 none with
  | none => rfl
  | some lfnext =>
    cases lfnext with
    | none => rfl
    | some lfnext => rfl

namespace Openers

/-- `lfsOpen` with the directory in memory, or read now; `lf_mutex` is given
back. -/
def finish (pid : Pid) (c : OpenCall) (s : Openers) : Openers × List OpenEvent :=
  let s := { s with lfMutex := s.lfMutex.signal, calls := Function.update s.calls pid none }
  match loadDir s.fs with
  | none => (s, [.failed pid])
  | some fs =>
    let r := openNamed c.name c.mbits c.lfnext fs
    if r.1 = SYSERR then ({ s with fs := r.2 }, [.failed pid])
    else ({ s with fs := r.2 }, (r.2.lfltab[c.lfnext]?.map (.opened pid c.lfnext r.1)).toList)

/-- `lfsOpen` behind its `wait`. -/
def enter (pid : Pid) (c : OpenCall) (s : Openers) : Openers × List OpenEvent :=
  if s.fs.glob.lfDirpresent then s.finish pid c
  else ({ s with calls := Function.update s.calls pid (some { c with reading := true }) }, [])

/-- `lfsOpen`. -/
def start (pid : Pid) (name mode : CString) (s : Openers) : Openers × List OpenEvent :=
  match choose name mode s.fs with
  | none => (s, [.failed pid])
  | some c =>
    let s' := { s with lfMutex := (s.lfMutex.wait pid).2 }
    if (s.lfMutex.wait pid).1 then s'.enter pid c
    else ({ s' with calls := Function.update s.calls pid (some c) }, [])

end Openers

inductive OpenAct
  | open (pid : Pid) (name mode : CString)
  /-- A call of `lfsOpen` that has waited for `lf_mutex` runs. -/
  | woken (pid : Pid)
  /-- The directory has been read. -/
  | loaded (pid : Pid)
  /-- A call on a file takes `lf_mutex`, runs when it has waited for it, and gives
  it back. -/
  | lock (pid : Pid)
  | lockWoken (pid : Pid)
  | unlock (pid : Pid)
  /-- A call on a file. -/
  | call (c : Call)

namespace Openers

def step (s : Openers) : OpenAct → Option (Openers × List OpenEvent)
  | .open pid name mode =>
    if (s.calls pid).isNone ∧ s.users pid = none then some (s.start pid name mode) else none
  | .woken pid =>
    match s.calls pid with
    | some c =>
      if pid ∈ s.lfMutex.released ∧ ¬ c.reading then
        some ({ s with lfMutex := s.lfMutex.resume pid }.enter pid c)
      else none
    | none => none
  | .loaded pid =>
    match s.calls pid with
    | some c => if c.reading then some (s.finish pid c) else none
    | none => none
  | .lock pid =>
    if (s.calls pid).isNone ∧ s.users pid = none then
      some ({ s with
        lfMutex := (s.lfMutex.wait pid).2
        users := Function.update s.users pid (some (s.lfMutex.wait pid).1) }, [])
    else none
  | .lockWoken pid =>
    if s.users pid = some false ∧ pid ∈ s.lfMutex.released then
      some ({ s with
        lfMutex := s.lfMutex.resume pid
        users := Function.update s.users pid (some true) }, [])
    else none
  | .unlock pid =>
    if s.users pid = some true then
      some ({ s with
        lfMutex := s.lfMutex.signal
        users := Function.update s.users pid none }, [])
    else none
  | .call c =>
    match c.minor, exec c s.fs with
    | some m, .ok (_, fs) => some ({ s with fs := fs }, (fs.lfltab[m]?.map (.called m)).toList)
    | _, _ => none

/-- After `lfsInit` and `lflInit`, with the devices `devs`. -/
structure Started (devs : List Nat) (s : Openers) : Prop where
  nodup : devs.Nodup
  fs : ∃ disk readable, s.fs = { bootLfs disk devs with readable := readable }
  mutex : s.lfMutex = { count := 1 }
  calls : ∀ pid, s.calls pid = none
  users : ∀ pid, s.users pid = none

def machine (devs : List Nat) : Machine Openers OpenAct OpenEvent := ⟨Started devs, step⟩

end Openers

/-! ## Files that are open -/

/-- The files that are open, with the control blocks that their own calls have
left. A device, or a device number, that is given to a second file, and a call
that opens a file other than with `lfsOpen`, break the rules. -/
def apart : Monitor OpenEvent (List (Nat × Lflcblk)) where
  init := []
  next files
    | .opened _ k value f =>
      if ∀ p ∈ files, p.1 ≠ k ∧ (p.2.lfdev : Int) ≠ value then some ((k, f) :: files) else none
    | .failed _ => some files
    | .called k f =>
      let others := files.filter fun p => p.1 ≠ k
      if f.lfstate = .free then some others
      else if ∃ p ∈ files, p.1 = k then some ((k, f) :: others)
      else none

/-- The open files are those of the table, and devices keep their numbers. -/
structure Tracks (devs : List Nat) (files : List (Nat × Lflcblk)) (s : FileSystem) : Prop where
  inUse : ∀ k f, (k, f) ∈ files ↔ InUse s k f
  devs : s.lfltab.map Lflcblk.lfdev = devs

namespace Tracks

variable {devs : List Nat} {files : List (Nat × Lflcblk)} {s s' : FileSystem}

theorem congr (h : Tracks devs files s) (htab : s'.lfltab = s.lfltab) : Tracks devs files s' := by
  refine ⟨?_, ?_⟩
  · intro k f
    unfold InUse
    rw [htab]
    exact h.inUse k f
  · rw [htab]
    exact h.devs

/-- Two devices have two numbers. -/
theorem lfdev_inj (h : Tracks devs files s) (hn : devs.Nodup) {j k : Nat} {f g : Lflcblk}
    (hf : s.lfltab[j]? = some f) (hg : s.lfltab[k]? = some g) (heq : f.lfdev = g.lfdev) : j = k := by
  have hj : devs[j]? = some f.lfdev := by
    rw [← h.devs, List.getElem?_map, hf]
    rfl
  have hk : devs[k]? = some g.lfdev := by
    rw [← h.devs, List.getElem?_map, hg]
    rfl
  have hlt := (List.getElem?_eq_some_iff.mp hj).1
  exact (List.getElem?_inj hlt hn).mp (hj.trans (heq ▸ hk.symm))

/-- Storing a control block with the number of the old one. -/
theorem lfdev_set {tab : List Lflcblk} {k : Nat} {f w : Lflcblk} (hf : tab[k]? = some f)
    (hdev : w.lfdev = f.lfdev) : (tab.set k w).map Lflcblk.lfdev = tab.map Lflcblk.lfdev := by
  have hlt := (List.getElem?_eq_some_iff.mp hf).1
  rw [List.map_set, hdev]
  refine List.ext_getElem? fun j => ?_
  rw [List.getElem?_set]
  by_cases hjk : k = j
  · subst hjk
    rw [if_pos rfl, if_pos (by rwa [List.length_map]), List.getElem?_map, hf]
    rfl
  · rw [if_neg hjk]

/-- **A free device is opened for a file.** -/
theorem opened (h : Tracks devs files s) (hn : devs.Nodup) {k i mbits : Nat} {name : CString}
    {lf : Lflcblk} (pid : Pid) (hlf : s.lfltab[k]? = some lf) (hfree : lf.lfstate = .free)
    (htab : s'.lfltab = s.lfltab.set k (openBlock lf i name mbits)) :
    ∃ files', apart.next files (.opened pid k lf.lfdev (openBlock lf i name mbits)) = some files' ∧
      Tracks devs files' s' := by
  have hlt := (List.getElem?_eq_some_iff.mp hlf).1
  have hnew : ∀ p ∈ files, p.1 ≠ k ∧ (p.2.lfdev : Int) ≠ lf.lfdev := by
    rintro ⟨j, g⟩ hp
    obtain ⟨hg, hused⟩ := (h.inUse j g).mp hp
    have hjk : j ≠ k := by
      rintro rfl
      obtain rfl := Option.some.inj (hg.symm.trans hlf)
      exact LfState.noConfusion (hused.symm.trans hfree)
    refine ⟨hjk, ?_⟩
    intro heq
    exact hjk (h.lfdev_inj hn hg hlf (Int.ofNat_inj.mp heq))
  refine ⟨(k, openBlock lf i name mbits) :: files, if_pos hnew, ?_, ?_⟩
  · intro j g
    rw [List.mem_cons]
    unfold InUse
    rw [htab, List.getElem?_set]
    by_cases hjk : k = j
    · subst hjk
      rw [if_pos rfl, if_pos hlt]
      refine ⟨?_, ?_⟩
      · rintro (heq | hmem)
        · cases heq
          exact ⟨rfl, rfl⟩
        · exact absurd rfl (hnew _ hmem).1
      · rintro ⟨hg, -⟩
        exact .inl (by rw [Option.some.inj hg])
    · rw [if_neg hjk]
      refine ⟨?_, ?_⟩
      · rintro (heq | hmem)
        · cases heq
          exact absurd rfl hjk
        · exact (h.inUse j g).mp hmem
      · intro hg
        exact .inr ((h.inUse j g).mpr hg)
  · rw [htab, lfdev_set hlf (w := openBlock lf i name mbits) rfl]
    exact h.devs

/-- **A call on a file changes that file only.** -/
theorem called (h : Tracks devs files s) {k : Nat} {f w : Lflcblk} (hf : s.lfltab[k]? = some f)
    (hdev : w.lfdev = f.lfdev) (hused : w.lfstate = .used → f.lfstate = .used)
    (htab : s'.lfltab = s.lfltab.set k w) :
    ∃ files', apart.next files (.called k w) = some files' ∧ Tracks devs files' s' := by
  have hlt := (List.getElem?_eq_some_iff.mp hf).1
  have hothers : ∀ j g, j ≠ k →
      ((j, g) ∈ files.filter (fun p => p.1 ≠ k) ↔ InUse s' j g) := by
    intro j g hjk
    unfold InUse
    rw [List.mem_filter, htab, List.getElem?_set_ne (Ne.symm hjk)]
    simp only [ne_eq, hjk, not_false_eq_true, decide_true, and_true]
    exact h.inUse j g
  have hself : ∀ g, (k, g) ∉ files.filter (fun p => p.1 ≠ k) := by
    intro g hmem
    simp at hmem
  have hdevs : s'.lfltab.map Lflcblk.lfdev = devs := by
    rw [htab, lfdev_set hf hdev]
    exact h.devs
  have hat : s'.lfltab[k]? = some w := by
    rw [htab]
    exact List.getElem?_set_self hlt
  change ∃ files', (if w.lfstate = .free then _ else _) = _ ∧ _
  by_cases hfree : w.lfstate = .free
  · rw [if_pos hfree]
    refine ⟨_, rfl, ?_, hdevs⟩
    intro j g
    by_cases hjk : j = k
    · subst hjk
      refine iff_of_false (hself g) ?_
      rintro ⟨hg, hu⟩
      obtain rfl := Option.some.inj (hat.symm.trans hg)
      exact LfState.noConfusion (hfree.symm.trans hu)
    · exact hothers j g hjk
  · have hu : w.lfstate = .used := by
      cases hst : w.lfstate with
      | free => exact absurd hst hfree
      | used => rfl
    have hmem : ∃ p ∈ files, p.1 = k := ⟨(k, f), (h.inUse k f).mpr ⟨hf, hused hu⟩, rfl⟩
    rw [if_neg hfree, if_pos hmem]
    refine ⟨_, rfl, ?_, hdevs⟩
    intro j g
    rw [List.mem_cons]
    by_cases hjk : j = k
    · subst hjk
      refine ⟨?_, ?_⟩
      · rintro (heq | hm)
        · cases heq
          exact ⟨hat, hu⟩
        · exact absurd hm (hself g)
      · rintro ⟨hg, -⟩
        exact .inl (by rw [Option.some.inj (hat.symm.trans hg)])
    · rw [← hothers j g hjk]
      refine ⟨?_, .inr⟩
      rintro (heq | hm)
      · cases heq
        exact absurd rfl hjk
      · exact hm

end Tracks

/-! ## Opening -/

/-- The directory lets the call open its file. -/
def OpenCall.admitted (c : OpenCall) (s : FileSystem) : Bool :=
  match searchDir c.name s.glob.lfDir with
  | none => c.mbits &&& LF_MODE_O = 0 ∧ s.glob.lfDir.lfdNfiles < LF_NUM_DIR_ENT
  | some _ => c.mbits &&& LF_MODE_N = 0

/-- The device that the call has chosen is free. -/
def OpenCall.Vacant (c : OpenCall) (s : FileSystem) : Prop :=
  ∀ f ∈ s.lfltab[c.lfnext]?, f.lfstate = .free

instance (c : OpenCall) (s : FileSystem) : Decidable (c.Vacant s) :=
  inferInstanceAs (Decidable (∀ f ∈ s.lfltab[c.lfnext]?, f.lfstate = .free))

/-- A call is refused and changes nothing, or opens its device. -/
theorem openNamed_cases {c : OpenCall} {s : FileSystem} {lf : Lflcblk}
    (hlf : s.lfltab[c.lfnext]? = some lf) :
    openNamed c.name c.mbits c.lfnext s = (SYSERR, s) ∨
      c.admitted s ∧ ∃ i fs, openNamed c.name c.mbits c.lfnext s = ((lf.lfdev : Int), fs) ∧
        fs.lfltab = s.lfltab.set c.lfnext (openBlock lf i c.name c.mbits) ∧
        fs.glob.lfDirpresent = s.glob.lfDirpresent := by
  unfold openNamed OpenCall.admitted
  cases hdir : searchDir c.name s.glob.lfDir with
  | none =>
    dsimp only
    by_cases hmode : c.mbits &&& LF_MODE_O ≠ 0
    · rw [if_pos hmode]
      exact .inl rfl
    rw [if_neg hmode]
    by_cases hfull : LF_NUM_DIR_ENT ≤ s.glob.lfDir.lfdNfiles
    · rw [if_pos hfull]
      exact .inl rfl
    rw [if_neg hfull, openFile_tab (s := newEntry c.name s) hlf]
    exact .inr ⟨decide_eq_true ⟨not_not.mp hmode, not_le.mp hfull⟩, _, _, rfl, rfl, rfl⟩
  | some i =>
    dsimp only
    by_cases hmode : c.mbits &&& LF_MODE_N ≠ 0
    · rw [if_pos hmode]
      exact .inl rfl
    rw [if_neg hmode, openFile_tab hlf]
    exact .inr ⟨decide_eq_true (not_not.mp hmode), _, _, rfl, rfl, rfl⟩

theorem choose_vacant {name mode : CString} {s : FileSystem} {c : OpenCall}
    (h : choose name mode s = some c) :
    (∃ lf, s.lfltab[c.lfnext]? = some lf ∧ lf.lfstate = .free) ∧ c.reading = false := by
  unfold choose at h
  by_cases hlen : LF_NAME_LEN ≤ name.chars.length
  · rw [if_pos hlen] at h
    cases h
  rw [if_neg hlen] at h
  by_cases hmode : lfgetmode mode = SYSERR
  · rw [if_pos hmode] at h
    cases h
  rw [if_neg hmode] at h
  cases hk : searchTab name s.lfltab 0 none with
  | none =>
    rw [hk] at h
    cases h
  | some lfnext =>
    rw [hk] at h
    cases lfnext with
    | none => cases h
    | some k =>
      cases h
      exact ⟨searchTab_device hk, rfl⟩

namespace Openers

/-- The process holds `lf_mutex`. -/
def Holds (s : Openers) (p : Pid) : Prop :=
  (∃ c, s.calls p = some c ∧ c.reading) ∨ s.users p = some true

/-- **The open files are tracked, and `lf_mutex` has one holder at most.** Before
the directory is in memory no file is open, and only then is it read. -/
structure Good (devs : List Nat) (files : List (Nat × Lflcblk)) (s : Openers) : Prop
    extends Tracks devs files s.fs where
  absent : s.fs.glob.lfDirpresent = false → ∀ f ∈ s.fs.lfltab, f.lfstate = .free
  ok : s.lfMutex.Ok
  units : s.lfMutex.units ≤ 1
  alone : ∀ p, s.Holds p → s.lfMutex.units = 0 ∧ ∀ q, s.Holds q → q = p
  reading : ∀ p c, s.calls p = some c → c.reading → s.fs.glob.lfDirpresent = false
  chosen : ∀ p c, s.calls p = some c → c.lfnext < s.fs.lfltab.length
  other : ∀ p c, s.calls p = some c → s.users p = none

/-- The same with `lf_mutex` taken by the process. -/
structure Inside (devs : List Nat) (files : List (Nat × Lflcblk)) (pid : Pid) (s : Openers) : Prop
    extends Tracks devs files s.fs where
  absent : s.fs.glob.lfDirpresent = false → ∀ f ∈ s.fs.lfltab, f.lfstate = .free
  ok : s.lfMutex.Ok
  units : s.lfMutex.units = 0
  alone : ∀ q, s.Holds q → q = pid
  user : s.users pid = none
  chosen : ∀ p c, s.calls p = some c → c.lfnext < s.fs.lfltab.length
  other : ∀ p c, s.calls p = some c → s.users p = none

variable {devs : List Nat} {files : List (Nat × Lflcblk)} {s s' : Openers} {pid : Pid}
  {c : OpenCall} {es : List OpenEvent}

/-- The monitor follows a step. -/
def Follows (devs : List Nat) (files : List (Nat × Lflcblk)) (r : Openers × List OpenEvent) : Prop :=
  ∃ files', Machine.feed apart files r.2 = some files' ∧ Good devs files' r.1

/-- **A process that gets `lf_mutex` is the only one inside.** -/
theorem Good.takes (h : Good devs files s) (hu : s.users pid = none) {m : Sema}
    (hm : s.lfMutex.Takes pid m) : Inside devs files pid { s with lfMutex := m } := by
  have hpos := hm.units_pos h.ok
  have hunits := hm.units
  have hle := h.units
  refine ⟨h.toTracks, h.absent, hm.ok h.ok, ?_, ?_, hu, h.chosen, h.other⟩
  · change m.units = 0
    omega
  · intro q hq
    have hzero := (h.alone q hq).1
    omega

/-- One that reads the directory is inside, too. -/
theorem Good.inside (h : Good devs files s) (hc : s.calls pid = some c) (hr : c.reading) :
    Inside devs files pid s := by
  obtain ⟨hzero, halone⟩ := h.alone pid (.inl ⟨c, hc, hr⟩)
  exact ⟨h.toTracks, h.absent, h.ok, hzero, halone, h.other pid c hc, h.chosen, h.other⟩

/-- When it gives `lf_mutex` back, nobody holds it. -/
theorem Inside.leave (h : Inside devs files pid s) {fs : FileSystem} {files' : List (Nat × Lflcblk)}
    (ht : Tracks devs files' fs) (hlen : fs.lfltab.length = s.fs.lfltab.length)
    (habsent : fs.glob.lfDirpresent = false → ∀ f ∈ fs.lfltab, f.lfstate = .free) :
    Good devs files'
      { s with
        fs := fs
        lfMutex := s.lfMutex.signal
        calls := Function.update s.calls pid none } := by
  have hcalls : ∀ p c, Function.update s.calls pid none p = some c → p ≠ pid ∧ s.calls p = some c := by
    intro p c hc
    by_cases hp : p = pid
    · rw [hp, Function.update_self] at hc
      cases hc
    · rw [Function.update_of_ne hp] at hc
      exact ⟨hp, hc⟩
  have hnone : ∀ p c, Function.update s.calls pid none p = some c → ¬ c.reading := by
    intro p c hc hr
    obtain ⟨hp, hc⟩ := hcalls p c hc
    exact hp (h.alone p (.inl ⟨c, hc, hr⟩))
  have hunits := h.units
  refine ⟨ht, habsent, Sema.signal_ok h.ok, ?_, ?_, ?_, ?_, ?_⟩
  · change s.lfMutex.signal.units ≤ 1
    rw [Sema.signal_units h.ok]
    omega
  · rintro p (⟨c, hc, hr⟩ | hu)
    · exact absurd hr (hnone p c hc)
    · rw [h.alone p (.inr hu), h.user] at hu
      cases hu
  · intro p c hc hr
    exact absurd hr (hnone p c hc)
  · intro p c hc
    rw [hlen]
    exact h.chosen p c (hcalls p c hc).2
  · intro p c hc
    exact h.other p c (hcalls p c hc).2

/-- **A call inside opens its device, if it is vacant, and leaves.** -/
theorem Inside.finish (h : Inside devs files pid s) (hn : devs.Nodup)
    (hlt : c.lfnext < s.fs.lfltab.length)
    (hvac : ∀ fs, loadDir s.fs = some fs → c.admitted fs → c.Vacant fs) :
    Follows devs files (s.finish pid c) := by
  unfold Openers.finish
  dsimp only
  cases hload : loadDir s.fs with
  | none => exact ⟨files, rfl, h.leave h.toTracks rfl h.absent⟩
  | some fs =>
    obtain ⟨htab, hp, -⟩ := loadDir_cases hload
    have ht : Tracks devs files fs := h.toTracks.congr htab
    have hlen : fs.lfltab.length = s.fs.lfltab.length := by rw [htab]
    obtain ⟨lf, hlf⟩ : ∃ lf, fs.lfltab[c.lfnext]? = some lf :=
      ⟨_, List.getElem?_eq_getElem (hlen ▸ hlt)⟩
    dsimp only
    rcases openNamed_cases hlf with heq | ⟨hadm, i, fs', heq, htab', hp'⟩
    · rw [heq, if_pos rfl]
      exact ⟨files, rfl, h.leave ht hlen fun habs => absurd (hp.symm.trans habs) Bool.noConfusion⟩
    · have hne : ¬ (lf.lfdev : Int) = SYSERR := by
        change ¬ (lf.lfdev : Int) = -1
        omega
      have hat : fs'.lfltab[c.lfnext]? = some (openBlock lf i c.name c.mbits) := by
        rw [htab']
        exact List.getElem?_set_self (hlen ▸ hlt)
      obtain ⟨files', hnext, ht'⟩ := ht.opened hn pid hlf (hvac fs hload hadm lf hlf) htab'
      rw [heq, if_neg hne]
      dsimp only
      rw [hat]
      refine ⟨files', hnext, h.leave ht' ?_ ?_⟩
      · rw [htab', List.length_set, hlen]
      · intro habs
        exact absurd ((hp'.trans hp).symm.trans habs) Bool.noConfusion

/-- **A call that has got `lf_mutex`** opens its device, or begins to read. -/
theorem Inside.enter (h : Inside devs files pid s) (hn : devs.Nodup)
    (hlt : c.lfnext < s.fs.lfltab.length)
    (hvac : s.fs.glob.lfDirpresent → c.admitted s.fs → c.Vacant s.fs) :
    Follows devs files (s.enter pid c) := by
  unfold Openers.enter
  by_cases hp : s.fs.glob.lfDirpresent = true
  · rw [if_pos hp]
    refine h.finish hn hlt ?_
    intro fs hload hadm
    have hsame : loadDir s.fs = some s.fs := if_pos hp
    obtain rfl := Option.some.inj (hsame.symm.trans hload)
    exact hvac hp hadm
  · rw [if_neg hp]
    have habs : s.fs.glob.lfDirpresent = false := Bool.not_eq_true _ ▸ hp
    have hcalls : ∀ p c', Function.update s.calls pid (some { c with reading := true }) p = some c' →
        p = pid ∧ c'.lfnext = c.lfnext ∨ p ≠ pid ∧ s.calls p = some c' := by
      intro p c' hc
      by_cases hpp : p = pid
      · rw [hpp, Function.update_self] at hc
        cases hc
        exact .inl ⟨hpp, rfl⟩
      · rw [Function.update_of_ne hpp] at hc
        exact .inr ⟨hpp, hc⟩
    have halone : ∀ q, Holds
        { s with calls := Function.update s.calls pid (some { c with reading := true }) } q → q = pid := by
      rintro q (⟨c', hc, hr⟩ | hu)
      · rcases hcalls q c' hc with ⟨hq, -⟩ | ⟨-, hc⟩
        · exact hq
        · exact h.alone q (.inl ⟨c', hc, hr⟩)
      · exact h.alone q (.inr hu)
    refine ⟨files, rfl, h.toTracks, h.absent, h.ok, ?_, ?_, fun _ _ _ _ => habs, ?_, ?_⟩
    · change s.lfMutex.units ≤ 1
      rw [h.units]
      exact Int.one_nonneg
    · intro p hhold
      refine ⟨h.units, ?_⟩
      intro q hq
      rw [halone p hhold]
      exact halone q hq
    · intro p c' hc
      rcases hcalls p c' hc with ⟨-, heq⟩ | ⟨-, hc⟩
      · rw [heq]
        exact hlt
      · exact h.chosen p c' hc
    · intro p c' hc
      rcases hcalls p c' hc with ⟨rfl, -⟩ | ⟨-, hc⟩
      · exact h.user
      · exact h.other p c' hc

/-- A call that waits. -/
theorem Good.waits (h : Good devs files s) (hw : ¬ (s.lfMutex.wait pid).1)
    {calls : Pid → Option OpenCall} {users : Pid → Option Bool}
    (hold : ∀ q, Holds { s with calls := calls, users := users } q → s.Holds q)
    (hreading : ∀ p c, calls p = some c → c.reading → ∃ c, s.calls p = some c ∧ c.reading)
    (hchosen : ∀ p c, calls p = some c → c.lfnext < s.fs.lfltab.length)
    (hother : ∀ p c, calls p = some c → users p = none) :
    Good devs files
      { s with lfMutex := (s.lfMutex.wait pid).2, calls := calls, users := users } := by
  have hunits := Sema.wait_units s.lfMutex pid
  rw [if_neg hw] at hunits
  refine ⟨h.toTracks, h.absent, Sema.wait_ok h.ok pid, ?_, ?_, ?_, hchosen, hother⟩
  · change (s.lfMutex.wait pid).2.units ≤ 1
    rw [hunits]
    exact h.units
  · intro p hp
    obtain ⟨hzero, halone⟩ := h.alone p (hold p hp)
    exact ⟨hunits.trans hzero, fun q hq => halone q (hold q hq)⟩
  · intro p c hc hr
    obtain ⟨c', hc', hr'⟩ := hreading p c hc hr
    exact h.reading p c' hc' hr'

/-- **`lfsOpen` up to where it waits, reads or returns.** -/
theorem Good.start (h : Good devs files s) (hn : devs.Nodup) (name mode : CString)
    (hc : s.calls pid = none) (hu : s.users pid = none) :
    Follows devs files (s.start pid name mode) := by
  unfold Openers.start
  cases hch : choose name mode s.fs with
  | none => exact ⟨files, rfl, h⟩
  | some c =>
    obtain ⟨⟨lf, hlf, hfree⟩, hr⟩ := choose_vacant hch
    have hlt := (List.getElem?_eq_some_iff.mp hlf).1
    dsimp only
    by_cases hw : (s.lfMutex.wait pid).1 = true
    · rw [if_pos hw]
      refine (h.takes hu (.wait hw)).enter hn hlt ?_
      -- the device has been chosen in this step
      intro _ _ f hf
      obtain rfl := Option.some.inj (hlf.symm.trans hf)
      exact hfree
    · rw [if_neg hw]
      have hcalls : ∀ p c', Function.update s.calls pid (some c) p = some c' →
          p = pid ∧ c' = c ∨ s.calls p = some c' := by
        intro p c' hc'
        by_cases hp : p = pid
        · rw [hp, Function.update_self] at hc'
          exact .inl ⟨hp, (Option.some.inj hc').symm⟩
        · rw [Function.update_of_ne hp] at hc'
          exact .inr hc'
      refine ⟨files, rfl, h.waits hw ?_ ?_ ?_ ?_⟩
      · rintro q (⟨c', hc', hr'⟩ | hq)
        · rcases hcalls q c' hc' with ⟨-, rfl⟩ | hc'
          · rw [hr] at hr'
            cases hr'
          · exact .inl ⟨c', hc', hr'⟩
        · exact .inr hq
      · intro p c' hc' hr'
        rcases hcalls p c' hc' with ⟨-, rfl⟩ | hc'
        · rw [hr] at hr'
          cases hr'
        · exact ⟨c', hc', hr'⟩
      · intro p c' hc'
        rcases hcalls p c' hc' with ⟨-, rfl⟩ | hc'
        · exact hlt
        · exact h.chosen p c' hc'
      · intro p c' hc'
        rcases hcalls p c' hc' with ⟨rfl, -⟩ | hc'
        · exact hu
        · exact h.other p c' hc'

/-! ## Calls on files -/

/-- A call on a file takes `lf_mutex`, or gives it back. -/
theorem Good.user (h : Good devs files s) (hc : s.calls pid = none) {m : Sema} {u : Option Bool}
    (hok : m.Ok) (hunits : m.units ≤ 1)
    (halone : ∀ p, Holds { s with users := Function.update s.users pid u } p →
      m.units = 0 ∧ ∀ q, Holds { s with users := Function.update s.users pid u } q → q = p) :
    Good devs files { s with lfMutex := m, users := Function.update s.users pid u } := by
  refine ⟨h.toTracks, h.absent, hok, hunits, halone, h.reading, h.chosen, ?_⟩
  intro p c hp
  have hne : p ≠ pid := by
    rintro rfl
    rw [hc] at hp
    cases hp
  change Function.update s.users pid u p = none
  rw [Function.update_of_ne hne]
  exact h.other p c hp

/-- Who holds `lf_mutex` when the process of a call on a file changes. -/
theorem holds_user {u : Option Bool} {q : Pid}
    (hq : Holds { s with users := Function.update s.users pid u } q) :
    q = pid ∧ u = some true ∨ s.Holds q := by
  rcases hq with ⟨c, hc, hr⟩ | hq
  · exact .inr (.inl ⟨c, hc, hr⟩)
  · by_cases hp : q = pid
    · subst hp
      change Function.update s.users q u q = some true at hq
      rw [Function.update_self] at hq
      exact .inl ⟨rfl, hq⟩
    · change Function.update s.users pid u q = some true at hq
      rw [Function.update_of_ne hp] at hq
      exact .inr (.inr hq)

theorem Good.userTakes (h : Good devs files s) (hc : s.calls pid = none) {m : Sema}
    (hm : s.lfMutex.Takes pid m) :
    Good devs files { s with lfMutex := m, users := Function.update s.users pid (some true) } := by
  have hpos := hm.units_pos h.ok
  have hunits := hm.units
  have hle := h.units
  have hnobody : ∀ q, ¬ s.Holds q := by
    intro q hq
    have hzero := (h.alone q hq).1
    omega
  refine h.user hc (hm.ok h.ok) (by omega) ?_
  intro p hp
  refine ⟨by omega, ?_⟩
  intro q hq
  rcases holds_user hp with ⟨rfl, -⟩ | hp
  · rcases holds_user hq with ⟨rfl, -⟩ | hq
    · rfl
    · exact absurd hq (hnobody q)
  · exact absurd hp (hnobody p)

theorem call_follows {m : Nat} {k : Call} {fs : FileSystem} {r : Reply} (h : Good devs files s)
    (hm : k.minor = some m) (hex : exec k s.fs = .ok (r, fs)) :
    Follows devs files ({ s with fs := fs }, (fs.lfltab[m]?.map (.called m)).toList) := by
  obtain ⟨call, hcall, hkeeps⟩ := exec_onFile hm
  rw [hcall] at hex
  rcases onFile_cases hex with ⟨hnone, rfl⟩ | ⟨f, w, hf, hw, rfl⟩
  · rw [hnone]
    exact ⟨files, rfl, h⟩
  · have hlt := (List.getElem?_eq_some_iff.mp hf).1
    have hat : (s.fs.lfltab.set m w.file)[m]? = some w.file := List.getElem?_set_self hlt
    have hlen : (s.fs.lfltab.set m w.file).length = s.fs.lfltab.length := List.length_set
    obtain ⟨u, hu, hclose⟩ := hkeeps _ _ _ hw
    -- the call may close the file, and has no other say in its state
    have hfile : w.file.lfdev = f.lfdev ∧ (w.file.lfstate = .used → f.lfstate = .used) ∧
        w.glob.lfDirpresent = s.fs.glob.lfDirpresent := by
      rcases hclose with rfl | rfl
      · exact ⟨hu.handle.dev, fun hst => hu.handle.state ▸ hst, hu.present⟩
      · exact ⟨hu.handle.dev, fun hst => LfState.noConfusion hst, hu.present⟩
    obtain ⟨hdev, hused, hpresent⟩ := hfile
    obtain ⟨files', hnext, ht⟩ := @Tracks.called _ _ _
      { s.fs with disk := w.disk, glob := w.glob, lfltab := s.fs.lfltab.set m w.file } h.toTracks
      _ _ _ hf hdev hused rfl
    dsimp only
    rw [hat]
    refine ⟨files', hnext, ht, ?_, h.ok, h.units, h.alone, ?_, ?_, h.other⟩
    · intro habs g hg
      have hfree := h.absent (hpresent.symm.trans habs)
      rcases List.mem_or_eq_of_mem_set hg with hg | rfl
      · exact hfree g hg
      · cases hst : w.file.lfstate with
        | free => rfl
        | used =>
          have := hused hst
          rw [hfree f (List.mem_of_getElem? hf)] at this
          cases this
    · intro p c hc hr
      exact hpresent.trans (h.reading p c hc hr)
    · intro p c hc
      change c.lfnext < (s.fs.lfltab.set m w.file).length
      rw [hlen]
      exact h.chosen p c hc

/-! ## Runs -/

/-- A step other than one in which a call gets `lf_mutex` after waiting, and
opens a device that is not free any more. -/
def Sound (s : Openers) : OpenAct → Prop
  | .woken pid =>
    ∀ c ∈ s.calls pid, s.fs.glob.lfDirpresent → c.admitted s.fs → c.Vacant s.fs
  | _ => True

instance (s : Openers) : ∀ a : OpenAct, Decidable (Sound s a)
  | .woken pid => inferInstanceAs (Decidable (∀ c ∈ s.calls pid,
      s.fs.glob.lfDirpresent → c.admitted s.fs → c.Vacant s.fs))
  | .open .. | .loaded _ | .lock _ | .lockWoken _ | .unlock _ | .call _ =>
    inferInstanceAs (Decidable True)

/-- **One step keeps the open files apart.** -/
theorem step_follows (h : Good devs files s) (hn : devs.Nodup) {a : OpenAct} (hok : Sound s a)
    (hst : s.step a = some (s', es)) : Follows devs files (s', es) := by
  cases a with
  | «open» pid name mode =>
    change (if (s.calls pid).isNone ∧ s.users pid = none then _ else _) = _ at hst
    by_cases hg : (s.calls pid).isNone ∧ s.users pid = none
    · rw [if_pos hg] at hst
      rw [← Option.some.inj hst]
      exact h.start hn name mode (Option.isNone_iff_eq_none.mp hg.1) hg.2
    · rw [if_neg hg] at hst
      cases hst
  | woken pid =>
    cases hc : s.calls pid with
    | none =>
      simp only [step, hc] at hst
      cases hst
    | some c =>
      simp only [step, hc] at hst
      by_cases hg : pid ∈ s.lfMutex.released ∧ ¬ c.reading
      · rw [if_pos hg] at hst
        rw [← Option.some.inj hst]
        exact (h.takes (h.other pid c hc) (.resume hg.1)).enter hn (h.chosen pid c hc) (hok c hc)
      · rw [if_neg hg] at hst
        cases hst
  | loaded pid =>
    cases hc : s.calls pid with
    | none =>
      simp only [step, hc] at hst
      cases hst
    | some c =>
      simp only [step, hc] at hst
      by_cases hr : c.reading = true
      · rw [if_pos hr] at hst
        rw [← Option.some.inj hst]
        refine (h.inside hc hr).finish hn (h.chosen pid c hc) ?_
        -- no file has been opened before the directory is in memory
        intro fs hload _ f hf
        obtain ⟨htab, -, -⟩ := loadDir_cases hload
        rw [htab] at hf
        exact h.absent (h.reading pid c hc hr) f (List.mem_of_getElem? hf)
      · rw [if_neg hr] at hst
        cases hst
  | lock pid =>
    change (if (s.calls pid).isNone ∧ s.users pid = none then _ else _) = _ at hst
    by_cases hg : (s.calls pid).isNone ∧ s.users pid = none
    · rw [if_pos hg] at hst
      cases hst
      have hc := Option.isNone_iff_eq_none.mp hg.1
      refine ⟨files, rfl, ?_⟩
      by_cases hw : (s.lfMutex.wait pid).1 = true
      · rw [hw]
        exact h.userTakes hc (.wait hw)
      · rw [Bool.eq_false_iff.mpr hw]
        have hunits := Sema.wait_units s.lfMutex pid
        rw [if_neg hw] at hunits
        have hold : ∀ q, Holds { s with users := Function.update s.users pid (some false) } q →
            s.Holds q := by
          intro q hq
          rcases holds_user hq with ⟨-, hu⟩ | hq
          · cases hu
          · exact hq
        refine h.user hc (Sema.wait_ok h.ok pid) (hunits ▸ h.units) ?_
        intro p hp
        obtain ⟨hzero, halone⟩ := h.alone p (hold p hp)
        exact ⟨hunits.trans hzero, fun q hq => halone q (hold q hq)⟩
    · rw [if_neg hg] at hst
      cases hst
  | lockWoken pid =>
    change (if s.users pid = some false ∧ pid ∈ s.lfMutex.released then _ else _) = _ at hst
    by_cases hg : s.users pid = some false ∧ pid ∈ s.lfMutex.released
    · rw [if_pos hg] at hst
      cases hst
      refine ⟨files, rfl, h.userTakes ?_ (.resume hg.2)⟩
      cases hc : s.calls pid with
      | none => rfl
      | some c =>
        rw [h.other pid c hc] at hg
        cases hg.1
    · rw [if_neg hg] at hst
      cases hst
  | unlock pid =>
    change (if s.users pid = some true then _ else _) = _ at hst
    by_cases hg : s.users pid = some true
    · rw [if_pos hg] at hst
      cases hst
      obtain ⟨hzero, halone⟩ := h.alone pid (.inr hg)
      have hcalls : s.calls pid = none := by
        cases hc : s.calls pid with
        | none => rfl
        | some c =>
          rw [h.other pid c hc] at hg
          cases hg
      have hsignal := Sema.signal_units h.ok
      refine ⟨files, rfl, h.user hcalls (Sema.signal_ok h.ok) (by omega) ?_⟩
      intro p hp
      rcases holds_user hp with ⟨-, hu⟩ | hp'
      · cases hu
      · -- the one that gives it back was the only one
        obtain rfl := halone p hp'
        rcases hp with ⟨c, hc, -⟩ | hu
        · rw [hcalls] at hc
          cases hc
        · change Function.update s.users p none p = some true at hu
          rw [Function.update_self] at hu
          cases hu
    · rw [if_neg hg] at hst
      cases hst
  | call k =>
    unfold step at hst
    cases hm : k.minor with
    | none =>
      simp only [hm] at hst
      cases hst
    | some m =>
      cases hex : exec k s.fs with
      | error e =>
        simp only [hm, hex] at hst
        cases hst
      | ok p =>
        obtain ⟨r, fs⟩ := p
        simp only [hm, hex] at hst
        rw [← Option.some.inj hst]
        exact call_follows h hm hex

theorem Started.good (h : Started devs s) : Good devs [] s := by
  obtain ⟨disk, readable, hfs⟩ := h.fs
  have hfree := (bootLfs_handles disk devs readable).absent rfl
  rw [← hfs] at hfree
  have hnone : ∀ p, ¬ s.Holds p := by
    rintro p (⟨c, hc, -⟩ | hu)
    · rw [h.calls p] at hc
      cases hc
    · rw [h.users p] at hu
      cases hu
  have hcalls : ∀ p c, s.calls p = some c → False := by
    intro p c hc
    rw [h.calls p] at hc
    cases hc
  refine ⟨⟨?_, ?_⟩, fun _ => hfree, ?_, ?_, ?_, ?_, ?_, ?_⟩
  · intro k f
    refine iff_of_false List.not_mem_nil ?_
    rintro ⟨hf, hused⟩
    exact LfState.noConfusion (hused.symm.trans (hfree f (List.mem_of_getElem? hf)))
  · rw [hfs]
    change (devs.map lflInit).map Lflcblk.lfdev = devs
    rw [List.map_map]
    exact List.map_id devs
  · rw [h.mutex]
    rfl
  · rw [h.mutex]
    exact le_rfl
  · intro p hp
    exact absurd hp (hnone p)
  · intro p c hc
    exact (hcalls p c hc).elim
  · intro p c hc
    exact (hcalls p c hc).elim
  · intro p c hc
    exact (hcalls p c hc).elim

/-- Each open file has a device and a device number of its own, and the table
has for it what its own calls have left. -/
def Apart (tr : List OpenEvent) (s : Openers) : Prop :=
  ∃ files, apart.run tr = some files ∧ ∀ k f, (k, f) ∈ files ↔ InUse s.fs k f

/-- **Open files are kept apart** in every run in which a call that has waited
for `lf_mutex` finds the device that it has chosen still free. -/
theorem opens_apart_without_slip {tr : List OpenEvent} (r : (machine devs).Run Sound tr s) :
    Apart tr s := by
  have hn : devs.Nodup := by
    induction r with
    | start h => exact h.nodup
    | step _ _ _ ih => exact ih
  have hacc : ∃ files, apart.run tr = some files ∧ Good devs files s := by
    refine r.accepted (R := fun files s => Good devs files s) ?_ ?_
    · intro s h
      exact h.good
    · intro files s s' a es h hok hst
      exact step_follows h hn hok hst
  obtain ⟨files, hrun, hgood⟩ := hacc
  exact ⟨files, hrun, hgood.inUse⟩

/-! ## Two openers -/

/-- A freshly formatted disk, and six devices. -/
def boot : Openers where
  fs := bootLfs sampleDisk (List.range 6)
  lfMutex := { count := 1 }
  calls := fun _ => none
  users := fun _ => none

theorem boot_started : Started (List.range 6) boot :=
  ⟨List.nodup_range, ⟨sampleDisk, true, rfl⟩, rfl, fun _ => rfl, fun _ => rfl⟩

/-- The file name `"b"`. -/
def fileB : CString := ⟨[98], by decide⟩

theorem opens_apart_without_slip_two :
    ∃ tr s, (machine (List.range 6)).exec Sound boot []
        [.open 1 fileA anyMode, .loaded 1, .open 2 fileB anyMode] = some (s, tr) ∧
      tr.length = 2 ∧ Apart tr s := by
  have hrun : ((machine (List.range 6)).exec Sound boot []
      [.open 1 fileA anyMode, .loaded 1, .open 2 fileB anyMode]).any
      (fun r => r.2.length == 2) := by
    decide +kernel
  obtain ⟨⟨s, tr⟩, hst, hlen⟩ := (Option.any_eq_true _ _).mp hrun
  exact ⟨tr, s, hst, of_decide_eq_true hlen,
    opens_apart_without_slip (Machine.exec_run (.start boot_started) hst)⟩

/-- **Two calls for two files get one device**: the second one chooses while the
first one reads the directory, and does not look again. -/
theorem opens_not_apart :
    ¬ ∀ devs tr s, (machine devs).Run (fun _ _ => True) tr s → Apart tr s := by
  intro hall
  have hrun : ((machine (List.range 6)).exec (fun _ _ => True) boot []
      [.open 1 fileA anyMode, .open 2 fileB anyMode, .loaded 1, .woken 2]).any
      (fun r => (apart.run r.2).isNone) := by
    decide +kernel
  obtain ⟨⟨s, tr⟩, hst, hrej⟩ := (Option.any_eq_true _ _).mp hrun
  obtain ⟨files, hrun, -⟩ := hall _ tr s (Machine.exec_run (.start boot_started) hst)
  rw [hrun] at hrej
  cases hrej

end Openers

end Xinu.Lfs
