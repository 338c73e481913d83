import XinuCMips.Lfs.Files

/-!
# What a call on a file leaves alone

A call on an open file changes at most the size and the index list in its own
directory entry. The names of the files, their number, the entries of the
other files, and the identity of the control block stay as they are, for
every disk and every state of the caches.

* `lfsetup_keeps` — positioning, with everything it calls;
* `exec_onFile`   — every call but `lfsOpen` is made on one file, which it keeps
  or closes.
-/

namespace Xinu.Lfs

/-- A result of a computation in two steps comes from results of both. -/
theorem bind_eq_ok {ε α β : Type} {x : Except ε α} {f : α → Except ε β} {b : β}
    (h : (x >>= f) = .ok b) : ∃ a, x = .ok a ∧ f a = .ok b := by
  cases x with
  | error e => cases h
  | ok a => exact ⟨a, rfl, h⟩

/-- The two control blocks belong to the same open file. -/
structure SameHandle (f f' : Lflcblk) : Prop where
  state : f'.lfstate = f.lfstate
  dev : f'.lfdev = f.lfdev
  dirptr : f'.lfdirptr = f.lfdirptr
  name : f'.lfname = f.lfname
  mode : f'.lfmode = f.lfmode

/-- `v'` comes from `v` by a call on the file: same handle, same directory
but for the size and the index list in the entry of the file. -/
structure Keeps (v v' : View) : Prop where
  handle : SameHandle v.file v'.file
  present : v'.glob.lfDirpresent = v.glob.lfDirpresent
  nfiles : v'.glob.lfDir.lfdNfiles = v.glob.lfDir.lfdNfiles
  padding : v'.glob.lfDir.padding = v.glob.lfDir.padding
  files : ∃ e, e.ldName = v.ldptr.ldName ∧
    v'.glob.lfDir.lfdFiles = v.glob.lfDir.lfdFiles.set v.file.lfdirptr e

/-- Storing an element where it already is changes nothing. -/
private theorem set_getD_self (l : List Ldentry) (i : Nat) (d : Ldentry) :
    l.set i (l.getD i d) = l := by
  apply List.ext_getElem?
  intro k
  rw [List.getElem?_set]
  split
  · subst k
    split
    · rename_i h
      rw [List.getD_eq_getElem?_getD, List.getElem?_eq_getElem h]
      rfl
    · rename_i h
      exact (List.getElem?_eq_none (by omega)).symm
  · rfl

/-- A step that leaves directory entries, number of files and handle alone. -/
theorem Keeps.of_eq {v v' : View} (hh : SameHandle v.file v'.file)
    (hp : v'.glob.lfDirpresent = v.glob.lfDirpresent)
    (hn : v'.glob.lfDir.lfdNfiles = v.glob.lfDir.lfdNfiles)
    (hpad : v'.glob.lfDir.padding = v.glob.lfDir.padding)
    (hf : v'.glob.lfDir.lfdFiles = v.glob.lfDir.lfdFiles) : Keeps v v' := by
  refine ⟨hh, hp, hn, hpad, v.ldptr, rfl, ?_⟩
  rw [hf]
  exact (set_getD_self _ _ _).symm

theorem SameHandle.refl (f : Lflcblk) : SameHandle f f := ⟨rfl, rfl, rfl, rfl, rfl⟩

theorem Keeps.refl (v : View) : Keeps v v :=
  Keeps.of_eq (SameHandle.refl _) rfl rfl rfl rfl

theorem SameHandle.trans {f g h : Lflcblk} (h₁ : SameHandle f g) (h₂ : SameHandle g h) :
    SameHandle f h where
  state := h₂.state.trans h₁.state
  dev := h₂.dev.trans h₁.dev
  dirptr := h₂.dirptr.trans h₁.dirptr
  name := h₂.name.trans h₁.name
  mode := h₂.mode.trans h₁.mode

/-- The name in the entry of the file. -/
theorem Keeps.ldName {v v' : View} (h : Keeps v v') : v'.ldptr.ldName = v.ldptr.ldName := by
  obtain ⟨e, he, hfs⟩ := h.files
  unfold View.ldptr at he ⊢
  rw [h.handle.dirptr, hfs, List.getD_eq_getElem?_getD, List.getElem?_set]
  split
  · split
    · exact he
    · rename_i hlen
      rw [List.getD_eq_getElem?_getD, List.getElem?_eq_none (by omega)]
  · rename_i hne
    exact absurd rfl hne

theorem Keeps.trans {u v w : View} (h₁ : Keeps u v) (h₂ : Keeps v w) : Keeps u w := by
  obtain ⟨e₁, he₁, hf₁⟩ := h₁.files
  obtain ⟨e₂, he₂, hf₂⟩ := h₂.files
  refine ⟨h₁.handle.trans h₂.handle, h₂.present.trans h₁.present, h₂.nfiles.trans h₁.nfiles,
    h₂.padding.trans h₁.padding, e₂, he₂.trans h₁.ldName, ?_⟩
  rw [hf₂, hf₁, h₁.handle.dirptr, List.set_set]

/-- The names of all files. -/
theorem Keeps.names {v v' : View} (h : Keeps v v') :
    v'.glob.lfDir.lfdFiles.map Ldentry.ldName = v.glob.lfDir.lfdFiles.map Ldentry.ldName := by
  obtain ⟨e, he, hfs⟩ := h.files
  have hself := congrArg (List.map Ldentry.ldName)
    (set_getD_self v.glob.lfDir.lfdFiles v.file.lfdirptr ⟨0, none, []⟩)
  rw [List.map_set] at hself
  rw [hfs, List.map_set, he]
  exact hself

/-! ## The parts of a call -/

section Parts

variable (v : View)

/-- A step that changes disk, caches and flags only. -/
theorem Keeps.step {w : View} (hh : SameHandle v.file w.file)
    (hd : w.glob.lfDir = v.glob.lfDir) (hp : w.glob.lfDirpresent = v.glob.lfDirpresent) :
    Keeps v w := by
  refine Keeps.of_eq hh hp ?_ ?_ ?_ <;> rw [hd]

theorem flushDir_keeps : Keeps v (flushDir v) := by
  unfold flushDir
  split
  · exact Keeps.step v (SameHandle.refl _) rfl rfl
  · exact Keeps.refl v

theorem flushDblock_keeps : Keeps v (flushDblock v) := by
  unfold flushDblock
  split
  · exact Keeps.step v ⟨rfl, rfl, rfl, rfl, rfl⟩ rfl rfl
  · exact Keeps.refl v

theorem flushIblock_keeps : Keeps v (flushIblock v) := by
  unfold flushIblock
  split
  · exact Keeps.step v ⟨rfl, rfl, rfl, rfl, rfl⟩ rfl rfl
  · exact Keeps.refl v

theorem lfflush_keeps : Keeps v (lfflush v).2 := by
  unfold lfflush
  split
  · exact Keeps.refl v
  · exact (flushDir_keeps v).trans ((flushDblock_keeps _).trans (flushIblock_keeps _))

theorem writeBack_keeps : Keeps v (writeBack v) := by
  unfold writeBack
  split
  · exact lfflush_keeps v
  · exact Keeps.refl v

theorem lfdbfree_keeps (unused : List UInt8) (n : Nat) : Keeps v (lfdbfree unused v n) :=
  Keeps.of_eq (SameHandle.refl _) rfl rfl rfl rfl

theorem getIblock_keeps (n : Nat) : Keeps v (getIblock v n) :=
  Keeps.step v ⟨rfl, rfl, rfl, rfl, rfl⟩ rfl rfl

theorem dropDblock_keeps : Keeps v (dropDblock v) :=
  Keeps.step v ⟨rfl, rfl, rfl, rfl, rfl⟩ rfl rfl

end Parts

variable {v w : View}

theorem lfiballoc_keeps {n : Nat} (h : lfiballoc v = .ok (n, w)) : Keeps v w := by
  unfold lfiballoc at h
  split at h
  · cases h
  · obtain ⟨rfl, rfl⟩ := Prod.mk.inj (Except.ok.inj h)
    exact Keeps.of_eq (SameHandle.refl _) rfl rfl rfl rfl

theorem lfdballoc_keeps {n : Nat} (h : lfdballoc v = .ok (n, w)) : Keeps v w := by
  unfold lfdballoc at h
  split at h
  · cases h
  · obtain ⟨rfl, rfl⟩ := Prod.mk.inj (Except.ok.inj h)
    exact Keeps.of_eq ⟨rfl, rfl, rfl, rfl, rfl⟩ rfl rfl rfl rfl

theorem startFile_keeps (v : View) (n : Nat) : Keeps v (startFile v n) :=
  ⟨⟨rfl, rfl, rfl, rfl, rfl⟩, rfl, rfl, rfl, { v.ldptr with ldIlist := some n }, rfl, rfl⟩

theorem firstIblock_keeps (h : firstIblock v = .ok w) : Keeps v w := by
  unfold firstIblock at h
  split at h
  · obtain ⟨⟨n, u⟩, hu, hw⟩ := bind_eq_ok h
    obtain rfl := Except.ok.inj hw
    exact (lfiballoc_keeps hu).trans (startFile_keeps u n)
  · obtain rfl := Except.ok.inj h
    exact getIblock_keeps v _
  · split at h
    · split at h
      · cases h
      · obtain rfl := Except.ok.inj h
        exact getIblock_keeps v _
    · obtain rfl := Except.ok.inj h
      exact Keeps.refl v

theorem nextIblock_keeps (h : nextIblock v = .ok w) : Keeps v w := by
  unfold nextIblock at h
  split at h
  · obtain ⟨⟨n, u⟩, hu, hw⟩ := bind_eq_ok h
    obtain rfl := Except.ok.inj hw
    exact (lfiballoc_keeps hu).trans (Keeps.step u ⟨rfl, rfl, rfl, rfl, rfl⟩ rfl rfl)
  · obtain rfl := Except.ok.inj h
    exact (getIblock_keeps v _).trans (dropDblock_keeps _)

theorem coverLoop_keeps {fuel : Nat} (h : coverLoop fuel v = .ok w) : Keeps v w := by
  induction fuel generalizing v with
  | zero =>
    unfold coverLoop at h
    split at h
    · cases h
    · obtain rfl := Except.ok.inj h
      exact Keeps.refl v
  | succ fuel ih =>
    unfold coverLoop at h
    split at h
    · obtain ⟨u, hu, hw⟩ := bind_eq_ok h
      exact (nextIblock_keeps hu).trans (ih hw)
    · obtain rfl := Except.ok.inj h
      exact Keeps.refl v

theorem fetchDblock_keeps {i : Nat} (h : fetchDblock v i = .ok w) : Keeps v w := by
  unfold fetchDblock at h
  split at h
  · obtain ⟨⟨n, u⟩, hu, hw⟩ := bind_eq_ok h
    obtain rfl := Except.ok.inj hw
    exact (lfdballoc_keeps hu).trans (Keeps.step u ⟨rfl, rfl, rfl, rfl, rfl⟩ rfl rfl)
  · obtain rfl := Except.ok.inj h
    split
    · exact Keeps.step v ⟨rfl, rfl, rfl, rfl, rfl⟩ rfl rfl
    · exact Keeps.refl v

/-- **Positioning keeps names and handles.** -/
theorem lfsetup_keeps (h : lfsetup v = .ok w) : Keeps v w := by
  unfold lfsetup at h
  obtain ⟨u, hu, h⟩ := bind_eq_ok h
  obtain ⟨t, ht, h⟩ := bind_eq_ok h
  obtain ⟨s, hs, h⟩ := bind_eq_ok h
  obtain rfl := Except.ok.inj h
  refine (writeBack_keeps v).trans <| (firstIblock_keeps hu).trans <|
    (coverLoop_keeps ht).trans <| (fetchDblock_keeps hs).trans ?_
  exact Keeps.step s ⟨rfl, rfl, rfl, rfl, rfl⟩ rfl rfl

theorem ensureBlock_keeps (h : ensureBlock v = .ok w) : Keeps v w := by
  unfold ensureBlock at h
  split at h
  · exact lfsetup_keeps h
  · obtain rfl := Except.ok.inj h
    exact Keeps.refl v

/-! ## The calls -/

theorem growFile_keeps (v : View) : Keeps v (growFile v) := by
  unfold growFile
  split
  · refine ⟨SameHandle.refl _, rfl, rfl, rfl, ?_⟩
    exact ⟨{ v.ldptr with ldSize := (v.ldptr.ldSize + 1) % 2 ^ 32 }, rfl, rfl⟩
  · exact Keeps.refl v

theorem lflPutc_keeps {ch : UInt8} {r : Int} (h : lflPutc ch v = .ok (r, w)) : Keeps v w := by
  unfold lflPutc at h
  split at h
  · obtain ⟨-, rfl⟩ := Prod.mk.inj (Except.ok.inj h)
    exact Keeps.refl v
  · split at h
    · obtain ⟨-, rfl⟩ := Prod.mk.inj (Except.ok.inj h)
      exact Keeps.refl v
    · obtain ⟨u, hu, hw⟩ := bind_eq_ok h
      obtain ⟨-, rfl⟩ := Prod.mk.inj (Except.ok.inj hw)
      refine (ensureBlock_keeps hu).trans ((growFile_keeps u).trans ?_)
      exact Keeps.step _ ⟨rfl, rfl, rfl, rfl, rfl⟩ rfl rfl

theorem lflGetc_keeps {r : Int} (h : lflGetc v = .ok (r, w)) : Keeps v w := by
  unfold lflGetc at h
  split at h
  · obtain ⟨-, rfl⟩ := Prod.mk.inj (Except.ok.inj h)
    exact Keeps.refl v
  · split at h
    · obtain ⟨-, rfl⟩ := Prod.mk.inj (Except.ok.inj h)
      exact Keeps.refl v
    · obtain ⟨u, hu, hw⟩ := bind_eq_ok h
      obtain ⟨-, rfl⟩ := Prod.mk.inj (Except.ok.inj hw)
      exact (ensureBlock_keeps hu).trans (Keeps.step u ⟨rfl, rfl, rfl, rfl, rfl⟩ rfl rfl)

theorem lflWriteLoop_keeps {buff : List UInt8} {r : Bool}
    (h : lflWriteLoop buff v = .ok (r, w)) : Keeps v w := by
  induction buff generalizing v with
  | nil =>
    obtain ⟨-, rfl⟩ := Prod.mk.inj (Except.ok.inj h)
    exact Keeps.refl v
  | cons ch buff ih =>
    unfold lflWriteLoop at h
    obtain ⟨⟨r', u⟩, hu, hw⟩ := bind_eq_ok h
    dsimp only at hw
    split at hw
    · obtain ⟨-, rfl⟩ := Prod.mk.inj (Except.ok.inj hw)
      exact lflPutc_keeps hu
    · exact (lflPutc_keeps hu).trans (ih hw)

theorem lflReadLoop_keeps {n : Nat} {buff : List UInt8} {r : Reply}
    (h : lflReadLoop n buff v = .ok (r, w)) : Keeps v w := by
  induction n generalizing v buff with
  | zero =>
    obtain ⟨-, rfl⟩ := Prod.mk.inj (Except.ok.inj h)
    exact Keeps.refl v
  | succ n ih =>
    unfold lflReadLoop at h
    obtain ⟨⟨r', u⟩, hu, hw⟩ := bind_eq_ok h
    dsimp only at hw
    split at hw
    · obtain ⟨-, rfl⟩ := Prod.mk.inj (Except.ok.inj hw)
      exact lflGetc_keeps hu
    · split at hw
      · obtain ⟨-, rfl⟩ := Prod.mk.inj (Except.ok.inj hw)
        exact lflGetc_keeps hu
      · exact (lflGetc_keeps hu).trans (ih hw)

theorem freeDblocks_keeps (unused : List UInt8) (dba : List (Option Nat)) (v : View) :
    Keeps v (freeDblocks unused dba v) := by
  induction dba generalizing v with
  | nil => exact Keeps.refl v
  | cons b dba ih =>
    cases b with
    | none => exact ih v
    | some n => exact (lfdbfree_keeps v unused n).trans (ih _)

/-- The walk of `lftruncate` ends where the free list starts. -/
theorem truncLoop_end (unused : List UInt8) (ifree : Option Nat) (fuel : Nat) (v : View) :
    truncLoop unused ifree fuel ifree v = .ok v := by
  unfold truncLoop
  exact if_pos rfl

/-- One turn of the walk. -/
theorem truncLoop_step {unused : List UInt8} {ifree : Option Nat} {fuel n : Nat} {v : View}
    (hne : some n ≠ ifree) :
    truncLoop unused ifree (fuel + 1) (some n) v =
      truncLoop unused ifree fuel (linkBefore ifree (lfibget v.disk n))
        (disposeIblock unused ifree v n) := by
  conv_lhs => unfold truncLoop
  exact if_neg hne

theorem truncLoop_keeps {unused : List UInt8} {ifree : Option Nat} {fuel : Nat}
    {nextib : Option Nat} (h : truncLoop unused ifree fuel nextib v = .ok w) : Keeps v w := by
  induction fuel generalizing v nextib with
  | zero =>
    unfold truncLoop at h
    split at h
    · obtain rfl := Except.ok.inj h
      exact Keeps.refl v
    · cases nextib <;> cases h
  | succ fuel ih =>
    by_cases hend : nextib = ifree
    · rw [hend, truncLoop_end] at h
      obtain rfl := Except.ok.inj h
      exact Keeps.refl v
    · cases nextib with
      | none =>
        unfold truncLoop at h
        rw [if_neg hend] at h
        cases h
      | some n =>
        rw [truncLoop_step hend] at h
        refine Keeps.trans ?_ (ih h)
        exact (freeDblocks_keeps unused _ v).trans (Keeps.step _ (SameHandle.refl _) rfl rfl)

theorem disposeBlocks_keeps {unused : List UInt8} (h : disposeBlocks unused v = .ok w) :
    Keeps v w := by
  unfold disposeBlocks at h
  obtain ⟨u, hu, hw⟩ := bind_eq_ok h
  obtain rfl := Except.ok.inj hw
  have hclear : Keeps v (clearEntry v) :=
    ⟨SameHandle.refl _, rfl, rfl, rfl, { v.ldptr with ldIlist := none, ldSize := 0 }, rfl, rfl⟩
  exact hclear.trans ((truncLoop_keeps hu).trans (Keeps.of_eq (SameHandle.refl _) rfl rfl rfl rfl))

theorem lftruncate_keeps {unused : List UInt8} {r : Int}
    (h : lftruncate unused v = .ok (r, w)) : Keeps v w := by
  unfold lftruncate at h
  split at h
  · obtain ⟨-, rfl⟩ := Prod.mk.inj (Except.ok.inj h)
    exact Keeps.refl v
  · obtain ⟨u, hu, hw⟩ := bind_eq_ok h
    obtain ⟨-, rfl⟩ := Prod.mk.inj (Except.ok.inj hw)
    refine (writeBack_keeps v).trans (Keeps.trans ?_ (disposeBlocks_keeps hu))
    exact Keeps.step _ ⟨rfl, rfl, rfl, rfl, rfl⟩ rfl rfl

/-! ## Calls -/

theorem lflSeek_keeps (offset : Nat) (v : View) : Keeps v (lflSeek offset v).2 := by
  unfold lflSeek
  split
  · exact Keeps.refl v
  · split
    · exact Keeps.refl v
    · exact Keeps.step v ⟨rfl, rfl, rfl, rfl, rfl⟩ rfl rfl

/-- A call keeps the file, and may close it. -/
def KeepsOrCloses (v w : View) : Prop :=
  ∃ u, Keeps v u ∧ (w = u ∨ w = { u with file := { u.file with lfstate := .free } })

theorem Keeps.orCloses {v w : View} (h : Keeps v w) : KeepsOrCloses v w := ⟨w, h, .inl rfl⟩

theorem flushAll_keeps (v : View) : Keeps v (flushAll v) := by
  unfold flushAll
  split
  · exact lfflush_keeps v
  · exact Keeps.refl v

theorem lflClose_keepsOrCloses (v : View) : KeepsOrCloses v (lflClose v).2 := by
  unfold lflClose
  split
  · exact (Keeps.refl v).orCloses
  · exact ⟨flushAll v, flushAll_keeps v, .inr rfl⟩

/-- A call that stores nothing for the caller. -/
theorem plain_keepsOrCloses {call : View → Except Fault (Int × View)}
    (hcall : ∀ v r w, call v = .ok (r, w) → KeepsOrCloses v w) {v w : View} {r : Reply}
    (h : plain call v = .ok (r, w)) : KeepsOrCloses v w := by
  unfold plain at h
  obtain ⟨⟨r', u⟩, hu, h⟩ := bind_eq_ok h
  obtain ⟨-, rfl⟩ := Prod.mk.inj (Except.ok.inj h)
  exact hcall _ _ _ hu

/-- The device that a call is made on. -/
def Call.minor : Call → Option Nat
  | .open .. => none
  | .putc m _ | .write m .. | .getc m | .read m _ | .seek m _ | .control m .. | .flush m
  | .close m => some m

/-- **Every call but `lfsOpen` is made on one file**, which it keeps or closes. -/
theorem exec_onFile {c : Call} {m : Nat} (hm : c.minor = some m) :
    ∃ call, (∀ s, exec c s = onFile m call s) ∧
      ∀ v r w, call v = .ok (r, w) → KeepsOrCloses v w := by
  cases c with
  | «open» name mode => cases hm
  | putc m ch =>
    cases hm
    refine ⟨_, fun s => rfl, fun v r w hw => plain_keepsOrCloses (fun v r w h => ?_) hw⟩
    exact (lflPutc_keeps h).orCloses
  | write m buff count =>
    cases hm
    refine ⟨_, fun s => rfl, fun v r w hw => plain_keepsOrCloses (fun v r w h => ?_) hw⟩
    unfold lflWrite at h
    split at h
    · obtain ⟨-, rfl⟩ := Prod.mk.inj (Except.ok.inj h)
      exact (Keeps.refl v).orCloses
    · obtain ⟨⟨b, u⟩, hu, h⟩ := bind_eq_ok h
      obtain ⟨-, rfl⟩ := Prod.mk.inj (Except.ok.inj h)
      exact (lflWriteLoop_keeps hu).orCloses
  | getc m =>
    cases hm
    refine ⟨_, fun s => rfl, fun v r w hw => plain_keepsOrCloses (fun v r w h => ?_) hw⟩
    exact (lflGetc_keeps h).orCloses
  | read m count =>
    cases hm
    refine ⟨_, fun s => rfl, fun v r w hw => ?_⟩
    unfold lflRead at hw
    split at hw
    · obtain ⟨-, rfl⟩ := Prod.mk.inj (Except.ok.inj hw)
      exact (Keeps.refl v).orCloses
    · exact (lflReadLoop_keeps hw).orCloses
  | seek m offset =>
    cases hm
    refine ⟨_, fun s => rfl, fun v r w hw => plain_keepsOrCloses (fun v r w h => ?_) hw⟩
    rw [show w = (lflSeek offset v).2 from (congrArg Prod.snd (Except.ok.inj h)).symm]
    exact (lflSeek_keeps offset v).orCloses
  | control m func unused =>
    cases hm
    refine ⟨_, fun s => rfl, fun v r w hw => plain_keepsOrCloses (fun v r w h => ?_) hw⟩
    unfold lflControl at h
    split at h
    · obtain ⟨-, rfl⟩ := Prod.mk.inj (Except.ok.inj h)
      exact (Keeps.refl v).orCloses
    · split at h
      · exact (lftruncate_keeps h).orCloses
      · obtain ⟨-, rfl⟩ := Prod.mk.inj (Except.ok.inj h)
        exact (Keeps.refl v).orCloses
  | flush m =>
    cases hm
    refine ⟨_, fun s => rfl, fun v r w hw => plain_keepsOrCloses (fun v r w h => ?_) hw⟩
    rw [show w = (lfflush v).2 from (congrArg Prod.snd (Except.ok.inj h)).symm]
    exact (lfflush_keeps v).orCloses
  | close m =>
    cases hm
    refine ⟨_, fun s => rfl, fun v r w hw => plain_keepsOrCloses (fun v r w h => ?_) hw⟩
    rw [show w = (lflClose v).2 from (congrArg Prod.snd (Except.ok.inj h)).symm]
    exact lflClose_keepsOrCloses v

/-- What a call does to the table: it stores the control block of its file. -/
theorem onFile_cases {m : Nat} {call : View → Except Fault (Reply × View)} {s s' : FileSystem}
    {r : Reply} (h : onFile m call s = .ok (r, s')) :
    (s.lfltab[m]? = none ∧ s' = s) ∨
      ∃ f w, s.lfltab[m]? = some f ∧ call ⟨s.disk, s.glob, f⟩ = .ok (r, w) ∧
        s' = { s with disk := w.disk, glob := w.glob, lfltab := s.lfltab.set m w.file } := by
  unfold onFile at h
  split at h
  · rename_i hnone
    obtain ⟨-, rfl⟩ := Prod.mk.inj (Except.ok.inj h)
    exact .inl ⟨hnone, rfl⟩
  · rename_i f hf
    obtain ⟨⟨r', w⟩, hw, h⟩ := bind_eq_ok h
    obtain ⟨rfl, rfl⟩ := Prod.mk.inj (Except.ok.inj h)
    exact .inr ⟨f, w, hf, hw, rfl⟩

end Xinu.Lfs
