import XinuCMips.Nam.Names

/-!
# What `nammap` finds

A name of the name space stands for the name that is reached by replacing prefixes until
another device than the name space takes it. `nammap` turns its loop for this, but every
turn starts from the original name: a name that is mapped back into the name space is
never resolved.

* `mount_builds`    — the tables that `mount` builds;
* `nammapLoop_back` — a name that is mapped back stays where it is;
* `nammap_maps_iff` — when `nammap` finds the right name.
-/

namespace Xinu.Nam

open CChars

variable {nametab : Nametab} {namdev : Int} {name : List UInt8} {e : Nmentry}

/-- **Every table of at most `NNAMES` entries is built by `mount`.** -/
theorem mount_builds (entries : Nametab) (h : entries.length ≤ NNAMES) :
    entries.foldl (fun tab e => (mount e.npfx e.nreplace e.ndevice tab).2) [] = entries := by
  induction entries using List.reverseRecOn with
  | nil => rfl
  | append_singleton entries e ih =>
    rw [List.length_append, List.length_singleton] at h
    rw [List.foldl_append, ih (by omega), List.foldl_cons, List.foldl_nil, mount]
    have hpfx := e.pfx_fits
    have hrepl := e.replace_fits
    have hok : ¬(namlen e.npfx.1 NM_PRELEN = SYSERR ∨ namlen e.nreplace.1 NM_REPLLEN = SYSERR ∨
        isbaddev e.ndevice) := by
      rw [namlen_eq e.npfx.2, if_pos hpfx, namlen_eq e.nreplace.2, if_pos hrepl]
      rintro (herr | herr | hbad)
      · exact absurd herr (by unfold SYSERR; omega)
      · exact absurd herr (by unfold SYSERR; omega)
      · exact e.device hbad
    rw [dif_neg hok, if_neg (by omega)]

-- ---------------------------------------------------------------------------
-- What a name stands for
-- ---------------------------------------------------------------------------

/-- Prefixes are replaced, at most so many times, until a device other than the name space
is reached. -/
def resolve (nametab : Nametab) (namdev : Int) : Nat → List UInt8 → Option (Int × List UInt8)
  | 0, _ => none
  | n + 1, name =>
    match firstMatch nametab name with
    | none => none
    | some e =>
      if ¬Fits (replaced e name) then none
      else if e.ndevice = namdev then resolve nametab namdev n (replaced e name)
      else some (e.ndevice, replaced e name)

/-- The device and the name that `nammap` should find. -/
def target (nametab : Nametab) (namdev : Int) (name : List UInt8) : Option (Int × List UInt8) :=
  if Fits name then resolve nametab namdev nametab.length name else none

/-- The buffer starts with this string. -/
def Holds (buf : Nat → UInt8) (str : List UInt8) : Prop :=
  ∀ i ch, (str ++ [NULLCH])[i]? = some ch → buf i = ch

/-- Whatever the buffer held, `nammap` finds the right device and name. -/
def Maps (nametab : Nametab) (namdev : Int) (name : List UInt8) : Prop :=
  ∀ newname : Nat → UInt8,
    match target nametab namdev name with
    | none => (nammap name newname namdev nametab).1 = SYSERR
    | some (newdev, str) =>
      (nammap name newname namdev nametab).1 = newdev ∧
        Holds (nammap name newname namdev nametab).2 str

/-- The first replacement decides: it is right when it leads to another device, and when
it leads nowhere. -/
def OneRound (nametab : Nametab) (namdev : Int) (name : List UInt8) : Prop :=
  ∀ e, Fits name → firstMatch nametab name = some e →
    if e.ndevice = namdev then resolve nametab namdev nametab.length name = none else Short name

-- ---------------------------------------------------------------------------
-- What the loop does
-- ---------------------------------------------------------------------------

theorem namcpy_eq (name : List UInt8) (buflen : Nat) : namcpy name buflen =
    if name.length + 1 ≤ buflen then some name else none := by
  induction buflen generalizing name with
  | zero => rw [namcpy, if_neg (Nat.not_succ_le_zero _)]
  | succ buflen ih =>
    cases name with
    | nil => exact (if_pos (Nat.succ_le_succ (Nat.zero_le buflen))).symm
    | cons ch name =>
      rw [namcpy, ih, List.length_cons]
      by_cases hle : name.length + 1 ≤ buflen
      · rw [if_pos hle, if_pos (Nat.succ_le_succ hle)]
        rfl
      · rw [if_neg hle, if_neg fun h => hle (Nat.le_of_succ_le_succ h)]
        rfl

/-- **The loop does not go on from the new name**: the next turn is like the first. -/
theorem nammapLoop_back (h : (namrepl name nametab).1 = namdev) (n : Nat) (buf : Nat → UInt8) :
    (nammapLoop nametab namdev name n buf).1 = SYSERR := by
  induction n generalizing buf with
  | zero => rfl
  | succ n ih =>
    rw [nammapLoop, if_neg (not_not.mpr h)]
    exact ih _

/-- The first turn that leads to another device is the last one. -/
theorem nammapLoop_away (h : (namrepl name nametab).1 ≠ namdev) (n : Nat) (buf : Nat → UInt8) :
    nammapLoop nametab namdev name (n + 1) buf =
      ((namrepl name nametab).1, overlay (namrepl name nametab).2 buf) := by
  rw [nammapLoop, if_pos h]

/-- Without a match there is no name. -/
theorem nammapLoop_none (h : firstMatch nametab name = none) (n : Nat) (buf : Nat → UInt8) :
    (nammapLoop nametab namdev name n buf).1 = SYSERR := by
  have heq := namrepl_eq nametab name
  rw [h] at heq
  by_cases hdev : (namrepl name nametab).1 = namdev
  · exact nammapLoop_back hdev n buf
  · cases n with
    | zero => rfl
    | succ n =>
      rw [nammapLoop_away hdev, heq]

theorem nammap_eq (hfits : Fits name) (buf : Nat → UInt8) :
    nammap name buf namdev nametab = nammapLoop nametab namdev name nametab.length buf := by
  unfold Fits at hfits
  rw [nammap, namcpy_eq, if_pos hfits]

theorem length_of_match (h : firstMatch nametab name = some e) :
    ∃ n, nametab.length = n + 1 :=
  Nat.exists_eq_add_one.mpr (List.length_pos_of_mem (List.mem_of_find?_eq_some h))

theorem overlay_holds (buf : Nat → UInt8) (str : List UInt8) :
    Holds (overlay (str ++ [NULLCH]) buf) str := by
  intro i ch hi
  rw [overlay, hi]
  rfl

-- ---------------------------------------------------------------------------
-- When the right name is found
-- ---------------------------------------------------------------------------

/-- A name stands for a name of a device. -/
theorem resolve_device {n : Nat} {newdev : Int} {str : List UInt8}
    (h : resolve nametab namdev n name = some (newdev, str)) : ¬isbaddev newdev := by
  induction n generalizing name with
  | zero => cases h
  | succ n ih =>
    rw [resolve] at h
    cases hm : firstMatch nametab name with
    | none =>
      rw [hm] at h
      cases h
    | some e =>
      rw [hm] at h
      dsimp only at h
      split_ifs at h with hnew hdev
      · exact ih h
      · obtain ⟨rfl, -⟩ := Prod.mk.inj (Option.some.inj h)
        exact e.device

/-- The target of a name that leads to another device at once. -/
theorem target_away (hfits : Fits name) (hmatch : firstMatch nametab name = some e)
    (hdev : e.ndevice ≠ namdev) : target nametab namdev name =
      if Fits (replaced e name) then some (e.ndevice, replaced e name) else none := by
  obtain ⟨n, hlen⟩ := length_of_match hmatch
  rw [target, if_pos hfits, hlen, resolve, hmatch]
  dsimp only
  rw [if_neg hdev]
  by_cases hnew : Fits (replaced e name)
  · rw [if_neg (not_not.mpr hnew), if_pos hnew]
  · rw [if_pos hnew, if_neg hnew]

/-- A name that leads back into the name space is not found, whatever it stands for. -/
theorem nammap_back (hnul : NULLCH ∉ name) (hfits : Fits name)
    (hmatch : firstMatch nametab name = some e) (hdev : e.ndevice = namdev) (buf : Nat → UInt8) :
    (nammap name buf namdev nametab).1 = SYSERR := by
  rw [nammap_eq hfits]
  by_cases hback : (namrepl name nametab).1 = namdev
  · exact nammapLoop_back hback _ buf
  · -- the new name is too long
    obtain ⟨n, hlen⟩ := length_of_match hmatch
    have heq := namrepl_eq nametab name
    rw [hmatch] at heq
    dsimp only at heq
    rw [hlen, nammapLoop_away hback]
    by_cases hshort : Short name
    · rw [place_short hnul hshort (firstMatch_some hmatch)] at heq
      by_cases hnew : Fits (replaced e name)
      · rw [if_pos hnew] at heq
        rw [heq] at hback
        exact absurd hdev hback
      · rw [heq, if_neg hnew]
    · rw [place_long hnul hfits hshort] at heq
      rw [heq] at hback
      exact absurd hdev hback

/-- A short name that leads to another device is found. -/
theorem nammap_short (hnul : NULLCH ∉ name) (hfits : Fits name) (hshort : Short name)
    (hmatch : firstMatch nametab name = some e) (hdev : e.ndevice ≠ namdev) :
    Maps nametab namdev name := by
  intro buf
  obtain ⟨n, hlen⟩ := length_of_match hmatch
  have heq := namrepl_eq nametab name
  rw [hmatch] at heq
  dsimp only at heq
  rw [place_short hnul hshort (firstMatch_some hmatch)] at heq
  rw [target_away hfits hmatch hdev, nammap_eq hfits, hlen]
  by_cases hnew : Fits (replaced e name)
  · rw [if_pos hnew] at heq ⊢
    have haway : (namrepl name nametab).1 ≠ namdev := by rw [heq]; exact hdev
    dsimp only
    rw [nammapLoop_away haway, heq]
    exact ⟨rfl, overlay_holds buf _⟩
  · rw [if_neg hnew] at heq ⊢
    by_cases hback : (namrepl name nametab).1 = namdev
    · exact nammapLoop_back hback _ buf
    · dsimp only
      rw [nammapLoop_away hback, heq]

/-- Of a long name that leads to another device, the buffer holds no name. -/
theorem nammap_long (hnul : NULLCH ∉ name) (hfits : Fits name) (hlong : ¬Short name)
    (hmatch : firstMatch nametab name = some e) (hdev : e.ndevice ≠ namdev) :
    ¬Maps nametab namdev name := by
  intro h
  -- a buffer without a null character behind the replacement
  have hbuf := h fun _ => 1
  obtain ⟨n, hlen⟩ := length_of_match hmatch
  have heq := namrepl_eq nametab name
  rw [hmatch] at heq
  dsimp only at heq
  rw [place_long hnul hfits hlong] at heq
  have haway : (namrepl name nametab).1 ≠ namdev := by rw [heq]; exact hdev
  rw [target_away hfits hmatch hdev, nammap_eq hfits, hlen, nammapLoop_away haway, heq] at hbuf
  by_cases hnew : Fits (replaced e name)
  · rw [if_pos hnew] at hbuf
    have hnull := hbuf.2 (replaced e name).length NULLCH (by simp)
    dsimp only [overlay] at hnull
    rcases hget : e.nreplace.1[(replaced e name).length]? with _ | ch
    · rw [hget] at hnull
      exact absurd hnull (by decide)
    · rw [hget] at hnull
      obtain rfl : ch = NULLCH := hnull
      exact e.nreplace.2 (List.mem_of_getElem? hget)
  · rw [if_neg hnew] at hbuf
    exact e.device (.inl (lt_of_eq_of_lt hbuf (by decide)))

/-- For every table, every name and every name space device, `nammap` finds the right
device and name exactly when the first replacement decides, for a short name. -/
theorem nammap_maps_iff (nametab : Nametab) (namdev : Int) (name : CString) :
    Maps nametab namdev name.1 ↔ OneRound nametab namdev name.1 := by
  obtain ⟨name, hnul⟩ := name
  dsimp only
  by_cases hfits : Fits name
  · cases hm : firstMatch nametab name with
    | none =>
      refine iff_of_true (fun buf => ?_) fun e _ he => ?_
      · have htarget : target nametab namdev name = none := by
          rw [target, if_pos hfits]
          cases nametab.length with
          | zero => rfl
          | succ n => rw [resolve, hm]
        rw [htarget, nammap_eq hfits]
        exact nammapLoop_none hm _ buf
      · cases hm.symm.trans he
    | some e =>
      have hone : OneRound nametab namdev name ↔
          if e.ndevice = namdev then resolve nametab namdev nametab.length name = none
          else Short name :=
        ⟨fun h => h e hfits hm, fun h a _ ha => by rwa [← Option.some.inj (hm.symm.trans ha)]⟩
      rw [hone]
      by_cases hdev : e.ndevice = namdev
      · rw [if_pos hdev]
        have hback := nammap_back hnul hfits hm hdev
        have htarget : target nametab namdev name = resolve nametab namdev nametab.length name :=
          if_pos hfits
        constructor
        · intro h
          by_contra hsome
          obtain ⟨⟨newdev, str⟩, hres⟩ := Option.ne_none_iff_exists'.mp hsome
          have hbuf := h fun _ => 0
          rw [htarget, hres] at hbuf
          exact resolve_device hres (.inl (lt_of_eq_of_lt (hbuf.1.symm.trans (hback _)) (by decide)))
        · intro h buf
          rw [htarget, h]
          exact hback buf
      · rw [if_neg hdev]
        by_cases hshort : Short name
        · exact iff_of_true (nammap_short hnul hfits hshort hm hdev) hshort
        · exact iff_of_false (nammap_long hnul hfits hshort hm hdev) hshort
  · refine iff_of_true (fun buf => ?_) fun e he => absurd he hfits
    have htarget : target nametab namdev name = none := if_neg hfits
    unfold Fits at hfits
    rw [htarget, nammap, namcpy_eq, if_neg hfits]

/-- `/a` leads to `/b` of the name space, device 7, and `/b` to `c` of device 5. -/
def twoRounds : Nametab :=
  [{ npfx := ⟨[47, 97], by decide⟩, nreplace := ⟨[47, 98], by decide⟩, ndevice := 7
     pfx_fits := by decide, replace_fits := by decide, device := by decide },
   { npfx := ⟨[47, 98], by decide⟩, nreplace := ⟨[99], by decide⟩, ndevice := 5
     pfx_fits := by decide, replace_fits := by decide, device := anyName.device }]

/-- The name `/a` stands for `c` of device 5, and `nammap` reports an error. -/
theorem nammap_not_maps : ¬∀ (nametab : Nametab) (namdev : Int) (name : CString),
    Maps nametab namdev name.1 := by
  intro h
  have hbuf := h twoRounds 7 ⟨[47, 97], by decide⟩ fun _ => 0
  have htarget : target twoRounds 7 [47, 97] = some (5, [99]) := by decide +kernel
  dsimp only at hbuf
  rw [htarget] at hbuf
  have hdev := hbuf.1
  revert hdev
  decide +kernel

end Xinu.Nam
