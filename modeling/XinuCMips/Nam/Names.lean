import XinuCMips.Kernel.Table
import XinuCMips.Lib.CChars

/-!
# The name space: `mount`, `namrepl`, `nammap`

A table of entries says which prefix of a name is replaced by which string, and the
device that takes the new name. `namrepl` replaces the first prefix that matches. It
keeps the length of the name in a `char`, which a name of 127 characters overflows:
then nothing of the name behind the prefix is copied, not even the null character.

`nammap` calls `namrepl` again as long as the device is the name space itself, and
always for the same name.

* `namrepl_eq`           — the first entry that matches decides;
* `namrepl_replaces_iff` — when `namrepl` writes the right name.
-/

namespace Xinu.Nam

open CChars

def NM_PRELEN : Nat := 64
def NM_REPLLEN : Nat := 96
def NM_MAXLEN : Nat := 256
def NNAMES : Nat := 40
def NDEVS : Int := 8

def isbaddev (f : Int) : Prop := f < 0 ∨ NDEVS ≤ f

instance (f : Int) : Decidable (isbaddev f) := inferInstanceAs (Decidable (_ ∨ _))

/-- `namlen`: the length with the null character. -/
def namlen (name : List UInt8) (maxlen : Nat) : Int :=
  match lengthLoop maxlen 0 name with
  | none => SYSERR
  | some n => n

theorem namlen_eq {name : List UInt8} (h : NULLCH ∉ name) (maxlen : Nat) :
    namlen name maxlen = if name.length + 1 ≤ maxlen then ((name.length + 1 : Nat) : Int) else SYSERR := by
  unfold namlen
  rw [lengthLoop_eq h, Nat.zero_add]
  split
  · next hnone => rw [if_neg (by simpa using hnone)]
  · next n hsome =>
    by_cases hle : name.length + 1 ≤ maxlen
    · rw [if_pos hle] at hsome ⊢
      rw [← Option.some.inj hsome]
    · rw [if_neg hle] at hsome
      cases hsome

theorem namlen_ne {name : List UInt8} (h : NULLCH ∉ name) {maxlen : Nat}
    (hlen : namlen name maxlen ≠ SYSERR) : name.length + 1 ≤ maxlen := by
  rw [namlen_eq h] at hlen
  by_contra hle
  exact hlen (if_neg hle)

/-- `struct nmentry`, as `mount` fills it. -/
structure Nmentry where
  /-- `nprefix` -/
  npfx : CString
  nreplace : CString
  ndevice : Int
  pfx_fits : npfx.1.length + 1 ≤ NM_PRELEN
  replace_fits : nreplace.1.length + 1 ≤ NM_REPLLEN
  device : ¬isbaddev ndevice

/-- `nametab`, with `nnames` for its length. -/
abbrev Nametab := List Nmentry

/-- `mount`: add a mapping to the name space. -/
def mount (pfx replace : CString) (device : Int) (nametab : Nametab) : Int × Nametab :=
  if h : namlen pfx.1 NM_PRELEN = SYSERR ∨ namlen replace.1 NM_REPLLEN = SYSERR ∨ isbaddev device then
    (SYSERR, nametab)
  else if NNAMES ≤ nametab.length then (SYSERR, nametab)
  else
    (OK, nametab ++ [{
      npfx := pfx
      nreplace := replace
      ndevice := device
      pfx_fits := namlen_ne pfx.2 (not_or.mp h).1
      replace_fits := namlen_ne replace.2 (not_or.mp (not_or.mp h).2).1
      device := (not_or.mp (not_or.mp h).2).2 }])

-- ---------------------------------------------------------------------------
-- Replacing
-- ---------------------------------------------------------------------------

/-- `(char) x`. -/
def int8 (x : Int) : Int := x.bmod (2 ^ 8)

/-- `namrepl` when an entry matches: `plen` characters of its prefix, and `optr` behind
them. The characters are those that are written to `newname`. -/
def place (name : List UInt8) (namptr : Nmentry) (optr : List UInt8) (plen : Nat) :
    Int × List UInt8 :=
  let olen := int8 (namlen name NM_MAXLEN)
  let rlen := namlen namptr.nreplace.1 NM_MAXLEN - 1
  let remain := olen - plen
  if rlen + remain > NM_MAXLEN then (SYSERR, [])
  else
    (namptr.ndevice, copyChars rlen.toNat namptr.nreplace.1 ++ copyChars remain.toNat optr)

/-- `namrepl`. -/
def namrepl (name : List UInt8) : Nametab → Int × List UInt8
  | [] => (SYSERR, [])
  | namptr :: nametab =>
    let (pptr, optr, plen) := compare namptr.npfx.1 name 0
    if pptr ≠ [] then namrepl name nametab else place name namptr optr plen

-- ---------------------------------------------------------------------------
-- Mapping
-- ---------------------------------------------------------------------------

/-- `namcpy`: the copy, if its null character comes in time. -/
def namcpy (oldname : List UInt8) : Nat → Option (List UInt8)
  | 0 => none
  | buflen + 1 =>
    match oldname with
    | [] => some []
    | ch :: oldname => (namcpy oldname buflen).map (ch :: ·)

/-- The characters are written to the start of a buffer. -/
def overlay (chars : List UInt8) (buf : Nat → UInt8) : Nat → UInt8 :=
  fun i => (chars[i]?).getD (buf i)

/-- The loop of `nammap`, for so many turns. -/
def nammapLoop (nametab : Nametab) (namdev : Int) (tmpname : List UInt8) :
    Nat → (Nat → UInt8) → Int × (Nat → UInt8)
  | 0, newname => (SYSERR, newname)
  | n + 1, newname =>
    let r := namrepl tmpname nametab
    let newname := overlay r.2 newname
    if r.1 ≠ namdev then (r.1, newname) else nammapLoop nametab namdev tmpname n newname

/-- `nammap`: map a name to a new name and a new device. -/
def nammap (name : List UInt8) (newname : Nat → UInt8) (namdev : Int) (nametab : Nametab) :
    Int × (Nat → UInt8) :=
  match namcpy name NM_MAXLEN with
  | none => (SYSERR, newname)
  | some tmpname => nammapLoop nametab namdev tmpname nametab.length newname

-- ---------------------------------------------------------------------------
-- What a replacement is
-- ---------------------------------------------------------------------------

/-- The first entry whose prefix the name has. -/
def firstMatch (nametab : Nametab) (name : List UInt8) : Option Nmentry :=
  nametab.find? fun e => e.npfx.1 <+: name

/-- The replacement, followed by the rest of the name. -/
def replaced (e : Nmentry) (name : List UInt8) : List UInt8 :=
  e.nreplace.1 ++ name.drop e.npfx.1.length

/-- A name with its null character fits the buffers. -/
def Fits (name : List UInt8) : Prop := name.length + 1 ≤ NM_MAXLEN

instance (name : List UInt8) : Decidable (Fits name) := inferInstanceAs (Decidable (_ ≤ _))

abbrev Name := { name : CString // Fits name.1 }

/-- `namrepl` writes the new name with its null character, if that fits; otherwise it
writes nothing and fails. -/
structure Replaces (nametab : Nametab) (name : List UInt8) : Prop where
  inside : (namrepl name nametab).2.length ≤ NM_MAXLEN
  found : ∀ e, firstMatch nametab name = some e → Fits (replaced e name) →
    namrepl name nametab = (e.ndevice, replaced e name ++ [NULLCH])
  long : ∀ e, firstMatch nametab name = some e → ¬Fits (replaced e name) →
    namrepl name nametab = (SYSERR, [])
  none : firstMatch nametab name = none → namrepl name nametab = (SYSERR, [])

/-- The name whose length a `char` holds. -/
def Short (name : List UInt8) : Prop := name.length + 1 < 2 ^ 7

instance (name : List UInt8) : Decidable (Short name) := inferInstanceAs (Decidable (_ < _))

-- ---------------------------------------------------------------------------
-- Replacing a name
-- ---------------------------------------------------------------------------

variable {nametab : Nametab} {name : List UInt8} {e : Nmentry}

/-- **The first entry that matches decides.** -/
theorem namrepl_eq (nametab : Nametab) (name : List UInt8) : namrepl name nametab =
    match firstMatch nametab name with
    | none => (SYSERR, [])
    | some e => place name e (name.drop e.npfx.1.length) e.npfx.1.length := by
  induction nametab with
  | nil => rfl
  | cons a nametab ih =>
    unfold namrepl firstMatch
    by_cases hmatch : a.npfx.1 <+: name
    · obtain ⟨rest, rfl⟩ := hmatch
      rw [List.find?_cons_of_pos (by simp), compare_of_append]
      dsimp only
      rw [if_neg (not_not.mpr rfl), List.drop_left, Nat.zero_add]
    · rw [List.find?_cons_of_neg (by simpa using hmatch)]
      have hleft := compare_ne_nil a.npfx.2 hmatch 0
      generalize compare a.npfx.1 name 0 = left at hleft ⊢
      obtain ⟨pptr, optr, plen⟩ := left
      dsimp only at hleft ⊢
      rw [if_pos hleft]
      exact ih

/-- The length that `namrepl` sees. -/
theorem int8_namlen (hnul : NULLCH ∉ name) (hfits : Fits name) : int8 (namlen name NM_MAXLEN) =
    if Short name then ((name.length + 1 : Nat) : Int) else (name.length + 1 : Nat) - 2 ^ 8 := by
  unfold Fits at hfits
  have hmax : NM_MAXLEN = 256 := rfl
  rw [namlen_eq hnul, if_pos hfits, int8]
  by_cases hs : Short name
  · rw [if_pos hs]
    unfold Short at hs
    exact Int.bmod_eq_of_le (by omega) (by omega)
  · rw [if_neg hs, Int.bmod_def]
    unfold Short at hs
    omega

theorem namlen_replace (e : Nmentry) :
    namlen e.nreplace.1 NM_MAXLEN - 1 = (e.nreplace.1.length : Int) := by
  have hfits := e.replace_fits
  have hmax : NM_REPLLEN = 96 := rfl
  rw [namlen_eq e.nreplace.2, if_pos (by unfold NM_MAXLEN; omega)]
  omega

/-- A short name is replaced as it should be. -/
theorem place_short (hnul : NULLCH ∉ name) (hshort : Short name) (hmatch : e.npfx.1 <+: name) :
    place name e (name.drop e.npfx.1.length) e.npfx.1.length =
      if Fits (replaced e name) then (e.ndevice, replaced e name ++ [NULLCH]) else (SYSERR, []) := by
  have hfits : Fits name := by
    unfold Fits NM_MAXLEN
    unfold Short at hshort
    omega
  have hle := hmatch.length_le
  have hlen : (replaced e name).length =
      e.nreplace.1.length + (name.length - e.npfx.1.length) := by
    unfold replaced
    rw [List.length_append, List.length_drop]
  have hremain : (((name.length + 1 : Nat) : Int) - e.npfx.1.length).toNat =
      (name.drop e.npfx.1.length).length + 1 := by
    rw [List.length_drop]
    omega
  unfold place
  dsimp only
  rw [int8_namlen hnul hfits, if_pos hshort, namlen_replace, hremain, Int.toNat_natCast,
    copyChars_chars, copyChars_all]
  by_cases hnew : Fits (replaced e name)
  · rw [if_pos hnew, if_neg, replaced, List.append_assoc]
    unfold Fits at hnew
    omega
  · rw [if_neg hnew, if_pos]
    unfold Fits at hnew
    omega

/-- Of a long name nothing is copied. -/
theorem place_long (hnul : NULLCH ∉ name) (hfits : Fits name) (hlong : ¬Short name) :
    place name e (name.drop e.npfx.1.length) e.npfx.1.length = (e.ndevice, e.nreplace.1) := by
  have hrepl := e.replace_fits
  have hmax : NM_MAXLEN = 256 := rfl
  have hrmax : NM_REPLLEN = 96 := rfl
  unfold Fits at hfits
  have hzero : (((name.length + 1 : Nat) : Int) - 2 ^ 8 - e.npfx.1.length).toNat = 0 := by omega
  unfold place
  dsimp only
  rw [int8_namlen hnul hfits, if_neg hlong, namlen_replace, if_neg (by omega), hzero,
    Int.toNat_natCast, copyChars_chars, copyChars, List.append_nil]

theorem firstMatch_some (h : firstMatch nametab name = some e) : e.npfx.1 <+: name := by
  have hfound := List.find?_some h
  exact of_decide_eq_true hfound

/-- For every table and every name that fits its buffer, `namrepl` writes the right name
exactly when no prefix matches or the name is short. -/
theorem namrepl_replaces_iff (nametab : Nametab) (name : Name) : Replaces nametab name.1.1 ↔
    firstMatch nametab name.1.1 = none ∨ Short name.1.1 := by
  obtain ⟨⟨name, hnul⟩, hfits⟩ := name
  have heq := namrepl_eq nametab name
  have hnone : ∀ {P : Prop} {a : Nmentry}, (none : Option Nmentry) = some a → P := nofun
  dsimp only
  cases hm : firstMatch nametab name with
  | none =>
    rw [hm] at heq
    refine iff_of_true ⟨?_, fun _ h => hnone (hm.symm.trans h), fun _ h => hnone (hm.symm.trans h),
      fun _ => heq⟩ (.inl rfl)
    rw [heq]
    exact Nat.zero_le _
  | some e =>
    rw [hm] at heq
    dsimp only at heq
    have hsame : ∀ {a}, firstMatch nametab name = some a → e = a := fun h =>
      Option.some.inj (hm.symm.trans h)
    by_cases hshort : Short name
    · rw [place_short hnul hshort (firstMatch_some hm)] at heq
      refine iff_of_true ⟨?_, ?_, ?_, fun h => hnone (h.symm.trans hm)⟩ (.inr hshort)
      · rw [heq]
        split
        · next hnew =>
          rw [List.length_append]
          exact hnew
        · exact Nat.zero_le _
      · intro a ha hnew
        obtain rfl := hsame ha
        rw [heq, if_pos hnew]
      · intro a ha hnew
        obtain rfl := hsame ha
        rw [heq, if_neg hnew]
    · rw [place_long hnul hfits hshort] at heq
      refine iff_of_false (fun h => ?_) (by simp [hshort])
      by_cases hnew : Fits (replaced e name)
      · -- the null character is missing
        obtain ⟨-, hwritten⟩ := Prod.mk.inj (heq.symm.trans (h.found e hm hnew))
        refine e.nreplace.2 ?_
        rw [hwritten]
        exact List.mem_append_right _ (List.mem_singleton_self _)
      · obtain ⟨hdev, -⟩ := Prod.mk.inj (heq.symm.trans (h.long e hm hnew))
        exact e.device (.inl (hdev.trans_lt (by decide)))

/-- Every name is mapped to the same name of device 5. -/
def anyName : Nmentry where
  npfx := ⟨[], List.not_mem_nil⟩
  nreplace := ⟨[], List.not_mem_nil⟩
  ndevice := 5
  pfx_fits := by decide
  replace_fits := by decide
  device := by decide

/-- Of a name of 127 characters nothing is written at all. -/
theorem namrepl_not_replaces : ¬∀ (nametab : Nametab) (name : Name),
    Replaces nametab name.1.1 := by
  intro h
  have hr := h [anyName] ⟨⟨List.replicate 127 97, by decide +kernel⟩, by decide +kernel⟩
  have hfirst : firstMatch [anyName] (List.replicate 127 97) = some anyName :=
    List.find?_cons_of_pos (by simp [anyName])
  have hwritten := hr.found anyName hfirst (by decide +kernel)
  revert hwritten
  decide +kernel

end Xinu.Nam
