import XinuCMips.Lfs.Files
import XinuCMips.Rfs.Requests

/-!
# Remote files

The calls of the remote file system besides `rflRead`: the master device (`rfsOpen`,
`rfsControl`) and the pseudo-devices of open files (`rflWrite`, `rflSeek`, `rflGetc`,
`rflPutc`, `rflClose`). Every call holds `rf_mutex` from start to end and releases it
on every path, so that calls come one after another; the semaphore is left out.

* `rfsgetmode_eq` — a mode string gives the right to read, to write, or both;
* `Prepared`      — the control block that `rfsOpen` has filled;
* `reading_run`   — the dialog of `rflRead` is the call.
-/

namespace Xinu.Rfs

open Bytes Net
open Lfs (CString lfgetmode)

def Nrfl : Nat := 10

-- ---------------------------------------------------------------------------
-- Calls and their exchange
-- ---------------------------------------------------------------------------

/-- A call up to its exchange: it returns at once, or it sends a message, which gets a
sequence number, and goes on with what `rfscomm` comes to. -/
inductive Dialog (α : Type) where
  | done (a : α)
  | asks (msg : UInt32 → List UInt8) (mtype : UInt16) (rlen : Nat) (next : Outcome → α)

namespace Dialog

variable {α β : Type}

def map (f : α → β) : Dialog α → Dialog β
  | done a => done (f a)
  | asks msg mtype rlen next => asks msg mtype rlen (f ∘ next)

/-- The call, with what it meets for each message. -/
def run (rounds : List UInt8 → Nat → Round) (resp : List UInt8) (d : Comm) : Dialog α → α × Comm
  | done a => (a, d)
  | asks msg mtype rlen next =>
    let r := rfscomm mtype rlen (rounds (msg d.seq)) resp d
    (next r.1, r.2)

end Dialog

-- ---------------------------------------------------------------------------
-- Open files
-- ---------------------------------------------------------------------------

/-- `rflRead`, with its request. -/
def reading (count : Int) (rfptr : Rflcblk) : Dialog Result :=
  if count ≤ 0 ∨ count > RF_DATALEN then .done (fails rfptr none)
  else if ¬rfptr.used then .done (fails rfptr none)
  else if rfptr.rfmode &&& RF_MODE_R = 0 then .done (fails rfptr none)
  else if ¬nameFits rfptr.rfname then .done (fails rfptr none)
  else .asks (rreq rfptr count) RF_MSG_RREQ rresSize (checkResponse rfptr)

/-- `rflWrite` behind `rfscomm`. -/
def checkWritten (rfptr : Rflcblk) (o : Outcome) : Int × Rflcblk :=
  if o.value = SYSERR then (SYSERR, rfptr)
  else if o.value = TIMEOUT then (SYSERR, rfptr)
  else if statusOf o.buf ≠ 0 then (SYSERR, rfptr)
  else (int32 (rfLen o.buf), { rfptr with rfpos := rfptr.rfpos + UInt32.ofNat (rfLen o.buf) })

/-- `rflWrite`. `beyond` is the memory behind the control block, `stack` what lies where
the message is laid out. -/
def rflWrite (beyond stack buff : List UInt8) (count : Int) (rfptr : Rflcblk) :
    Dialog (Int × Rflcblk) :=
  if count ≤ 0 ∨ count > RF_DATALEN then .done (SYSERR, rfptr)
  else if ¬rfptr.used ∨ rfptr.rfmode &&& RF_MODE_W = 0 then .done (SYSERR, rfptr)
  else if ¬nameFits rfptr.rfname then .done (SYSERR, rfptr)
  else .asks (wreq rfptr beyond stack buff count) RF_MSG_WREQ wresSize (checkWritten rfptr)

/-- What `rflGetc` makes of a read of one byte; `ch` lies on the stack before. -/
def gotChar (ch : UInt8) (r : Result) : Int × Rflcblk :=
  let ch := (r.stored.head?.bind id).getD ch
  (if r.value ≠ 1 then SYSERR else ch.toInt8.toInt, r.cblk)

/-- `rflGetc`. -/
def rflGetc (ch : UInt8) (rfptr : Rflcblk) : Dialog (Int × Rflcblk) :=
  (reading 1 rfptr).map (gotChar ch)

/-- `rflPutc`. -/
def rflPutc (beyond stack : List UInt8) (ch : UInt8) (rfptr : Rflcblk) : Dialog (Int × Rflcblk) :=
  (rflWrite beyond stack [ch] 1 rfptr).map fun r => (if r.1 ≠ 1 then SYSERR else OK, r.2)

/-- `rflSeek`. -/
def rflSeek (pos : UInt32) (rfptr : Rflcblk) : Int × Rflcblk :=
  if ¬rfptr.used then (SYSERR, rfptr) else (OK, { rfptr with rfpos := pos })

/-- `rflClose`. -/
def rflClose (rfptr : Rflcblk) : Int × Rflcblk :=
  if ¬rfptr.used then (SYSERR, rfptr) else (OK, { rfptr with used := false })

-- ---------------------------------------------------------------------------
-- The master device
-- ---------------------------------------------------------------------------

/-- `rfltab` with the device numbers `rfdev`, and `Rf_data`. -/
structure Rfl where
  rfltab : Fin Nrfl → Rflcblk
  rfdev : Fin Nrfl → Int
  data : Comm

def Rfl.setCblk (i : Fin Nrfl) (f : Rflcblk) (s : Rfl) : Rfl :=
  { s with rfltab := Function.update s.rfltab i f }

/-- `rflInit`. -/
def rflInit : Rflcblk :=
  { used := false, rfname := List.replicate RF_NAMLEN 0, rfpos := 0, rfmode := 0 }

/-- `rfsInit`: the first sequence number. -/
def rfsInit : Comm := { seq := 1, registered := false }

/-- `rfsgetmode` has the text of `lfgetmode`, with the same bits. -/
def rfsgetmode (mode : CString) : Int := lfgetmode mode

/-- The first control block that is free. -/
def Rfl.freeBlock (s : Rfl) : Option (Fin Nrfl) :=
  (List.finRange Nrfl).find? fun i => ¬(s.rfltab i).used

/-- What `rfsOpen` does to a free control block before the request is sent, and the mode
unless the call fails. -/
def prepares (name mode : CString) (f : Rflcblk) : Rflcblk × Option UInt32 :=
  if RF_NAMLEN ≤ name.chars.length then
    ({ f with rfname := splice 0 (name.chars.take RF_NAMLEN) f.rfname }, none)
  else
    let f := { f with rfname := splice 0 (name.chars ++ [0]) f.rfname }
    if name.chars.length = 0 then (f, none)
    else
      let mbits := UInt32.ofInt (rfsgetmode mode)
      ({ f with rfmode := mbits }, if mbits = UInt32.ofInt SYSERR then none else some mbits)

/-- `rfsOpen` behind `rfscomm`. -/
def checkOpened (dev : Int) (f : Rflcblk) (o : Outcome) : Int × Rflcblk :=
  if o.value = SYSERR then (SYSERR, f)
  else if o.value = TIMEOUT then (SYSERR, f)
  else if statusOf o.buf ≠ 0 then (SYSERR, f)
  else (dev, { f with rfpos := 0, used := true })

/-- `rfsOpen` with the control block `i`. -/
def opensIn (name mode : CString) (dev : Int) (f : Rflcblk) : Dialog (Int × Rflcblk) :=
  match prepares name mode f with
  | (f, none) => .done (SYSERR, f)
  | (f, some mbits) => .asks (oreq name.chars mbits) RF_MSG_OREQ oresSize (checkOpened dev f)

/-- `rfsOpen`. -/
def rfsOpen (name mode : CString) (s : Rfl) : Dialog (Int × Rfl) :=
  match s.freeBlock with
  | none => .done (SYSERR, s)
  | some i =>
    (opensIn name mode (s.rfdev i) (s.rfltab i)).map fun r => (r.1, s.setCblk i r.2)

/-- `rfsndmsg` behind `rfscomm`. -/
def checkSent (o : Outcome) : Int :=
  if o.value = SYSERR then SYSERR
  else if o.value = TIMEOUT then SYSERR
  else if statusOf o.buf ≠ 0 then SYSERR
  else OK

/-- `rfsndmsg`. -/
def rfsndmsg (mtype : UInt16) (name : CString) (stack : List UInt8) : Dialog Int :=
  .asks (hdrReq mtype name.chars stack) mtype hdrSize checkSent

/-- `RFS_CTL_DEL`, `RFS_CTL_TRUNC`, `RFS_CTL_MKDIR`, `RFS_CTL_RMDIR`: what is sent for
them. -/
def controlType (func : Int) : Option UInt16 :=
  if func = 1 then some RF_MSG_DREQ
  else if func = 2 then some RF_MSG_TREQ
  else if func = 3 then some RF_MSG_MREQ
  else if func = 4 then some RF_MSG_XREQ
  else none

def RFS_CTL_SIZE : Int := 5

/-- The size in the reply of `rfsControl`, which does not look at the status. -/
def sizeOf (o : Outcome) : Int :=
  if o.value = SYSERR ∨ o.value = TIMEOUT then SYSERR else int32 (posOf o.buf)

/-- `rfsControl`, on the control block that has the minor number of the device. -/
def rfsControl (func : Int) (name : CString) (stack : List UInt8) (rfptr : Rflcblk) : Dialog Int :=
  if ¬(chars rfptr.rfname).length < RF_NAMLEN - 1 then .done SYSERR
  else
    match controlType func with
    | some mtype => (rfsndmsg mtype name stack).map fun v => if v = SYSERR then SYSERR else OK
    | none =>
      if func = RFS_CTL_SIZE then .asks (sreq rfptr) RF_MSG_SREQ sresSize sizeOf
      else .done SYSERR

-- ---------------------------------------------------------------------------
-- Modes
-- ---------------------------------------------------------------------------

theorem lfgetmodeLoop_eq (mode : List UInt8) {mbits : Nat} (h : mbits < 16) :
    Lfs.lfgetmodeLoop mode mbits = SYSERR ∨
      ∃ n < 16, n &&& 3 ≠ 0 ∧ Lfs.lfgetmodeLoop mode mbits = (n : Nat) := by
  have hor : ∀ k < 16, mbits ||| k < 16 := fun k hk => Nat.or_lt_two_pow (n := 4) h hk
  induction mode generalizing mbits with
  | nil =>
    refine .inr ?_
    unfold Lfs.lfgetmodeLoop
    by_cases hrw : mbits &&& Lfs.LF_MODE_RW = 0
    · refine ⟨mbits ||| Lfs.LF_MODE_RW, hor _ (by decide), ?_, by rw [if_pos hrw]⟩
      have hzero : mbits &&& 3 = 0 := hrw
      rw [Nat.and_or_distrib_right, hzero]
      decide
    · exact ⟨mbits, h, hrw, by rw [if_neg hrw]⟩
  | cons ch mode ih =>
    unfold Lfs.lfgetmodeLoop
    split_ifs
    all_goals first
      | exact .inl rfl
      | exact ih (hor _ (by decide)) fun k hk => Nat.or_lt_two_pow (n := 4) (hor _ (by decide)) hk

/-- **A mode that is accepted** allows reading or writing, and has four bits. -/
theorem rfsgetmode_eq (mode : CString) : rfsgetmode mode = SYSERR ∨
    ∃ n < 16, n &&& 3 ≠ 0 ∧ rfsgetmode mode = (n : Nat) := lfgetmodeLoop_eq mode.chars (by decide)

-- ---------------------------------------------------------------------------
-- Control blocks
-- ---------------------------------------------------------------------------

variable {f : Rflcblk} {name mode : CString} {count : Int} {beyond stack buff : List UInt8}

/-- **`rflRead` is its dialog**, with the rounds that its request meets. -/
theorem reading_run (rounds : List UInt8 → Nat → Round) (resp : List UInt8) (d : Comm) :
    (reading count f).run rounds resp d = rflRead count (rounds (rreq f count d.seq)) resp f d := by
  unfold reading rflRead
  split_ifs <;> rfl

theorem reading_asks (h : Asks count f) :
    reading count f = .asks (rreq f count) RF_MSG_RREQ rresSize (checkResponse f) := by
  have hcount := h.count
  unfold reading
  rw [if_neg (by omega), if_neg (not_not.mpr h.used), if_neg h.mode, if_neg (not_not.mpr h.name)]

theorem reading_refused (h : ¬Asks count f) : reading count f = .done (fails f none) := by
  unfold reading
  by_cases hcount : count ≤ 0 ∨ count > RF_DATALEN
  · exact if_pos hcount
  rw [if_neg hcount]
  by_cases hused : ¬f.used = true
  · exact if_pos hused
  rw [if_neg hused]
  by_cases hmode : f.rfmode &&& RF_MODE_R = 0
  · exact if_pos hmode
  rw [if_neg hmode]
  by_cases hname : ¬nameFits f.rfname
  · exact if_pos hname
  · exact absurd ⟨by omega, not_not.mp hused, hmode, not_not.mp hname⟩ h

theorem rflWrite_asks (h : AsksWrite count f) : rflWrite beyond stack buff count f =
    .asks (wreq f beyond stack buff count) RF_MSG_WREQ wresSize (checkWritten f) := by
  have hcount := h.count
  have hopen : ¬(¬f.used = true ∨ f.rfmode &&& RF_MODE_W = 0) :=
    not_or.mpr ⟨not_not.mpr h.used, h.mode⟩
  unfold rflWrite
  rw [if_neg (by omega), if_neg hopen, if_neg (not_not.mpr h.name)]

theorem rflWrite_refused (h : ¬AsksWrite count f) :
    rflWrite beyond stack buff count f = .done (SYSERR, f) := by
  unfold rflWrite
  by_cases hcount : count ≤ 0 ∨ count > RF_DATALEN
  · exact if_pos hcount
  rw [if_neg hcount]
  by_cases hused : ¬f.used = true ∨ f.rfmode &&& RF_MODE_W = 0
  · exact if_pos hused
  rw [if_neg hused]
  by_cases hname : ¬nameFits f.rfname
  · exact if_pos hname
  · rw [not_or, not_not] at hused
    exact absurd ⟨by omega, hused.1, hused.2, not_not.mp hname⟩ h

theorem Rflcblk.Sound.moved (h : f.Sound) (pos : UInt32) : { f with rfpos := pos }.Sound :=
  ⟨h.place, h.mode, h.name⟩

theorem Rflcblk.Sound.closed (h : f.Sound) : { f with used := false }.Sound :=
  ⟨h.place, nofun, nofun⟩

/-- A control block that is ready to be used for a file. -/
structure Prepared (name : CString) (mbits : UInt32) (f : Rflcblk) : Prop where
  length : 0 < name.chars.length ∧ name.chars.length < RF_NAMLEN
  place : f.rfname.length = RF_NAMLEN
  chars : chars f.rfname = name.chars
  rfmode : f.rfmode = mbits
  bits : mbits.toNat < 16 ∧ mbits &&& RF_MODE_RW ≠ 0

theorem nameFits_of_chars {mem : List UInt8} (hplace : mem.length = RF_NAMLEN)
    (h : (Rfs.chars mem).length < RF_NAMLEN) : nameFits mem := by
  unfold nameFits
  rw [List.take_of_length_le hplace.le]
  by_contra hno
  have hall : Rfs.chars mem = mem := List.takeWhile_eq_self_iff.mpr fun ch hch =>
    decide_eq_true fun hzero => hno (hzero ▸ hch)
  rw [hall] at h
  omega

theorem Prepared.sound {mbits : UInt32} (h : Prepared name mbits f) (pos : UInt32) :
    { f with rfpos := pos, used := true }.Sound := by
  refine ⟨h.place, fun _ => h.rfmode ▸ h.bits, fun _ => ⟨?_, ?_⟩⟩
  · exact nameFits_of_chars h.place (h.chars ▸ h.length.2)
  · rw [h.chars]
    exact List.ne_nil_of_length_pos h.length.1

/-- **`rfsOpen` fills a control block**, or leaves it as little in use as before. -/
theorem prepares_eq (name mode : CString) (h : f.rfname.length = RF_NAMLEN) :
    ((prepares name mode f).1.used = f.used ∧ (prepares name mode f).1.rfname.length = RF_NAMLEN) ∧
      ∀ mbits, (prepares name mode f).2 = some mbits →
        Prepared name mbits (prepares name mode f).1 ∧
          rfsgetmode mode = (mbits.toNat : Nat) := by
  unfold prepares
  by_cases hlong : RF_NAMLEN ≤ name.chars.length
  · rw [if_pos hlong]
    refine ⟨⟨rfl, ?_⟩, nofun⟩
    dsimp only
    rw [length_splice (by rw [List.length_take]; omega), h]
  rw [if_neg hlong]
  have hfits : 0 + (name.chars ++ [0]).length ≤ f.rfname.length := by
    rw [List.length_append, List.length_singleton]
    omega
  have hplace : (splice 0 (name.chars ++ [0]) f.rfname).length = RF_NAMLEN := by
    rw [length_splice hfits, h]
  dsimp only
  by_cases hempty : name.chars.length = 0
  · rw [if_pos hempty]
    exact ⟨⟨rfl, hplace⟩, nofun⟩
  rw [if_neg hempty]
  refine ⟨⟨rfl, hplace⟩, fun mbits hm => ?_⟩
  obtain ⟨hne, rfl⟩ : UInt32.ofInt (rfsgetmode mode) ≠ UInt32.ofInt SYSERR ∧
      UInt32.ofInt (rfsgetmode mode) = mbits := by
    by_cases hsys : UInt32.ofInt (rfsgetmode mode) = UInt32.ofInt SYSERR
    · cases hm.symm.trans (if_pos hsys)
    · exact ⟨hsys, Option.some.inj ((if_neg hsys).symm.trans hm)⟩
  rcases rfsgetmode_eq mode with hsys | ⟨n, hn, hrw, hmode⟩
  · exact absurd (by rw [hsys]) hne
  · have hbits : UInt32.ofInt (rfsgetmode mode) = UInt32.ofNat n := by
      rw [hmode]
      unfold UInt32.ofInt
      congr 1
      omega
    have hsmall : (UInt32.ofNat n).toNat = n := UInt32.toNat_ofNat_of_lt' (by
      have hsize : UInt32.size = 2 ^ 32 := rfl
      omega)
    rw [hbits]
    have hlen := And.intro (Nat.pos_of_ne_zero hempty) (not_le.mp hlong)
    refine ⟨⟨hlen, hplace, ?_, rfl, hsmall.symm ▸ hn, ?_⟩, ?_⟩
    · unfold splice
      rw [List.take_zero, List.nil_append, List.append_assoc]
      exact chars_append fun ch hch hzero => name.nonzero (hzero ▸ hch)
    · intro hzero
      have h0 := congrArg UInt32.toNat hzero
      rw [UInt32.toNat_and, hsmall] at h0
      exact hrw h0
    · rw [hmode, hsmall]

end Xinu.Rfs
