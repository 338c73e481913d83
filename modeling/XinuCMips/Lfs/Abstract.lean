import XinuCMips.Lfs.Files

/-!
# Files as lists of bytes

What the local file system is for, with no disk: a file is a name and a list
of bytes, and a device that is open on a file has a position in it. Every call
has one meaning here (`Files.step`); a call on a file is an operation on its
bytes and the position (`Op`).

The limits of the directory and of the table of devices belong to the meaning
of `lfsOpen`. How many blocks there are does not: `Files.Fits` says which files
there is room for.
-/

namespace Xinu.Lfs

open Bytes

/-- A file. -/
structure ByteFile where
  name : List UInt8
  bytes : List UInt8
  deriving DecidableEq, Repr

/-- An open file: which one, and the current position. -/
structure Handle where
  file : Nat
  pos : Nat
  deriving DecidableEq, Repr

/-- The files in the order of their creation, what each device is open on, and
the device numbers. -/
structure Files where
  files : List ByteFile
  handles : List (Option Handle)
  devs : List Nat
  deriving DecidableEq, Repr

/-! ## Calls on one file -/

/-- The meaning of a call on an open file: from its bytes and the position to
the reply, the new bytes and the new position. -/
abbrev Op := List UInt8 → Nat → Reply × List UInt8 × Nat

/-- The call gives back `r` and changes nothing. -/
def Op.skip (r : Int) : Op := fun bytes pos => ((r, []), bytes, pos)

def Op.putc (ch : UInt8) : Op := fun bytes pos => ((OK, []), splice pos [ch] bytes, pos + 1)

def Op.getc : Op := fun bytes pos =>
  match bytes[pos]? with
  | none => ((EOF, []), bytes, pos)
  | some b => (((b.toNat : Int), []), bytes, pos + 1)

def Op.write (data : List UInt8) (count : Int) : Op := fun bytes pos =>
  ((count, []), splice pos data bytes, pos + data.length)

/-- The reply to a `read` of `n` bytes that gets `data`. -/
def readReply (n : Nat) (data : List UInt8) : Reply :=
  (if data = [] ∧ n ≠ 0 then EOF else data.length, data)

def Op.read (n : Nat) : Op := fun bytes pos =>
  (readReply n (slice pos n bytes), bytes, pos + (slice pos n bytes).length)

def Op.seek (offset : Nat) : Op := fun bytes pos =>
  if bytes.length < offset then ((SYSERR, []), bytes, pos) else ((OK, []), bytes, offset)

def Op.trunc : Op := fun _ _ => ((OK, []), [], 0)

namespace Files

variable (a : Files)

/-- A call on device `m`: `op` if it is open, `refused` if it is not, and there
is no device beyond the table. -/
def onHandle (m : Nat) (op : Op) (refused : Reply) : Reply × Files :=
  match a.handles[m]? with
  | none => ((SYSERR, []), a)
  | some none => (refused, a)
  | some (some h) =>
    match a.files[h.file]? with
    | none => ((SYSERR, []), a)
    | some f =>
      let res := op f.bytes h.pos
      (res.1, { a with
        files := a.files.set h.file { f with bytes := res.2.1 }
        handles := a.handles.set m (some { h with pos := res.2.2 }) })

/-- Device `m` is open no more. -/
def close (m : Nat) : Reply × Files :=
  match a.handles[m]? with
  | some (some _) => ((OK, []), { a with handles := a.handles.set m none })
  | _ => ((SYSERR, []), a)

/-! ## Opening -/

/-- The first file of that name. -/
def find (name : List UInt8) : Option Nat := a.files.findIdx? fun f => f.name == name

/-- Device `m` gets file `i`, at position 0. -/
def openOn (m i : Nat) : Int × Files :=
  ((a.devs.getD m 0 : Nat), { a with handles := a.handles.set m (some ⟨i, 0⟩) })

/-- Opening on device `m`, which is free: the file must be there for mode `o`,
and must not be for mode `n`. -/
def openNamed (name : CString) (mbits m : Nat) : Int × Files :=
  match a.find name.chars with
  | none =>
    if mbits &&& LF_MODE_O ≠ 0 then (SYSERR, a)
    else if LF_NUM_DIR_ENT ≤ a.files.length then (SYSERR, a)
    else openOn { a with files := a.files ++ [⟨name.chars, []⟩] } m a.files.length
  | some i => if mbits &&& LF_MODE_N ≠ 0 then (SYSERR, a) else a.openOn m i

/-- `lfsOpen`: a name that is not too long, a mode that can be parsed and a
device that is free. The empty name is refused while any file is open. -/
def «open» (name mode : CString) : Int × Files :=
  if LF_NAME_LEN ≤ name.chars.length then (SYSERR, a)
  else if lfgetmode mode = SYSERR then (SYSERR, a)
  else if name.chars = [] ∧ a.handles.any Option.isSome then (SYSERR, a)
  else
    match a.handles.findIdx? Option.isNone with
    | none => (SYSERR, a)
    | some m => a.openNamed name (lfgetmode mode).toNat m

/-- One call. -/
def step : Call → Files → Reply × Files
  | .open name mode, a => (((a.open name mode).1, []), (a.open name mode).2)
  | .putc m ch, a => a.onHandle m (.putc ch) (SYSERR, [])
  | .write m buff count, a =>
    if count < 0 then ((SYSERR, []), a)
    else
      let data := buff.take count.toNat
      a.onHandle m (.write data count) (if data = [] then count else SYSERR, [])
  | .getc m, a => a.onHandle m .getc (SYSERR, [])
  | .read m count, a =>
    if count < 0 then ((SYSERR, []), a)
    else a.onHandle m (.read count.toNat) (if count = 0 then 0 else SYSERR, [])
  | .seek m offset, a => a.onHandle m (.seek offset) (SYSERR, [])
  | .control m func _, a =>
    if func = LF_CTL_TRUNC then a.onHandle m .trunc (SYSERR, []) else ((SYSERR, []), a)
  | .flush m, a => a.onHandle m (.skip OK) (SYSERR, [])
  | .close m, a => a.close m

/-- A sequence of calls. -/
def run : List Call → Files → List Reply × Files
  | [], a => ([], a)
  | c :: cs, a =>
    let res := step c a
    (res.1 :: (run cs res.2).1, (run cs res.2).2)

/-- Device numbers never change. -/
theorem step_devs (c : Call) : (step c a).2.devs = a.devs := by
  have hfile : ∀ m op r, (a.onHandle m op r).2.devs = a.devs := by
    intro m op r
    unfold onHandle
    split
    · rfl
    · rfl
    · split <;> rfl
  cases c with
  | «open» name mode =>
    show (a.open name mode).2.devs = a.devs
    unfold Files.open openNamed
    repeat' split
    all_goals rfl
  | putc m ch => exact hfile _ _ _
  | write m buff count =>
    show (if count < 0 then ((SYSERR, []), a) else _ : Reply × Files).2.devs = a.devs
    split
    · rfl
    · exact hfile _ _ _
  | getc m => exact hfile _ _ _
  | read m count =>
    show (if count < 0 then ((SYSERR, []), a) else _ : Reply × Files).2.devs = a.devs
    split
    · rfl
    · exact hfile _ _ _
  | seek m offset => exact hfile _ _ _
  | control m func unused =>
    show (if func = LF_CTL_TRUNC then _ else ((SYSERR, []), a) : Reply × Files).2.devs = a.devs
    split
    · exact hfile _ _ _
    · rfl
  | flush m => exact hfile _ _ _
  | close m =>
    show (a.close m).2.devs = a.devs
    unfold close
    split <;> rfl

/-! ## Runs that the disk has room for -/

/-- The named file is open on some device. -/
def IsOpen (name : List UInt8) : Prop :=
  ∃ h f, some h ∈ a.handles ∧ a.files[h.file]? = some f ∧ f.name = name

/-- A file that is open is not opened again. -/
def Distinct : Call → Prop
  | .open name _ => ¬ a.IsOpen name.chars
  | _ => True

/-- `nib` index blocks and `ndb` data blocks make room for all files. -/
structure Fits (nib ndb : Nat) : Prop where
  iblocks : (a.files.map fun f => (f.bytes.length + 8191) / 8192).sum ≤ nib
  dblocks : (a.files.map fun f => (f.bytes.length + 511) / 512).sum ≤ ndb

/-- All opens of the sequence are of files that are not open, and there is
room for the files after each call. -/
def Within (nib ndb : Nat) : List Call → Files → Prop
  | [], _ => True
  | c :: cs, a => a.Distinct c ∧ (step c a).2.Fits nib ndb ∧ Within nib ndb cs (step c a).2

end Files

end Xinu.Lfs
