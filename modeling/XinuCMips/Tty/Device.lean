import XinuCMips.Kernel.Table
import XinuCMips.Lib.Histories
import XinuCMips.Lib.Ring
import XinuCMips.Lib.Sema

/-!
# The tty device

`device/tty/`: the control block of a serial line, the two halves of its
interrupt handler, and the calls that read and write characters. Pointers into
the buffers are offsets. `tyitail` and `tyihead` are integers, since the handler
can move them out of the buffer.

The device calls run with interrupts disabled, and give up the processor in
`wait`. A call that takes several characters is here one step for each of them,
so that other steps may come in between; that adds runs and takes none away.
When `ttyInter_in` makes a line available, `signaln` may switch to another
process before the handler resets `tyicursor`: the rest of the handler is then
a step of its own (`resets`).

`unread` is a history variable: the characters that are stored and have been
neither read nor erased. The code does not read it.
-/

namespace Xinu.Tty

def TY_EBUFLEN : Nat := 32
def TY_IBUFLEN : Nat := 128
def TY_OBUFLEN : Nat := 128
def UART_FIFO_SIZE : Nat := 1
def EOF : Int := -2

def TY_BACKSP : UInt8 := 8
def TY_BLANK : UInt8 := 32
def TY_NEWLINE : UInt8 := 10
def TY_RETURN : UInt8 := 13
def TY_UPARROW : UInt8 := 94

abbrev Pid := Nat

/-- `TY_IMRAW`, `TY_IMCOOKED`, `TY_IMCBREAK`. -/
inductive Imode where
  | RAW | COOKED | CBREAK
  deriving DecidableEq, Repr

/-- The fields of `struct ttycblk` that `ttyInit` sets and nothing changes. The
values are those of `ttyInit`. -/
structure Options where
  tyieback : Bool := true
  tyevis : Bool := true
  tyecrlf : Bool := true
  tyicrlf : Bool := true
  tyierase : Bool := true
  tyierasec : UInt8 := TY_BACKSP
  tyeof : Bool := true
  tyeofch : UInt8 := 4
  tyikill : Bool := true
  tyikillc : UInt8 := 21
  tyoflow : Bool := true
  tyostop : UInt8 := 19
  tyostart : UInt8 := 17
  tyocrlf : Bool := false
  tyifullc : UInt8 := 7
  deriving DecidableEq, Repr

/-- What a reading call has still to do when it has got a character. -/
inductive ReadCall where
  | getc
  /-- The loop of `ttyRead` in raw and cbreak mode. -/
  | chars (count : Int) (buff : List UInt8)
  /-- `ttyRead` in cooked mode, before its first character. -/
  | first (count : Int)
  /-- `ttyRead` in cooked mode, within a line. -/
  | line (count : Int) (buff : List UInt8)
  deriving DecidableEq, Repr

/-- The input queue of a `struct ttycblk`. -/
structure Input where
  tyihead : Int
  tyitail : Int
  tyibuff : Int → UInt8
  tyisem : Sema
  tyimode : Imode
  tyicursor : Nat
  /-- The handlers that were switched out before they reset `tyicursor`. -/
  resets : Nat
  readers : Pid → Option ReadCall
  unread : Int

/-- The output queue. -/
structure Output where
  tyohead : Nat
  tyotail : Nat
  tyobuff : Nat → UInt8
  tyosem : Sema
  /-- The characters that a process has still to put in its call of `ttyPutc`. -/
  writers : Pid → List UInt8

/-- The echo queue. -/
structure Echo where
  tyehead : Nat
  tyetail : Nat
  tyebuff : Nat → UInt8
  tyiecho : Bool
  tyoheld : Bool

structure Ttycblk extends Input, Output, Echo where
  opt : Options

/-- The ways in which characters are read; in cooked mode, up to so many of a
line. -/
inductive ReadKind where
  | getc
  | chars
  | line (count : Int)
  deriving DecidableEq, Repr

inductive TtyEvent where
  /-- A character arrives from the line. -/
  | rx (ch : UInt8)
  | mode (m : Imode)
  /-- A character is stored for input; the last `n` are taken back; the next `n`
  are made available. -/
  | put (ch : UInt8)
  | rub (n : Nat)
  | avail (n : Nat)
  /-- `ttyGetc` takes a character. -/
  | got (pid : Pid) (ch : UInt8)
  /-- `ttyGetc` or `ttyRead` returns with the characters that it has got. -/
  | returned (pid : Pid) (kind : ReadKind) (value : Int) (buff : List UInt8)
  /-- `ttyRead` returns and has not tried to get any. -/
  | noRead (pid : Pid) (value : Int)
  /-- A writer stores a character, and the UART gets one from the output queue. -/
  | stored (ch : UInt8)
  | sent (ch : UInt8)
  /-- The UART gets a character from the echo queue. -/
  | echoed (ch : UInt8)
  deriving DecidableEq, Repr

/-- `*typtr->tyitail++ = ch`. -/
def Input.put (ch : UInt8) (t : Input) : Input :=
  { t with
    tyibuff := Function.update t.tyibuff t.tyitail ch
    tyitail := t.tyitail + 1
    unread := t.unread + 1 }

/-- `if (typtr->tyitail >= &typtr->tyibuff[len]) typtr->tyitail = typtr->tyibuff`. -/
def Input.wrapTail (len : Nat) (t : Input) : Input :=
  if t.tyitail ≥ len then { t with tyitail := 0 } else t

namespace Ttycblk

/-! ## Echo -/

/-- `eputc`. -/
def eputc (ch : UInt8) (t : Ttycblk) : Ttycblk :=
  { t with
    tyebuff := Function.update t.tyebuff t.tyetail ch
    tyetail := Ring.next TY_EBUFLEN t.tyetail }

/-- `ch < TY_BLANK || ch == 0177`, with `char` signed. -/
def unprintable (ch : UInt8) : Bool := ch.toInt8.toInt < 32 || ch == 0o177

/-- `echoch`. -/
def echoch (ch : UInt8) (t : Ttycblk) : Ttycblk :=
  if (ch = TY_NEWLINE ∨ ch = TY_RETURN) ∧ t.opt.tyecrlf then (t.eputc TY_RETURN).eputc TY_NEWLINE
  else if unprintable ch ∧ t.opt.tyevis then (t.eputc TY_UPARROW).eputc (ch + 0o100)
  else t.eputc ch

/-- A backspace, and with `tyieback` a blank over what was there. -/
def backspace (t : Ttycblk) : Ttycblk :=
  let t := t.eputc TY_BACKSP
  if t.opt.tyieback then (t.eputc TY_BLANK).eputc TY_BACKSP else t

/-- `if (typtr->tyiecho) echoch(ch)`. -/
def echo (ch : UInt8) (t : Ttycblk) : Ttycblk := if t.tyiecho then t.echoch ch else t

/-! ## Input -/

def put (ch : UInt8) (t : Ttycblk) : Ttycblk := { t with toInput := t.toInput.put ch }

def wrapTail (len : Nat) (t : Ttycblk) : Ttycblk := { t with toInput := t.toInput.wrapTail len }

/-- `erase1`. -/
def erase1 (t : Ttycblk) : Ttycblk :=
  let tail := t.tyitail - 1
  let tail := if tail < 0 then tail + TY_IBUFLEN else tail
  let t := { t with tyitail := tail, unread := t.unread - 1 }
  if t.tyiecho then
    if unprintable (t.tyibuff tail) then (if t.opt.tyevis then t.backspace else t).backspace
    else t.backspace
  else t

/-- The characters that `ttyInter_in` sees in the buffer. -/
def availOf (t : Ttycblk) : Int := max t.tyisem.count 0

/-- The cooked mode of `ttyInter_in`. -/
def cooked (ch : UInt8) (switched : Bool) (t : Ttycblk) : Ttycblk × List TtyEvent :=
  if ch = t.opt.tyikillc ∧ t.opt.tyikill then
    let tail := t.tyitail - t.tyicursor
    let t' :=
      { t with
        tyitail := tail
        -- the head is moved, where the tail has left the buffer
        tyihead := if tail < 0 then t.tyihead + TY_IBUFLEN else t.tyihead
        tyicursor := 0
        unread := t.unread - t.tyicursor }
    ((t'.eputc TY_RETURN).eputc TY_NEWLINE, [.rub t.tyicursor])
  else if ch = t.opt.tyierasec ∧ t.opt.tyierase then
    if t.tyicursor > 0 then (erase1 { t with tyicursor := t.tyicursor - 1 }, [.rub 1])
    else (t, [])
  else if ch = TY_NEWLINE ∨ ch = TY_RETURN then
    let n := t.tyicursor + 1
    let t := ((t.echo ch).put ch).wrapTail TY_IBUFLEN
    let t := { t with tyisem := t.tyisem.signaln n }
    (if switched then { t with resets := t.resets + 1 } else { t with tyicursor := 0 },
      [.avail n, .put ch])
  else if t.availOf + t.tyicursor ≥ TY_IBUFLEN - 1 then (t.eputc t.opt.tyifullc, [])
  else if ch = t.opt.tyeofch ∧ t.opt.tyeof then
    let t := t.echo ch
    if t.tyicursor ≠ 0 then (t, [])
    else
      -- `tyitail` is not wrapped here
      let t := t.put ch
      ({ t with tyisem := t.tyisem.signal }, [.avail 1, .put ch])
  else
    let t := { t.echo ch with tyicursor := t.tyicursor + 1 }
    ((t.put ch).wrapTail TY_IBUFLEN, [.put ch])

/-- `ttyInter_in`. With `switched`, another process runs before the handler goes
on behind `signaln`. -/
def ttyInter_in (ch : UInt8) (switched : Bool) (t : Ttycblk) : Ttycblk × List TtyEvent :=
  if t.tyimode = .RAW then
    if t.availOf ≥ (TY_IBUFLEN : Int) then (t, [])
    else
      let t := (t.put ch).wrapTail TY_OBUFLEN
      ({ t with tyisem := t.tyisem.signal }, [.avail 1, .put ch])
  else
    let ch := if ch = TY_RETURN ∧ t.opt.tyicrlf then TY_NEWLINE else ch
    if t.opt.tyoflow ∧ ch = t.opt.tyostart then ({ t with tyoheld := false }, [])
    else if t.opt.tyoflow ∧ ch = t.opt.tyostop then ({ t with tyoheld := true }, [])
    else
      let t := { t with tyoheld := false }
      if t.tyimode = .CBREAK then
        if t.availOf ≥ (TY_IBUFLEN : Int) then (t.eputc t.opt.tyifullc, [])
        else (((t.put ch).wrapTail TY_IBUFLEN).echo ch, [.put ch])
      else t.cooked ch switched

/-- A `char` as an `int`. -/
def ofChar (ch : UInt8) : Int := ch.toInt8.toInt

/-- `(char) v`. -/
def toChar (v : Int) : UInt8 := UInt8.ofNat (v % 256).toNat

/-- What `ttyGetc` returns for the character that it has taken. -/
def getcValue (t : Ttycblk) (ch : UInt8) : Int :=
  if t.tyimode = .COOKED ∧ t.opt.tyeof ∧ ch = t.opt.tyeofch then EOF else ofChar ch

/-- The loop of `ttyRead` in cooked mode goes on. -/
def more (count : Int) (buff : List UInt8) (ch : UInt8) : Bool :=
  buff.length < count ∧ ch ≠ TY_NEWLINE ∧ ch ≠ TY_RETURN

/-- A reading call gets a value from `ttyGetc`: it goes on, or it returns. -/
def readNext (v : Int) : ReadCall → ReadCall ⊕ (Int × List UInt8)
  | .getc => .inr (v, [])
  | .chars count buff =>
    let buff := buff ++ [toChar v]
    if buff.length < count then .inl (.chars count buff) else .inr (buff.length, buff)
  | .first count =>
    if v = EOF then .inr (EOF, [])
    else if more count [toChar v] (toChar v) then .inl (.line count [toChar v])
    else .inr (1, [toChar v])
  | .line count buff =>
    let buff := buff ++ [toChar v]
    if more count buff (toChar v) then .inl (.line count buff) else .inr (buff.length, buff)

def kind : ReadCall → ReadKind
  | .getc => .getc
  | .chars .. => .chars
  | .first count | .line count _ => .line count

/-- `ttyGetc` behind its `wait`, in the call `c`. -/
def take (pid : Pid) (c : ReadCall) (t : Ttycblk) : Ttycblk × List TtyEvent :=
  let ch := t.tyibuff t.tyihead
  let head := t.tyihead + 1
  let v := t.getcValue ch
  let t :=
    { t with
      tyihead := if head ≥ TY_IBUFLEN then 0 else head
      unread := t.unread - 1 }
  match readNext v c with
  | .inl c' => ({ t with readers := Function.update t.readers pid (some c') }, [.got pid ch])
  | .inr (v, buff) =>
    ({ t with readers := Function.update t.readers pid none },
      [.returned pid (kind c) v buff, .got pid ch])

/-- `wait(typtr->tyisem)` in the call `c`. -/
def getc (pid : Pid) (c : ReadCall) (t : Ttycblk) : Ttycblk × List TtyEvent :=
  let t' := { t with tyisem := (t.tyisem.wait pid).2 }
  if (t.tyisem.wait pid).1 then t'.take pid c
  else ({ t' with readers := Function.update t.readers pid (some c) }, [])

/-- `ttyRead`. -/
def ttyRead (pid : Pid) (count : Int) (t : Ttycblk) : Ttycblk × List TtyEvent :=
  if count < 0 then (t, [.noRead pid SYSERR])
  else if t.tyimode ≠ .COOKED then
    let count := if count = 0 then t.tyisem.count else count
    -- nothing is available, or the loop does not begin
    if count ≤ 0 then (t, [.noRead pid 0])
    else t.getc pid (.chars count [])
  else t.getc pid (.first count)

/-! ## Output -/

/-- `*typtr->tyotail++ = ch` and the wrap. -/
def store (ch : UInt8) (t : Ttycblk) : Ttycblk × List TtyEvent :=
  ({ t with
      tyobuff := Function.update t.tyobuff t.tyotail ch
      tyotail := Ring.next TY_OBUFLEN t.tyotail }, [.stored ch])

/-- The characters that `ttyPutc` puts: a return before a newline, if it is so
set. -/
def putcChars (ch : UInt8) (t : Ttycblk) : List UInt8 :=
  if ch = TY_NEWLINE ∧ t.opt.tyocrlf then [TY_RETURN, ch] else [ch]

/-- `ttyPutc` behind its `wait`, with the characters that are left. -/
def stored (pid : Pid) (chs : List UInt8) (t : Ttycblk) : Ttycblk × List TtyEvent :=
  match chs with
  | [] => (t, [])
  | ch :: chs => { t with writers := Function.update t.writers pid chs }.store ch

/-- `wait(typtr->tyosem)` in a call of `ttyPutc`. -/
def putc (pid : Pid) (chs : List UInt8) (t : Ttycblk) : Ttycblk × List TtyEvent :=
  let t' := { t with tyosem := (t.tyosem.wait pid).2 }
  if (t.tyosem.wait pid).1 then t'.stored pid chs
  else ({ t' with writers := Function.update t.writers pid chs }, [])

/-- The loop of `ttyInter_out` over the echo queue; it leaves so much space in
the UART. -/
def sendEcho : Nat → Ttycblk → Nat × Ttycblk × List TtyEvent
  | 0, t => (0, t, [])
  | n + 1, t =>
    if t.tyehead ≠ t.tyetail then
      let (m, t', es) := sendEcho n { t with tyehead := Ring.next TY_EBUFLEN t.tyehead }
      (m, t', es ++ [.echoed (t.tyebuff t.tyehead)])
    else (n + 1, t, [])

/-- The loop of `ttyInter_out` over the output queue, for `n` characters. -/
def sendOut : Nat → Ttycblk → Ttycblk × List TtyEvent
  | 0, t => (t, [])
  | n + 1, t =>
    let (t', es) := sendOut n { t with tyohead := Ring.next TY_OBUFLEN t.tyohead }
    (t', es ++ [.sent (t.tyobuff t.tyohead)])

/-- The characters that `ttyInter_out` sees in the output queue. -/
def ochars (uspace : Nat) (t : Ttycblk) : Nat := min uspace (TY_OBUFLEN - t.tyosem.count).toNat

/-- `ttyInter_out`. -/
def ttyInter_out (t : Ttycblk) : Ttycblk × List TtyEvent :=
  if t.tyoheld then (t, [])
  else if t.tyehead = t.tyetail ∧ t.tyosem.count ≥ TY_OBUFLEN then (t, [])
  else
    let (uspace, t, es) := t.sendEcho UART_FIFO_SIZE
    let n := t.ochars uspace
    let (t, es') := t.sendOut n
    ({ t with tyosem := t.tyosem.signaln n }, es' ++ es)

end Ttycblk

/-! ## Runs -/

inductive TtyAct where
  /-- A receive interrupt. -/
  | rx (ch : UInt8) (switched : Bool)
  /-- A handler goes on behind `signaln`. -/
  | reset
  /-- A transmit interrupt. -/
  | tx
  | setMode (m : Imode)
  | setEcho (b : Bool)
  | getc (pid : Pid)
  | read (pid : Pid) (count : Int)
  /-- A reading call goes on with its next character. -/
  | readOn (pid : Pid)
  /-- A reader that has waited runs. -/
  | readWoken (pid : Pid)
  | putc (pid : Pid) (ch : UInt8)
  /-- `ttyPutc` goes on with its next character. -/
  | putOn (pid : Pid)
  /-- A writer that has waited runs. -/
  | putWoken (pid : Pid)

namespace Ttycblk

/-- The process waits, or has been let go and has not run since. -/
def stopped (s : Sema) (pid : Pid) : Bool := pid ∈ s.queue ∨ pid ∈ s.released

def step (t : Ttycblk) : TtyAct → Option (Ttycblk × List TtyEvent)
  | .rx ch switched =>
    let (t', es) := t.ttyInter_in ch switched
    some (t', es ++ [.rx ch])
  | .reset =>
    if t.resets = 0 then none else some ({ t with resets := t.resets - 1, tyicursor := 0 }, [])
  | .tx => some t.ttyInter_out
  | .setMode m => some ({ t with tyimode := m }, [.mode m])
  | .setEcho b => some ({ t with tyiecho := b }, [])
  | .getc pid => if (t.readers pid).isNone then some (t.getc pid .getc) else none
  | .read pid count => if (t.readers pid).isNone then some (t.ttyRead pid count) else none
  | .readOn pid =>
    match t.readers pid with
    | some c => if stopped t.tyisem pid then none else some (t.getc pid c)
    | none => none
  | .readWoken pid =>
    match t.readers pid with
    | some c =>
      if pid ∈ t.tyisem.released then
        some ({ t with tyisem := t.tyisem.resume pid }.take pid c)
      else none
    | none => none
  | .putc pid ch =>
    if t.writers pid = [] then some (t.putc pid (t.putcChars ch)) else none
  | .putOn pid =>
    if t.writers pid = [] ∨ stopped t.tyosem pid then none
    else some (t.putc pid (t.writers pid))
  | .putWoken pid =>
    if t.writers pid ≠ [] ∧ pid ∈ t.tyosem.released then
      some ({ t with tyosem := t.tyosem.resume pid }.stored pid (t.writers pid))
    else none

/-- After `ttyInit`, with any options. -/
structure Started (opt : Options) (t : Ttycblk) : Prop where
  opt : t.opt = opt
  ihead : t.tyihead = 0
  itail : t.tyitail = 0
  ohead : t.tyohead = 0
  otail : t.tyotail = 0
  ehead : t.tyehead = 0
  etail : t.tyetail = 0
  isem : t.tyisem = { count := 0 }
  osem : t.tyosem = { count := TY_OBUFLEN }
  imode : t.tyimode = .RAW
  iecho : t.tyiecho = false
  oheld : t.tyoheld = false
  cursor : t.tyicursor = 0
  resets : t.resets = 0
  readers : ∀ pid, t.readers pid = none
  writers : ∀ pid, t.writers pid = []
  unread : t.unread = 0

def machine (opt : Options) : Machine Ttycblk TtyAct TtyEvent := ⟨Started opt, step⟩

/-- After `ttyInit`, with its own options. -/
def boot : Ttycblk where
  tyihead := 0
  tyitail := 0
  tyibuff := fun _ => 0
  tyisem := { count := 0 }
  tyimode := .RAW
  tyicursor := 0
  resets := 0
  readers := fun _ => none
  unread := 0
  tyohead := 0
  tyotail := 0
  tyobuff := fun _ => 0
  tyosem := { count := TY_OBUFLEN }
  writers := fun _ => []
  tyehead := 0
  tyetail := 0
  tyebuff := fun _ => 0
  tyiecho := false
  tyoheld := false
  opt := {}

theorem boot_started : Started {} boot :=
  ⟨rfl, rfl, rfl, rfl, rfl, rfl, rfl, rfl, rfl, rfl, rfl, rfl, rfl, rfl, fun _ => rfl,
    fun _ => rfl, rfl⟩

end Ttycblk

end Xinu.Tty
