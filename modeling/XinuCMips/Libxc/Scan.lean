import XinuCMips.Libxc.Print

/-!
# Formatted input

`_doscan` of `doscan.c` with `_innum`, `_instr` and `_getccl`, on a string as `sscanf`
calls it. A `char` has a sign, so `EOF` is the character -2. A format is what memory
holds from its address on, the NUL among it. What C leaves undefined has no result: a
read past the memory given, an argument that is missing, more than `numbuf` holds, an
index that `_sctab` does not have. A character of 128 or more is in no class of `ctype.h`.
-/

namespace Xinu.Libxc

def eof : Byte := -2

-- ---------------------------------------------------------------------------
-- The string
-- ---------------------------------------------------------------------------

/-- The string of `sscanf` at the pointer `s`: the characters before it, last first, and
the characters after it. -/
structure Text where
  before : List Byte
  rest : List Byte

/-- `sgetch`. -/
def sgetch (text : Text) : Byte × Text :=
  match text.rest with
  | [] => (eof, text)
  | c :: rest => (c, { before := c :: text.before, rest := rest })

/-- `sungetch`. -/
def sungetch (text : Text) : Option Text :=
  match text.before with
  | [] => none
  | c :: before => some { before := before, rest := c :: text.rest }

/-- `if (c != EOF) (*ungetch)(arg1, arg2)`. -/
def unget (c : Byte) (text : Text) : Option Text := if c ≠ eof then sungetch text else some text

def isBlank (c : Byte) : Bool := c == ch ' ' || c == ch '\t' || c == ch '\n'

/-- The loop that skips blanks, with the character that ends it. -/
def skipBlanks (before : List Byte) : List Byte → Byte × Text
  | [] => (eof, { before := before, rest := [] })
  | c :: rest =>
      if isBlank c then skipBlanks (c :: before) rest
      else (c, { before := c :: before, rest := rest })

-- ---------------------------------------------------------------------------
-- _innum
-- ---------------------------------------------------------------------------

inductive Size
  | short | regular | long
  deriving DecidableEq

/-- What is stored through a pointer of the arguments. -/
inductive Item
  | short (w : BitVec 16)
  | int (w : Long)
  | chars (s : List Byte)
  deriving DecidableEq

/-- What `_innum` or `_instr` gives: the result, what is stored, `*eofptr` and the string. -/
structure Scanned where
  ret : Bool
  item : Option Item
  fileended : Bool
  text : Text

def isLower (c : Byte) : Bool := (ch 'a').toNat ≤ c.toNat && c.toNat ≤ (ch 'f').toNat
def isCapital (c : Byte) : Bool := (ch 'A').toNat ≤ c.toNat && c.toNat ≤ (ch 'F').toNat

/-- The test of the loop over the digits. -/
def isNumeric (base : Nat) (c : Byte) : Bool :=
  (isDigit c || base == 16) && (isLower c || isCapital c)

/-- `lcval` after one digit more. -/
def nextDigit (base : Nat) (lcval : Long) (c : Byte) : Long :=
  let lcval :=
    if base = 8 then lcval <<< 3
    else if base = 10 then ((lcval <<< 2) + lcval) <<< 1
    else lcval <<< 4
  let c :=
    if isDigit c then c - ch '0'
    else if isLower c then c - (ch 'a' - 10)
    else c - (ch 'A' - 10)
  lcval + c.signExtend 32

/-- The variables of the loop over the digits: how many characters `numbuf` has, `lcval`,
the character read last, and the string. -/
structure Digits where
  np : Nat
  lcval : Long
  c : Byte
  text : Text

/-- The loop over the digits. At the end of the string the test fails, for `EOF` is no digit. -/
def digits (base : Nat) (before : List Byte) (c : Byte) (len : Int) (np : Nat) (lcval : Long) :
    List Byte → Digits
  | [] =>
      if len - 1 ≥ 0 ∧ isNumeric base c then
        { np := np + 1, lcval := nextDigit base lcval c, c := eof,
          text := { before := before, rest := [] } }
      else { np := np, lcval := lcval, c := c, text := { before := before, rest := [] } }
  | c' :: rest =>
      if len - 1 ≥ 0 ∧ isNumeric base c then
        digits base (c' :: before) c' (len - 1) (np + 1) (nextDigit base lcval c) rest
      else { np := np, lcval := lcval, c := c, text := { before := before, rest := c' :: rest } }

/-- `**(int **)ptr = lcval`, for each size. -/
def assign (size : Size) (lcval : Long) : Item :=
  match size with
  | .short => .short (lcval.setWidth 16)
  | .regular | .long => .int lcval

/-- `_innum`, for the conversions that are left to it. -/
def innum (ptr : Bool) (type : Byte) (len : Int) (size : Size) (text : Text) : Option Scanned :=
  let base := if type = ch 'o' then 8 else if type = ch 'x' then 16 else 10
  let (c, text) := skipBlanks text.before text.rest
  let negflg := c == ch '-'
  let signed := negflg || c == ch '+'
  let (c, text) := if signed then sgetch text else (c, text)
  let len := if signed then len - 1 else len
  let r := digits base text.before c len (if negflg then 1 else 0) 0 text.rest
  let ret := ptr && r.np != 0
  -- a NUL goes into `numbuf` after the digits when something is stored
  if r.np + (if ret then 1 else 0) > 64 then none
  else
    let lcval := if negflg then -r.lcval else r.lcval
    (unget r.c r.text).map fun text =>
      { ret := ret, item := if ret then some (assign size lcval) else none,
        fileended := r.c == eof, text := text }

-- ---------------------------------------------------------------------------
-- _instr and _getccl
-- ---------------------------------------------------------------------------

def SPC : Byte := 1
def STP : Byte := 2

/-- `_sctab` at first. -/
def sctab (c : Byte) : Byte :=
  if c = ch '\t' ∨ c = ch '\n' ∨ c = ch ' ' then SPC else 0

/-- `_sctab[ch] & ignstp`. -/
def stops (tab : Byte → Byte) (ignstp ch : Byte) : Option Bool :=
  if ignstp = 0 then some false
  else if ch.toNat < 128 then some (tab ch &&& ignstp != 0)
  else none

/-- The first loop of `_instr`, with the character that ends it. -/
def skipStops (tab : Byte → Byte) (ignstp : Byte) (before : List Byte) :
    List Byte → Option (Byte × Text)
  | [] => (stops tab ignstp eof).map fun _ => (eof, { before := before, rest := [] })
  | c :: rest =>
      (stops tab ignstp c).bind fun stop =>
        if stop then skipStops tab ignstp (c :: before) rest
        else some (c, { before := c :: before, rest := rest })

/-- The second loop of `_instr`: what is stored, the character read last, `len` and the string. -/
def collect (tab : Byte → Byte) (ignstp : Byte) (before : List Byte) (ch : Byte) (len : Int) :
    List Byte → Option (List Byte × Byte × Int × Text)
  | [] =>
      if ch = eof then some ([], ch, len, { before := before, rest := [] })
      else (stops tab ignstp ch).map fun stop =>
        if stop then ([], ch, len, { before := before, rest := [] })
        else if len - 1 ≤ 0 then ([ch], ch, len - 1, { before := before, rest := [] })
        else ([ch], eof, len - 1, { before := before, rest := [] })
  | c :: rest =>
      if ch = eof then some ([], ch, len, { before := before, rest := c :: rest })
      else (stops tab ignstp ch).bind fun stop =>
        if stop then some ([], ch, len, { before := before, rest := c :: rest })
        else if len - 1 ≤ 0 then some ([ch], ch, len - 1, { before := before, rest := c :: rest })
        else (collect tab ignstp (c :: before) c (len - 1) rest).map fun r => (ch :: r.1, r.2)

/-- `_instr`. -/
def instr (tab : Byte → Byte) (ptr : Bool) (type : Byte) (len : Int) (text : Text) :
    Option Scanned :=
  let len := if type = ch 'c' ∧ len = 30000 then 1 else len
  (skipStops tab (if type = ch 's' then SPC else 0) text.before text.rest).bind fun (c, text) =>
    let ignstp := if type = ch 'c' then 0 else if type = ch '[' then STP else SPC
    (collect tab ignstp text.before c len text.rest).bind fun (s, c, len, text) =>
      (if c ≠ eof ∧ len > 0 then sungetch text else some text).map fun text =>
        let ret := ptr && !s.isEmpty
        { ret := ret,
          item := if ret then some (.chars (if type = ch 'c' then s else s ++ [0])) else none,
          fileended := c == eof, text := text }

/-- The loop of `_getccl` over the characters of the class; `t` says that they are left out. -/
def getcclLoop (t : Bool) (tab : Byte → Byte) : List Byte → Option ((Byte → Byte) × List Byte)
  | [] => none
  | c :: s =>
      if c &&& 0x7F#8 = ch ']' then some (tab, s)
      else if c.toNat < 128 then
        getcclLoop t (Function.update tab c (if t then tab c ||| STP else tab c &&& ~~~STP)) s
      else none

/-- `_getccl`: the table it leaves and the format after the class. -/
def getccl (tab : Byte → Byte) (s : List Byte) : Option ((Byte → Byte) × List Byte) :=
  let (t, s) := accept (ch '^') s
  getcclLoop t (fun c => if t then tab c &&& ~~~STP else tab c ||| STP) s

-- ---------------------------------------------------------------------------
-- _doscan
-- ---------------------------------------------------------------------------

/-- The variables of `_doscan` between two characters of the format, the table `_sctab`
and what was stored, with the number of its argument. -/
structure Scan where
  tab : Byte → Byte := sctab
  text : Text
  argp : Nat := 0
  nmatch : Nat := 0
  stored : List (Nat × Item) := []

/-- What `_doscan` returns and what it stored. -/
abbrev Matched := Int × List (Nat × Item)

def Scan.give (s : Scan) (ret : Int) : Matched := (ret, s.stored)

/-- `nmatch ? nmatch : -1`. -/
def Scan.ended (s : Scan) : Matched := s.give (if s.nmatch ≠ 0 then s.nmatch else -1)

/-- What stands between the width and the conversion: `ch`, `fmt`, `size` and the table. -/
def sizeSpec (tab : Byte → Byte) : List Byte → Option (Byte × List Byte × Size × (Byte → Byte))
  | [] => none
  | c :: fmt =>
      if c = ch 'l' then fmt.head?.map fun c => (c, fmt.tail, .long, tab)
      else if c = ch 'h' then fmt.head?.map fun c => (c, fmt.tail, .short, tab)
      else if c = ch '[' then
        (getccl tab fmt).map fun (tab, fmt) => (c, fmt, .regular, tab)
      else some (c, fmt, .regular, tab)

def isUpper (c : Byte) : Bool := (ch 'A').toNat ≤ c.toNat && c.toNat ≤ (ch 'Z').toNat

/-- A directive from its conversion on: the next state, or the result. -/
def Scan.convert (s : Scan) (args : Nat) (ptr : Bool) (len : Int) (type : Byte) (size : Size) :
    Option (Matched ⊕ Scan) :=
  let r :=
    if type = ch 'c' ∨ type = ch 's' ∨ type = ch '[' then instr s.tab ptr type len s.text
    else innum ptr type len size s.text
  r.bind fun r =>
    let s := { s with
      text := r.text
      nmatch := if r.ret then s.nmatch + 1 else s.nmatch
      stored := s.stored ++ r.item.toList.map fun item => (s.argp - 1, item) }
    -- the pointer is one of the arguments
    if ptr ∧ s.argp > args then none
    else some (if r.fileended then .inl s.ended else .inr s)

/-- A character that has to be the next one of the string. -/
def Scan.literal (s : Scan) (c : Byte) : Option (Matched ⊕ Scan) :=
  let (ch1, text) := sgetch s.text
  if ch1 ≠ c then
    if ch1 = eof then some (.inl (s.give (-1)))
    else (sungetch text).map fun _ => .inl (s.give s.nmatch)
  else some (.inr { s with text := text })

/-- A directive after its '%': the state and the format after it, or the result. -/
def Scan.directive (s : Scan) (args : Nat) (fmt : List Byte) :
    Option ((Matched ⊕ Scan) × List Byte) :=
  let (skip, fmt) := accept (ch '*') fmt
  let s := if skip then s else { s with argp := s.argp + 1 }
  let (len, fmt) := number 0 fmt
  let len := if len = 0 then 30000 else len.toInt
  (sizeSpec s.tab fmt).bind fun (c, fmt, size, tab) =>
    let s := { s with tab := tab }
    let (c, size) := if isUpper c then (c - ch 'A' + ch 'a', Size.long) else (c, size)
    if c = 0 then some (.inl (s.give (-1)), fmt)
    else (s.convert args (!skip) len c size).map fun r => (r, fmt)

/-- The loop of `_doscan`, with the number of arguments. -/
def doscan (args : Nat) : Nat → List Byte → Scan → Option Matched
  | 0, _, _ => none
  | _ + 1, [], _ => none
  | k + 1, c :: fmt, s =>
      if c = 0 then some (s.give s.nmatch)
      else if c = ch '%' then
        match accept (ch '%') fmt with
        | (true, fmt) =>
            (s.literal (ch '%')).bind fun r =>
              match r with
              | .inl m => some m
              | .inr s => doscan args k fmt s
        | (false, fmt) =>
            (s.directive args fmt).bind fun r =>
              match r.1 with
              | .inl m => some m
              | .inr s => doscan args k r.2 s
      else if isBlank c then
        let (c, text) := skipBlanks s.text.before s.text.rest
        (unget c text).bind fun text => doscan args k fmt { s with text := text }
      else
        (s.literal c).bind fun r =>
          match r with
          | .inl m => some m
          | .inr s => doscan args k fmt s

/-- `sscanf`, with the number of its arguments. -/
def sscanf (str fmt : List Byte) (args : Nat) : Option Matched :=
  doscan args (fmt.length + 1) fmt { text := { before := [], rest := str } }

end Xinu.Libxc
