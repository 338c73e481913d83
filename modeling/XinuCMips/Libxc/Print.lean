import XinuCMips.Libxc.Digits

/-!
# Formatted output

`_doprnt` of `doprnt.c` and `_fdoprnt` of `fdoprnt.c`. A format is the list of its
characters before the NUL, the output the list of the characters given to `func`. What
C leaves undefined has no output: an argument that is missing or of another type, and
a text longer than the array `string`.

`print`, which `_doprnt` calls at a conversion it does not know, does not write to
`func` and is left out.
-/

namespace Xinu.Libxc

def maxstr : Int := 80

/-- An argument of the variable list. The NULL string is `none`. -/
inductive Arg
  | int (w : Long)
  | str (s : Option (List Byte))

/-- `va_arg(ap, int)` and `va_arg(ap, long)`. -/
def vaInt : List Arg → Option (Long × List Arg)
  | .int w :: ap => some (w, ap)
  | _ => none

/-- `va_arg(ap, char *)`. -/
def vaStr : List Arg → Option (Option (List Byte) × List Arg)
  | .str s :: ap => some (s, ap)
  | _ => none

-- ---------------------------------------------------------------------------
-- Parts of a directive
-- ---------------------------------------------------------------------------

/-- `c` is read, if it is next. -/
def accept (c : Byte) : List Byte → Bool × List Byte
  | f :: ptr => if f = c then (true, ptr) else (false, f :: ptr)
  | [] => (false, [])

def isDigit (f : Byte) : Bool := (ch '0').toNat ≤ f.toNat && f.toNat ≤ (ch '9').toNat

/-- The loop over the digits of a width or a precision. -/
def number (n : Long) : List Byte → Long × List Byte
  | f :: ptr =>
      if isDigit f then number (n * 10 + f.setWidth 32 - (ch '0').setWidth 32) ptr else (n, f :: ptr)
  | [] => (n, [])

/-- A width or a precision: a number, or `*` for one of the arguments. -/
def widthSpec (ptr : List Byte) (ap : List Arg) : Option (Int × List Byte × List Arg) :=
  match accept (ch '*') ptr with
  | (true, ptr) => (vaInt ap).map fun r => (r.1.toInt, ptr, r.2)
  | (false, ptr) =>
      let r := number 0 ptr
      some (r.1.toInt, r.2, ap)

/-- The loop of `%u`: how often 1000000000 is subtracted to have a positive number. A
`long` needs three rounds at most. -/
def digit1 : Nat → Long → Byte → Long × Byte
  | 0, larg, d => (larg, d)
  | k + 1, larg, d => if larg.slt 0 then digit1 k (larg - 1000000000) (d + 1) else (larg, d)

/-- `str[0] += digit1`. -/
def addFirst (d : Byte) : List Byte → List Byte
  | [] => []
  | c :: str => (c + d) :: str

/-- The variables of a directive after its conversion: `str`, the array `string`, whether
`sign` is '-', `fill` and `fmax`, and what was written already. -/
structure Conversion where
  written : List Byte
  str : List Byte
  string : List Byte
  sign : Bool
  fill : Byte
  fmax : Int

/-- A text is stored in the array `string` of `size` characters. -/
def store (size : Nat) (text : List Byte) (fill : Byte) (fmax : Int) (sign : Bool) :
    Option Conversion :=
  if text.length < size then
    some { written := [], str := text, string := text, sign := sign, fill := fill, fmax := fmax }
  else none

/-- The `switch` over the conversions. The copies differ in the size of `string`, in
`_prtl10` and in what `%d` converts. -/
def convert (size : Nat) (prtl10 decimal : Long → List Byte) (f : Byte) (fill : Byte) (fmax : Int)
    (string : List Byte) (ap : List Arg) : Option (Conversion × List Arg) :=
  -- the conversions of one `long`
  let long := fun (text : Long → List Byte) (fmax : Int) (sign : Long → Bool) =>
    (vaInt ap).bind fun (larg, ap) =>
      (store size (text larg) fill fmax (sign larg)).map fun c => (c, ap)
  let unsigned := fun _ : Long => false
  if f = ch 'b' then long prtl2 0 unsigned
  else if f = ch 'c' then
    (vaInt ap).bind fun (w, ap) =>
      let c : Byte := w.setWidth 8
      (store size (if c = 0 then [] else [c]) (ch ' ') 0 false).map fun c => (c, ap)
  else if f = ch 'd' then long decimal fmax fun larg => larg.slt 0
  else if f = ch 'o' then long prtl8 0 unsigned
  else if f = ch 's' then
    (vaStr ap).map fun (s, ap) =>
      ({ written := [], str := s.getD ("(null)".toList.map ch), string := string, sign := false,
         fill := ch ' ', fmax := fmax }, ap)
  else if f = ch 'u' then
    long (fun larg =>
      let r := digit1 3 larg 0
      addFirst r.2 (prtl10 r.1)) 0 unsigned
  else if f = ch 'X' then long prtX16 0 unsigned
  else if f = ch 'x' then long prtl16 0 unsigned
  else
    some ({ written := [f], str := string, string := string, sign := false, fill := fill,
            fmax := fmax }, ap)

/-- `fmin` or `fmax`, or zero when it is out of range. -/
def inRange (n : Int) : Int := if n > maxstr ∨ n < 0 then 0 else n

/-- The characters of a directive, after the conversion. -/
def field (leftjust : Bool) (fmin : Int) (c : Conversion) : List Byte :=
  let fmin := inRange fmin
  let fmax := inRange c.fmax
  let length : Int := if fmax ≠ 0 ∧ c.str.length > fmax then fmax else c.str.length
  let leading : Int :=
    if fmax ≠ 0 ∨ fmin ≠ 0 then
      (if fmin ≠ 0 then fmin - length else 0) - (if c.sign then 1 else 0)
    else 0
  c.written ++
  (if c.sign ∧ c.fill = ch '0' then [ch '-'] else []) ++
  (if leftjust then [] else List.replicate leading.toNat c.fill) ++
  (if c.sign ∧ c.fill = ch ' ' then [ch '-'] else []) ++
  c.str.take length.toNat ++
  (if leftjust then List.replicate leading.toNat c.fill else [])

-- ---------------------------------------------------------------------------
-- _doprnt
-- ---------------------------------------------------------------------------

namespace Doprnt

/-- The `switch` of `_doprnt`. -/
def convert := Libxc.convert 32 prtl10 prtl10

/-- The loop of `_doprnt`, with `fmax` and `string` as the last directive has left them:
the precision is compiled out, and `fmax` has no first value. -/
def loop : Nat → List Byte → List Arg → Int → List Byte → Option (List Byte)
  | 0, _, _, _, _ => none
  | _ + 1, [], _, _, _ => some []
  | k + 1, c :: ptr, ap, fmax, string =>
      if c ≠ ch '%' then (loop k ptr ap fmax string).map (c :: ·)
      else match accept (ch '%') ptr with
        | (true, ptr) => (loop k ptr ap fmax string).map (ch '%' :: ·)
        | (false, ptr) =>
            let (leftjust, ptr) := accept (ch '-') ptr
            let (zero, ptr) := accept (ch '0') ptr
            let fill := if zero then ch '0' else ch ' '
            (widthSpec ptr ap).bind fun (fmin, ptr, ap) =>
              match ptr with
              | [] => some [ch '%']
              | f :: ptr =>
                  (convert f fill fmax string ap).bind fun (r, ap) =>
                    (loop k ptr ap (inRange r.fmax) r.string).map (field leftjust fmin r ++ ·)

end Doprnt

/-- `_doprnt`, with what `fmax` and `string` hold when it is called. -/
def doprnt (fmax : Int) (string : List Byte) (fmt : List Byte) (ap : List Arg) :
    Option (List Byte) :=
  Doprnt.loop (fmt.length + 1) fmt ap fmax string

-- ---------------------------------------------------------------------------
-- _fdoprnt
-- ---------------------------------------------------------------------------

namespace Fdoprnt

/-- The `switch` of `_fdoprnt`: `%d` negates a negative number. -/
def convert := Libxc.convert 20 prtl10 fun larg => prtl10 (if larg.slt 0 then -larg else larg)

/-- The loop of `_fdoprnt`, with `string` as the last directive has left it. -/
def loop : Nat → List Byte → List Arg → List Byte → Option (List Byte)
  | 0, _, _, _ => none
  | _ + 1, [], _, _ => some []
  | k + 1, c :: fmt, ap, string =>
      if c ≠ ch '%' then (loop k fmt ap string).map (c :: ·)
      else match accept (ch '%') fmt with
        | (true, fmt) => (loop k fmt ap string).map (ch '%' :: ·)
        | (false, fmt) =>
            let (leftjust, fmt) := accept (ch '-') fmt
            let (zero, fmt) := accept (ch '0') fmt
            let fill := if zero then ch '0' else ch ' '
            (widthSpec fmt ap).bind fun (fmin, fmt, ap) =>
              (match accept (ch '.') fmt with
                | (true, fmt) => widthSpec fmt ap
                | (false, fmt) => some (0, fmt, ap)).bind fun (fmax, fmt, ap) =>
                  match fmt with
                  | [] => some [ch '%']
                  | f :: fmt =>
                      (convert f fill fmax string ap).bind fun (r, ap) =>
                        (loop k fmt ap r.string).map (field leftjust fmin r ++ ·)

end Fdoprnt

/-- `_fdoprnt`, with what `string` holds when it is called. -/
def fdoprnt (string : List Byte) (fmt : List Byte) (ap : List Arg) : Option (List Byte) :=
  Fdoprnt.loop (fmt.length + 1) fmt ap string

end Xinu.Libxc
