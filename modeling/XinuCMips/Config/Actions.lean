import Mathlib.Data.List.Basic
import Mathlib.Data.List.Nodup
import Mathlib.Order.Fin.Basic

/-!
# The actions of the configuration program

`config` reads the declarations of types and devices and writes the table of devices. Its
grammar does its work by actions on a table of symbols and two lists, which are here; a
pointer to a name of the table is the number of the symbol.

* `lookup`, `config_atoi`            — names and numbers;
* `cktname`, `mktype`, `initattr`    — types, of which one may be on several devices;
* `ckdname`, `mkdev`                 — devices, that start as a copy of their type;
* `newattr`                          — attributes of what was declared last;
* `tables`                           — what is written once the whole input is accepted.

`none` is an exit with a message, or what C leaves undefined.
-/

namespace Xinu.Config

abbrev Name := List Char

/-- `CONFMAXNM` -/
def CONFMAXNM : ℕ := 24

/-- Symbols that `symtab` has room for. -/
def maxSymbols : ℕ := 250

/-- The routines of a device. -/
inductive Routine
  | intr | init | «open» | close | read | write | control | seek | getc | putc
  deriving DecidableEq, Repr

/-- The attributes of a type or a device. -/
inductive Key
  | csr | irq | routine (r : Routine)
  deriving DecidableEq, Repr

/-- `struct sym_ent` -/
structure SymEnt where
  name : Name
  occurs : ℕ
  deriving DecidableEq

/-- `struct dev_ent`; the pointers to names are symbols. -/
structure DevEnt where
  name : Option ℕ
  tname : ℕ
  tnum : ℕ
  device : ℕ
  csr : ℤ
  irq : ℤ
  routine : Routine → Name
  minor : ℕ

/-- The variables of the program. `currtype` and `lastdv` are the last nodes of the lists. -/
structure State where
  symtab : List SymEnt
  currtname : Option ℕ
  ftypes : List DevEnt
  devs : List DevEnt
  ndevs : ℕ

def State.start : State :=
  { symtab := [], currtname := none, ftypes := [], devs := [], ndevs := 0 }

-- ---------------------------------------------------------------------------
-- Names and numbers
-- ---------------------------------------------------------------------------

/-- What `lookup` makes of a name. -/
def truncated (str : Name) : Name :=
  str.take (CONFMAXNM - 1)

/-- The symbol of a name, new or not. Nothing checks that `symtab` has room. -/
def State.lookup (s : State) (str : Name) : Option (ℕ × State) :=
  match s.symtab.findIdx? (·.name = truncated str) with
  | some i => some (i, s)
  | none =>
    if s.symtab.length < maxSymbols then
      some (s.symtab.length, { s with symtab := s.symtab ++ [⟨truncated str, 0⟩] })
    else none

def digitOf (c : Char) : BitVec 32 :=
  if c.isDigit then BitVec.ofNat 32 (c.toNat - '0'.toNat)
  else if c.isUpper then BitVec.ofNat 32 (c.toNat - 'A'.toNat + 10)
  else BitVec.ofNat 32 c.toNat - BitVec.ofNat 32 'a'.toNat + 10

def numberIn (base : BitVec 32) (p : Name) : BitVec 32 :=
  p.foldl (fun rv c => rv * base + digitOf c) 0

/-- The value of the characters of a number. -/
def config_atoi (p : Name) : ℤ :=
  match p with
  | '0' :: 'x' :: p => (numberIn 16 p).toInt
  | '0' :: 'X' :: p => (numberIn 16 p).toInt
  | '0' :: p => (numberIn 8 p).toInt
  | p => (numberIn 10 p).toInt

-- ---------------------------------------------------------------------------
-- Types
-- ---------------------------------------------------------------------------

/-- `cktname`: no type has the name yet. -/
def State.cktname (s : State) (symid : ℕ) : Option ℕ :=
  if s.ftypes.any (·.tname = symid) then none else some symid

/-- The five characters of `"ioerr"`. -/
def ioerr : Name := ['i', 'o', 'e', 'r', 'r']

/-- `initattr`. Five characters go into each field, without the one that would end them, and
`behind` is what `malloc` has left there. -/
def initattr (behind : Routine → Name) (tnum deviceid : ℕ) : DevEnt :=
  { name := none, tname := tnum, tnum := tnum, device := deviceid, csr := 0, irq := 0,
    routine := fun r => ioerr ++ behind r, minor := 0 }

/-- `mktype`; `behind` says what `malloc` leaves in the node of each type. -/
def State.mktype (behind : ℕ → Routine → Name) (s : State) (deviceid : ℕ) : Option State := do
  let tn ← s.currtname
  if s.ftypes.any fun t => t.tname = tn ∧ t.device = deviceid then none
  else some { s with
    ftypes := s.ftypes ++ [initattr (behind s.ftypes.length) tn deviceid] }

-- ---------------------------------------------------------------------------
-- Devices
-- ---------------------------------------------------------------------------

/-- `ckdname`: no device has the name yet. -/
def State.ckdname (s : State) (devid : ℕ) : Option ℕ :=
  if s.devs.any (·.name = some devid) then none else some devid

/-- `mkdev`. A grammar that leaves `on` out gives 0 for the device, which is a symbol too, so
`dn` is never `NULL`. -/
def State.mkdev (s : State) (nameid typid deviceid : ℕ) : Option State := do
  let t ← s.ftypes.find? fun t => t.tname = typid ∧ t.device = deviceid
  return { s with devs := s.devs ++ [{ t with name := some nameid }], ndevs := s.ndevs + 1 }

-- ---------------------------------------------------------------------------
-- Attributes
-- ---------------------------------------------------------------------------

/-- The attribute `tok` of a node is set; `c` is the name that the value is the symbol of. -/
def DevEnt.set (e : DevEnt) (tok : Key) (val : ℤ) (c : Option Name) : Option DevEnt :=
  match tok with
  | .csr => some { e with csr := val }
  | .irq => some { e with irq := val }
  | .routine r => c.map fun c => { e with routine := Function.update e.routine r c }

/-- `newattr`: an attribute of the last type, or of the last device once there is one. -/
def State.newattr (s : State) (tok : Key) (val : ℤ) : Option State := do
  let c := if 0 ≤ val then (s.symtab[val.toNat]?).map SymEnt.name else none
  if c.any (CONFMAXNM ≤ ·.length) then none
  else match s.devs.getLast? with
    | none => do
      let e ← s.ftypes.getLast?
      let e ← e.set tok val c
      return { s with ftypes := s.ftypes.dropLast ++ [e] }
    | some e => do
      let e ← e.set tok val c
      return { s with devs := s.devs.dropLast ++ [e] }

-- ---------------------------------------------------------------------------
-- The tables
-- ---------------------------------------------------------------------------

/-- `#define NAME number` of `conf.h`, with the type that its comment names. -/
structure DeviceName where
  name : Name
  number : ℕ
  type : Name
  deriving DecidableEq

/-- A row of `devtab` in `conf.c`. -/
structure Entry where
  dvnum : ℕ
  dvminor : ℕ
  dvname : Name
  routine : Routine → Name
  csr : ℤ
  irq : ℤ

/-- What `conf.h` and `conf.c` say: the names, `N<type>`, `NDEVS` if there are devices, and
the rows. -/
structure Tables where
  names : List DeviceName
  counts : List (Name × ℕ)
  NDEVS : Option ℕ
  devtab : List Entry

/-- The loop that numbers the devices of each type, in the order of `devs`. -/
def minors : List DevEnt → List SymEnt → Option (List DevEnt × List SymEnt)
  | [], symtab => some ([], symtab)
  | s :: devs, symtab => do
    let t ← symtab[s.tnum]?
    let (devs, symtab') ← minors devs (symtab.set s.tnum { t with occurs := t.occurs + 1 })
    return ({ s with minor := t.occurs } :: devs, symtab')

/-- The text of a symbol. -/
def textOf (symtab : List SymEnt) (i : ℕ) : Option Name :=
  (symtab[i]?).map SymEnt.name

def deviceNames (symtab : List SymEnt) : ℕ → List DevEnt → Option (List DeviceName)
  | _, [] => some []
  | i, s :: devs => do
    let name ← s.name >>= textOf symtab
    let type ← textOf symtab s.tname
    return ⟨name, i, type⟩ :: (← deviceNames symtab (i + 1) devs)

def devtab (symtab : List SymEnt) : ℕ → List DevEnt → Option (List Entry)
  | _, [] => some []
  | fcount, s :: devs => do
    let name ← s.name >>= textOf symtab
    let entry : Entry := ⟨fcount, s.minor, name, s.routine, s.csr, s.irq⟩
    return entry :: (← devtab symtab (fcount + 1) devs)

/-- What `main` writes after the input is accepted. -/
def State.tables (s : State) : Option Tables := do
  let names ← deviceNames s.symtab 0 s.devs
  let (devs, symtab) ← minors s.devs s.symtab
  let counts := (symtab.filter (0 < ·.occurs)).map fun e => (e.name.take (CONFMAXNM - 1), e.occurs)
  let NDEVS := if 0 < s.ndevs then some s.ndevs else none
  return { names, counts, NDEVS, devtab := ← devtab symtab 0 devs }

end Xinu.Config
