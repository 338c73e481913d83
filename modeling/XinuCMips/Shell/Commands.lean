import XinuCMips.Kernel.Runs
import XinuCMips.Shell.Arguments
import XinuCMips.Shell.Lexan

/-!
# Command lines

What the shell does with a line: the tokens are taken apart, the files are opened, and a
process is created for the command. What `open` returns is a parameter of the model, so are
the addresses of functions and variables.

* `perform_cases` — how an attempt to start a command ends;
* `released_iff`  — after which errors nothing is held.
-/

namespace Xinu.Shell

open CChars

def SHELL_CMDSTK : Nat := 8192
def SHELL_CMDPRIO : Int := 20

structure Cmdent where
  cname : List UInt8
  cbuiltin : Bool
  deriving Repr

/-- An entry of the table of commands, by its name. -/
def cmdent (cname : String) (cbuiltin : Bool) : Cmdent :=
  ⟨cname.toList.map fun c => UInt8.ofNat c.toNat, cbuiltin⟩

def cmdtab : List Cmdent :=
  [cmdent "argecho" true, cmdent "arp" false, cmdent "cat" false, cmdent "clear" true,
    cmdent "date" false, cmdent "devdump" false, cmdent "echo" false, cmdent "ethstat" false,
    cmdent "exit" true, cmdent "help" false, cmdent "ipaddr" false, cmdent "kill" true,
    cmdent "led" false, cmdent "memdump" false, cmdent "memstat" false, cmdent "nvram" false,
    cmdent "ping" false, cmdent "ps" false, cmdent "sleep" false, cmdent "udpdump" false,
    cmdent "udpecho" false, cmdent "udpeserver" false, cmdent "uptime" false, cmdent "?" false]

/-- The errors that the shell reports. -/
inductive Message
  | SHELL_SYNERRMSG | notFound | SHELL_BGERRMSG | SHELL_INERRMSG | SHELL_OUTERRMSG
  | SHELL_CREATMSG
  deriving DecidableEq, Repr

def Message.format : Message → String
  | SHELL_SYNERRMSG => "Syntax error\n"
  | notFound => "command %s not found\n"
  | SHELL_BGERRMSG => "Cannot redirect I/O or background a builtin\n"
  | SHELL_INERRMSG => "Cannot open file %s for input\n"
  | SHELL_OUTERRMSG => "Cannot open file %s for output\n"
  | SHELL_CREATMSG => "Cannot create process\n"

/-- How the shell is done with a line: an error, with what stands for `%s`, a line without
tokens, the call of a builtin command, or a child. -/
inductive Reply
  | error (msg : Message) (arg : List UInt8)
  | empty
  | builtin (j : Nat) (args : List Nat)
  | child (pid : Int) (backgnd : Bool)
  deriving DecidableEq, Repr

-- ---------------------------------------------------------------------------
-- The line
-- ---------------------------------------------------------------------------

/-- The string in `tokbuf` at an index. -/
def cstring (tokbuf : List UInt8) (i : Nat) : List UInt8 :=
  (tokbuf.drop i).takeWhile (· != NULLCH)

/-- The variables of the shell that say what is left of the tokens. -/
structure Rest where
  ntok : Nat
  tlen : Int
  backgnd : Bool
  inname : Option Nat
  outname : Option Nat
  deriving DecidableEq, Repr

/-- The `&` at the end. -/
def background (r : Result) (ntok : Nat) (tlen : Int) : Rest :=
  if r.toktyp[ntok - 1]? = some .SH_TOK_AMPER then ⟨ntok - 1, tlen - 2, true, none, none⟩
  else ⟨ntok, tlen, false, none, none⟩

/-- A redirection at the end; `again` is the second time, when a name may be there already.
The result is `none` for a syntax error. -/
def redirect (r : Result) (again : Bool) (s : Rest) : Option Rest :=
  if s.ntok ≥ 3 ∧ (r.toktyp[s.ntok - 2]? = some .SH_TOK_LESS ∨
      r.toktyp[s.ntok - 2]? = some .SH_TOK_GREATER) then
    let left := { s with ntok := s.ntok - 2, tlen := r.tok.getD (s.ntok - 2) 0 }
    if r.toktyp[s.ntok - 1]? ≠ some .SH_TOK_OTHER then none
    else if r.toktyp[s.ntok - 2]? = some .SH_TOK_LESS then
      if again ∧ s.inname.isSome then none
      else some { left with inname := some (r.tok.getD (s.ntok - 1) 0) }
    else
      if again ∧ s.outname.isSome then none
      else some { left with outname := some (r.tok.getD (s.ntok - 1) 0) }
  else some s

/-- The loop that compares a name in the table with the string at `cmp`. -/
def sameName : List UInt8 → List UInt8 → Bool
  | [], cmp => (getChar cmp).1 == NULLCH
  | ch :: src, cmp => (getChar cmp).1 == ch && sameName src (getChar cmp).2

/-- A command to be started. -/
structure Command where
  j : Nat
  ntok : Nat
  tok : List Nat
  tlen : Int
  tokbuf : List UInt8
  inname : Option (List UInt8)
  outname : Option (List UInt8)
  backgnd : Bool
  deriving DecidableEq, Repr

/-- From the tokens to the command, or what the shell does without starting one. -/
def parse (r : Result) : Except Reply Command :=
  match r.ret with
  | none => .error (.error .SHELL_SYNERRMSG [])
  | some 0 => .error .empty
  | some ntok =>
    match redirect r false (background r ntok (r.tlen.getD 0)) with
    | none => .error (.error .SHELL_SYNERRMSG [])
    | some s =>
      match redirect r true s with
      | none => .error (.error .SHELL_SYNERRMSG [])
      | some s =>
        if s.ntok = 0 ∨ (r.toktyp.take s.ntok).any (· ≠ .SH_TOK_OTHER) then
          .error (.error .SHELL_SYNERRMSG [])
        else
          match cmdtab.findIdx? fun c => sameName c.cname r.tokbuf with
          | none => .error (.error .notFound (cstring r.tokbuf 0))
          | some j =>
            if ((cmdtab[j]?).map Cmdent.cbuiltin).getD false then
              if s.inname.isSome ∨ s.outname.isSome ∨ s.backgnd then
                .error (.error .SHELL_BGERRMSG [])
              else .error (.builtin j (r.tok.take s.ntok))
            else .ok ⟨j, s.ntok, r.tok, s.tlen, r.tokbuf, s.inname.map (cstring r.tokbuf),
              s.outname.map (cstring r.tokbuf), s.backgnd⟩

-- ---------------------------------------------------------------------------
-- The command
-- ---------------------------------------------------------------------------

/-- What the shell finds: its device, what `open` on the name space returns for a name and a
mode while other devices are open, `none` for SYSERR, and addresses. -/
structure Env where
  dev : Int
  opens : List Int → List UInt8 → String → Option Int
  cfunc : Nat → Nat
  INITRET : Nat
  tmparg : Nat

/-- A file is opened if a name is given. `F_CTL_TRUNC` changes no table. -/
def openFile (e : Env) (mode : String) (name : Option (List UInt8)) (m : Machine) :
    Option (Int × Machine) :=
  match name with
  | none => some (e.dev, m)
  | some name =>
    (e.opens m.opened name mode).map fun did => (did, { m with opened := did :: m.opened })

/-- `create`, for a command. -/
def spawn (e : Env) (c : Command) (m : Machine) : Int × Machine :=
  m.create (e.cfunc c.j) e.INITRET SHELL_CMDSTK SHELL_CMDPRIO [c.ntok, e.tmparg]

/-- The child is created, gets its arguments and its descriptors, and is resumed. -/
def start (e : Env) (c : Command) (stdinput stdoutput : Int) (m : Machine) : Reply × Machine :=
  let (child, m) := spawn e c m
  if child = SYSERR then (.error .SHELL_CREATMSG [], m)
  else
    let (status, ram) := addargs m child c.ntok c.tok c.tlen c.tokbuf e.tmparg
    let m := { m with ram := ram }
    if status = SYSERR then (.error .SHELL_CREATMSG [], m)
    else
      let prdesc := Function.update (Function.update (m.prdesc child) 0 stdinput) 1 stdoutput
      (.child child c.backgnd, { m with
        prdesc := Function.update m.prdesc child prdesc
        kernel := resume child (recvclr m.kernel) })

/-- The files are opened and the child is started. -/
def perform (e : Env) (c : Command) (m : Machine) : Reply × Machine :=
  match openFile e "ro" c.inname m with
  | none => (.error .SHELL_INERRMSG (c.inname.getD []), m)
  | some (stdinput, m) =>
    match openFile e "w" c.outname m with
    | none => (.error .SHELL_OUTERRMSG (c.outname.getD []), m)
    | some (stdoutput, m) => start e c stdinput stdoutput m

/-- One round of the shell, with the memory from the line on; no result when `lexan` leaves
that memory. -/
def round (e : Env) (line : List UInt8) (m : Machine) : Option (Reply × Machine) :=
  (lexan line).map fun r =>
    match parse r with
    | .error reply => (reply, m)
    | .ok c => perform e c m

-- ---------------------------------------------------------------------------
-- What is held
-- ---------------------------------------------------------------------------

/-- The process table, the device table and the free memory are as before. -/
structure Released (m m' : Machine) : Prop where
  opened : m'.opened = m.opened
  proctab : m'.kernel.proctab = m.kernel.proctab
  prcount : m'.kernel.prcount = m.kernel.prcount
  prstkptr : m'.prstkptr = m.prstkptr
  prdesc : m'.prdesc = m.prdesc
  mem : m'.kernel.mem = m.kernel.mem

/-- The first thing that is acquired for the command is refused: the input file, without one
the output file, without both the child. -/
def FirstRefused (e : Env) (c : Command) (m : Machine) : Prop :=
  match c.inname, c.outname with
  | some name, _ => e.opens m.opened name "ro" = none
  | none, some name => e.opens m.opened name "w" = none
  | none, none => (spawn e c m).1 = SYSERR

theorem Released.refl (m : Machine) : Released m m := ⟨rfl, rfl, rfl, rfl, rfl, rfl⟩

variable {e : Env} {c : Command} {m m' : Machine} {msg : Message} {arg line : List UInt8}

/-- A child is created, or nothing is. -/
theorem spawn_cases (e : Env) (c : Command) (m : Machine) :
    (spawn e c m).2.opened = m.opened ∧
      (((spawn e c m).1 = SYSERR ∧ Released m (spawn e c m).2) ∨
        ((spawn e c m).1 ≠ SYSERR ∧ (spawn e c m).2.kernel.proctab ≠ m.kernel.proctab)) := by
  unfold spawn Machine.create
  rcases create_cases SHELL_CMDSTK SHELL_CMDPRIO m.kernel with
    ⟨hcurr, hfail, hproc, hcount, hmem⟩ | ⟨pid, hpid, hfree, hcurr, hok, hsusp, -⟩
  · dsimp only
    rw [hcurr, hfail, if_pos rfl]
    exact ⟨rfl, .inl ⟨rfl, rfl, hproc, hcount, rfl, rfl, hmem⟩⟩
  · have hne : pid ≠ SYSERR := by
      rintro rfl
      exact absurd hpid.1 (by decide)
    dsimp only
    rw [hcurr, hok, if_neg hne]
    refine ⟨rfl, .inr ⟨hne, fun hsame => ?_⟩⟩
    have hst := congrArg (fun t => (t pid).prstate) hsame
    dsimp only at hst
    rw [hsusp, hfree] at hst
    cases hst

/-- After an error at the child the files stay open, and only without a child are the tables
as before. -/
theorem start_error {stdinput stdoutput : Int}
    (h : start e c stdinput stdoutput m = (.error msg arg, m')) :
    m'.opened = m.opened ∧ (Released m m' ↔ (spawn e c m).1 = SYSERR) := by
  obtain ⟨hopened, hcases⟩ := spawn_cases e c m
  unfold start at h
  dsimp only at h
  rcases hcases with ⟨hfail, hsame⟩ | ⟨hok, hproc⟩
  · rw [if_pos hfail] at h
    obtain ⟨-, rfl⟩ := Prod.mk.inj h
    exact ⟨hopened, iff_of_true hsame hfail⟩
  · rw [if_neg hok] at h
    split at h
    · obtain ⟨-, rfl⟩ := Prod.mk.inj h
      exact ⟨hopened, iff_of_false (fun hsame => hproc hsame.proctab) hok⟩
    · cases (Prod.mk.inj h).1

/-- **A child that is created is started**: its stack has room for the arguments and holds
the address of `tmparg`, so no child is left suspended. -/
theorem start_child {stdinput stdoutput : Int} (hntok : 0 < c.ntok) (hmany : c.ntok ≤ SHELL_MAXTOK)
    (htlen : 0 ≤ c.tlen) (hlong : c.tlen ≤ SHELL_BUFLEN + SHELL_MAXTOK) (htmp : e.tmparg < 2 ^ 32)
    (hpid : (spawn e c m).1 ≠ SYSERR)
    (hlow : SHELL_CMDSTK ≤ ((spawn e c m).2.kernel.proctab (spawn e c m).1).prstkbase)
    (hhigh : ((spawn e c m).2.kernel.proctab (spawn e c m).1).prstkbase < 2 ^ 32) :
    (start e c stdinput stdoutput m).1 = .child (spawn e c m).1 c.backgnd := by
  have hspawn : m.create (e.cfunc c.j) e.INITRET SHELL_CMDSTK SHELL_CMDPRIO [c.ntok, e.tmparg] =
      ((spawn e c m).1, (spawn e c m).2) := rfl
  obtain ⟨hptr, hword⟩ := create_argument (i := 1) hspawn hpid rfl
  have hlen := create_prstklen hspawn hpid
  have hpad : CONTEXT_WORDS + [c.ntok, e.tmparg].length + padding [c.ntok, e.tmparg].length + 3 =
      23 := rfl
  have hargs : (addargs (spawn e c m).2 (spawn e c m).1 c.ntok c.tok c.tlen c.tokbuf
      e.tmparg).1 = OK := by
    rw [hpad] at hptr
    rw [Nat.mod_eq_of_lt htmp] at hword
    refine addargs_ok hntok htlen ?_ ?_ hword
    · rw [hlen, hptr]
      generalize ((spawn e c m).2.kernel.proctab (spawn e c m).1).prstkbase = base at *
      unfold SHELL_MAXTOK at hmany
      unfold SHELL_BUFLEN SHELL_MAXTOK Tty.TY_IBUFLEN at hlong
      unfold SHELL_CMDSTK usub uint32 at *
      omega
    · rw [hptr]
      unfold SHELL_CMDSTK at hlow
      unfold CONTEXT_WORDS
      omega
  unfold start
  dsimp only
  rw [if_neg hpid, hargs, if_neg (by decide)]

/-- Devices that stay open are not released. -/
theorem not_released {l : List Int} (h : m'.opened = l ++ m.opened) (hne : l ≠ []) :
    ¬ Released m m' := by
  intro hsame
  have hlen := congrArg List.length (h.symm.trans hsame.opened)
  rw [List.length_append] at hlen
  have hpos := List.length_pos_iff.mpr hne
  omega

/-- **After an error of a command nothing is held exactly when nothing had been acquired.** -/
theorem perform_error (h : perform e c m = (.error msg arg, m')) :
    Released m m' ↔ FirstRefused e c m := by
  unfold perform at h
  unfold FirstRefused
  rcases hin : c.inname with _ | inname
  · rcases hout : c.outname with _ | outname
    · -- no redirection: the child is the first thing
      rw [hin, hout] at h
      exact (start_error h).2
    · simp only [hin, hout, openFile] at h
      cases hopen : e.opens m.opened outname "w" with
      | none =>
        rw [hopen] at h
        obtain ⟨-, rfl⟩ := Prod.mk.inj h
        exact iff_of_true (.refl m) hopen
      | some did =>
        rw [hopen] at h
        have hopened := (start_error h).1
        refine iff_of_false (not_released (l := [did]) hopened (List.cons_ne_nil _ _)) ?_
        simp only [hopen, reduceCtorEq, not_false_eq_true]
  · simp only [hin, openFile] at h
    cases hopen : e.opens m.opened inname "ro" with
    | none =>
      rw [hopen] at h
      obtain ⟨-, rfl⟩ := Prod.mk.inj h
      exact iff_of_true (.refl m) hopen
    | some did =>
      rw [hopen] at h
      refine iff_of_false ?_ (by simp only [hopen, reduceCtorEq, not_false_eq_true])
      -- the input file stays open, whatever follows
      rcases hout : c.outname with _ | outname
      · simp only [hout, Option.map_some] at h
        exact not_released (l := [did]) (start_error h).1 (List.cons_ne_nil _ _)
      · simp only [hout, Option.map_some] at h
        cases hopen' : e.opens (did :: m.opened) outname "w" with
        | none =>
          rw [hopen'] at h
          obtain ⟨-, rfl⟩ := Prod.mk.inj h
          exact not_released (l := [did]) rfl (List.cons_ne_nil _ _)
        | some did' =>
          rw [hopen'] at h
          exact not_released (l := [did', did]) (start_error h).1 (List.cons_ne_nil _ _)

/-- **The errors after which nothing is held**: those of a line that is no command, and those
of a command whose first file or child is refused. -/
theorem released_iff (h : round e line m = some (.error msg arg, m')) :
    Released m m' ↔ ∀ r c, lexan line = some r → parse r = .ok c → FirstRefused e c m := by
  unfold round at h
  cases hlex : lexan line with
  | none =>
    rw [hlex] at h
    cases h
  | some r =>
    rw [hlex, Option.map_some] at h
    cases hparse : parse r with
    | error reply =>
      rw [hparse] at h
      obtain ⟨-, rfl⟩ := Prod.mk.inj (Option.some.inj h)
      refine iff_of_true (.refl m) fun r' c hr hc => ?_
      obtain rfl := Option.some.inj hr
      rw [hparse] at hc
      cases hc
    | ok c =>
      rw [hparse] at h
      rw [perform_error (Option.some.inj h)]
      refine ⟨fun hfirst r' c' hr hc => ?_, fun hall => hall r c rfl hparse⟩
      obtain rfl := Option.some.inj hr
      rw [hparse] at hc
      obtain rfl := Except.ok.inj hc
      exact hfirst

-- ---------------------------------------------------------------------------
-- Two lines
-- ---------------------------------------------------------------------------

/-- The machine when it has just booted. -/
def bootMachine : Machine :=
  { kernel := bootKernel, prstkptr := fun _ => 0, prdesc := fun _ _ => CONSOLE, ram := fun _ => 0,
    opened := [] }

/-- Files can be read but not written. -/
def readOnly : Env :=
  { dev := CONSOLE, opens := fun _ _ mode => if mode = "ro" then some 9 else none,
    cfunc := fun j => 4 * j, INITRET := 4096, tmparg := 65536 }

/-- `cat > b`. -/
def catOut : List UInt8 := [99, 97, 116, 32, 62, 32, 98, 10]

/-- `cat < a > b`. -/
def catBoth : List UInt8 := [99, 97, 116, 32, 60, 32, 97, 32, 62, 32, 98, 10]

/-- The first file is refused. -/
theorem released_first : Released bootMachine bootMachine ↔
    ∀ r c, lexan catOut = some r → parse r = .ok c → FirstRefused readOnly c bootMachine :=
  released_iff (show round readOnly catOut bootMachine = some (.error .SHELL_OUTERRMSG [98], bootMachine) from rfl)

/-- The second file is refused, and the first one stays open. -/
theorem not_released_input : ¬ ∀ (e : Env) (line : List UInt8) (m m' : Machine) (msg : Message)
    (arg : List UInt8), round e line m = some (.error msg arg, m') → Released m m' := by
  intro hall
  have hsame := hall readOnly catBoth bootMachine { bootMachine with opened := [9] }
    .SHELL_OUTERRMSG [98] rfl
  exact absurd hsame.opened (List.cons_ne_nil _ _)

end Xinu.Shell
