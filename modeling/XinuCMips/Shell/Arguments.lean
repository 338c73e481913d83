import Mathlib.Data.UInt
import XinuCMips.Kernel.Steps

/-!
# The stack of a command

`create` builds the stack of a new process with the arguments of its function on it, and
`addargs` replaces one of them, which it finds by its value, by the address of an argument
vector that it writes at the other end of the stack.

* `create_cases`    — what `create` does to the tables and to the free memory;
* `create_argument` — the arguments on the new stack;
* `addargs_ok`      — `addargs` finds the argument that it replaces.
-/

namespace Xinu.Shell

/-- The bytes of the stacks. -/
abbrev Ram := Nat → UInt8

/-- The little-endian word at an address. -/
def word (ram : Ram) (a : Nat) : Nat :=
  (ram a).toNat + 2 ^ 8 * (ram (a + 1)).toNat + 2 ^ 16 * (ram (a + 2)).toNat +
    2 ^ 24 * (ram (a + 3)).toNat

def setWord (a w : Nat) (ram : Ram) : Ram := fun x =>
  if a ≤ x ∧ x < a + 4 then UInt8.ofNat (w / 2 ^ (8 * (x - a))) else ram x

/-- Words one behind the other. -/
def setWords : Nat → List Nat → Ram → Ram
  | _, [], ram => ram
  | a, w :: ws, ram => setWords (a + 4) ws (setWord a w ram)

/-- `memcpy`. -/
def memcpy (a : Nat) (bytes : List UInt8) (ram : Ram) : Ram := fun x =>
  if a ≤ x ∧ x < a + bytes.length then bytes.getD (x - a) 0 else ram x

-- ---------------------------------------------------------------------------
-- `create`
-- ---------------------------------------------------------------------------

def CONTEXT_WORDS : Nat := 16
def STACKMAGIC : Nat := 0x0A0AAAA9
def CONSOLE : Int := 0

/-- The zeroes above the arguments. -/
def padding (nargs : Nat) : Nat :=
  if nargs = 0 then 4 else if nargs % 4 = 0 then 0 else 4 - nargs % 4

/-- The words of a new stack, the lowest first: the context record, the arguments, and what is
above them. -/
def frame (funcaddr initret pid prstkbase prstklen : Nat) (args : List Nat) : List Nat :=
  List.replicate (CONTEXT_WORDS - 2) 0 ++ [initret, funcaddr] ++ args ++
    List.replicate (padding args.length) 0 ++
    [uint32 (usub prstkbase prstklen + 4), prstklen, pid, STACKMAGIC]

/-- What a command line changes: the kernel, the entries of the process table that `create`
and the shell fill in beside it, the stacks, and the devices that are open. -/
structure Machine where
  kernel : Kernel QTab
  prstkptr : Int → Nat
  prdesc : Int → Nat → Int
  ram : Ram
  opened : List Int

/-- `create`: the kernel's part of it, and the stack. -/
def Machine.create (m : Machine) (funcaddr initret ssize : Nat) (priority : Int)
    (args : List Nat) : Int × Machine :=
  let kernel := Xinu.create ssize priority m.kernel
  let pid := kernel.v0 kernel.currpid
  if pid = SYSERR then (SYSERR, { m with kernel := kernel })
  else
    let prptr := kernel.proctab pid
    let words := frame funcaddr initret pid.toNat prptr.prstkbase prptr.prstklen args
    let saddr := prptr.prstkbase - 4 * (words.length - 1)
    (pid, { m with
      kernel := kernel
      prstkptr := Function.update m.prstkptr pid saddr
      prdesc := Function.update m.prdesc pid fun i => if i < 3 then CONSOLE else m.prdesc pid i
      ram := setWords saddr words m.ram })

-- ---------------------------------------------------------------------------
-- `addargs`
-- ---------------------------------------------------------------------------

/-- The loop that looks for a word, with the number of words that are left. -/
def search (ram : Ram) (dummy : Nat) : Nat → Nat → Option Nat
  | 0, _ => none
  | k + 1, a => if word ram a = dummy then some a else search ram dummy k (a + 4)

/-- `addargs`: the status, and the stacks. -/
def addargs (m : Machine) (pid : Int) (ntok : Nat) (tok : List Nat) (tlen : Int)
    (tokbuf : List UInt8) (dummy : Nat) : Int × Ram :=
  if ntok = 0 ∨ tlen < 0 then (SYSERR, m.ram)
  else
    let prptr := m.kernel.proctab pid
    let aloc := uint32 (usub prptr.prstkbase prptr.prstklen + 4)
    let argloc := (aloc + 3) / 4 * 4
    let argstr := argloc + 4 * (ntok + 1)
    let ram := setWords argloc ((tok.take ntok).map (argstr + ·) ++ [0]) m.ram
    let ram := memcpy argstr (tokbuf.take tlen.toNat) ram
    match search ram dummy ((prptr.prstkbase - m.prstkptr pid + 3) / 4) (m.prstkptr pid) with
    | some a => (OK, setWord a argloc ram)
    | none => (SYSERR, ram)

-- ---------------------------------------------------------------------------
-- What `create` does
-- ---------------------------------------------------------------------------

/-- **What `create` does**: it fails and leaves the tables and the free memory as they were, or
a free entry of the process table becomes that of a suspended process. -/
theorem create_cases (ssize : Nat) (priority : Int) (k : Kernel QTab) :
    ((Xinu.create ssize priority k).currpid = k.currpid ∧
      (Xinu.create ssize priority k).v0 k.currpid = SYSERR ∧
      (Xinu.create ssize priority k).proctab = k.proctab ∧
      (Xinu.create ssize priority k).prcount = k.prcount ∧
      (Xinu.create ssize priority k).mem = k.mem) ∨
    ∃ pid, IsPid pid ∧ (k.proctab pid).prstate = .free ∧
      (Xinu.create ssize priority k).currpid = k.currpid ∧
      (Xinu.create ssize priority k).v0 k.currpid = pid ∧
      ((Xinu.create ssize priority k).proctab pid).prstate = .susp ∧
      ((Xinu.create ssize priority k).proctab pid).prstklen = uint32 ssize := by
  unfold Xinu.create
  by_cases hbad : uint32 ssize < MINSTK ∨ pri16 priority ≤ 0
  · rw [if_pos hbad]
    exact .inl ⟨rfl, by simp [Kernel.ret], rfl, rfl, rfl⟩
  · rw [if_neg hbad]
    rcases newpid_cases NPROC.toNat k with ⟨v, heq⟩ | ⟨pid, v, hpid, hfree, heq⟩
    · rw [heq]
      exact .inl ⟨rfl, by simp [Kernel.ret], rfl, rfl, rfl⟩
    · rw [heq]
      dsimp only
      cases hstk : getstk k.bounds (uint32 ssize) k.mem with
      | mk o mem =>
        cases o with
        | none =>
          obtain rfl := getstk_none hstk
          exact .inl ⟨rfl, by simp [Kernel.ret], rfl, rfl, rfl⟩
        | some saddr =>
          refine .inr ⟨pid, hpid, hfree, rfl, ?_, ?_, ?_⟩ <;>
            simp [Kernel.ret, Kernel.log, Kernel.setProc]

-- ---------------------------------------------------------------------------
-- The argument is found
-- ---------------------------------------------------------------------------

section

variable {a b w i k dummy : Nat} {ws : List Nat} {ram : Ram}

theorem word_setWord (a w : Nat) (ram : Ram) : word (setWord a w ram) a = w % 2 ^ 32 := by
  have h0 : a + 0 - a = 0 := by omega
  have h1 : a + 1 - a = 1 := by omega
  have h2 : a + 2 - a = 2 := by omega
  have h3 : a + 3 - a = 3 := by omega
  simp [word, setWord, h1, h2, h3]
  omega

/-- A word elsewhere stays as it is. -/
theorem word_setWord_of_disjoint (h : a + 4 ≤ b ∨ b + 4 ≤ a) :
    word (setWord a w ram) b = word ram b := by
  have hbyte : ∀ j < 4, setWord a w ram (b + j) = ram (b + j) := fun j hj => if_neg (by omega)
  have h0 := hbyte 0 (by decide)
  rw [Nat.add_zero] at h0
  rw [word, word, h0, hbyte 1 (by decide), hbyte 2 (by decide), hbyte 3 (by decide)]

theorem word_setWords_of_le (h : a + 4 * ws.length ≤ b ∨ b + 4 ≤ a) :
    word (setWords a ws ram) b = word ram b := by
  induction ws generalizing a ram with
  | nil => rfl
  | cons w ws ih =>
    rw [List.length_cons] at h
    rw [setWords, ih (by omega), word_setWord_of_disjoint (by omega)]

/-- The words of a frame. -/
theorem word_setWords (hi : ws[i]? = some w) :
    word (setWords a ws ram) (a + 4 * i) = w % 2 ^ 32 := by
  induction ws generalizing a ram i with
  | nil => cases hi
  | cons v ws ih =>
    cases i with
    | zero =>
      obtain rfl : v = w := Option.some.inj hi
      show word (setWords (a + 4) ws (setWord a v ram)) a = _
      rw [word_setWords_of_le (.inr (Nat.le_refl _)), word_setWord]
    | succ i =>
      rw [setWords, show a + 4 * (i + 1) = a + 4 + 4 * i by omega]
      exact ih hi

theorem word_memcpy_of_le {bytes : List UInt8} (h : a + bytes.length ≤ b) :
    word (memcpy a bytes ram) b = word ram b := by
  have hbyte : ∀ j, memcpy a bytes ram (b + j) = ram (b + j) := fun j => if_neg (by omega)
  have h0 := hbyte 0
  rw [Nat.add_zero] at h0
  rw [word, word, h0, hbyte 1, hbyte 2, hbyte 3]

theorem search_found (hi : i < k) (h : word ram (a + 4 * i) = dummy) :
    (search ram dummy k a).isSome = true := by
  induction k generalizing a i with
  | zero => exact absurd hi (Nat.not_lt_zero i)
  | succ k ih =>
    unfold search
    by_cases hhere : word ram a = dummy
    · rw [if_pos hhere]
      rfl
    · rw [if_neg hhere]
      cases i with
      | zero => exact absurd h hhere
      | succ i => exact ih (Nat.lt_of_succ_lt_succ hi) (by rw [← h]; congr 1; omega)

end

section

variable {funcaddr initret pid prstkbase prstklen i : Nat} {args : List Nat}

theorem frame_length : (frame funcaddr initret pid prstkbase prstklen args).length =
    CONTEXT_WORDS + args.length + padding args.length + 4 := by
  simp only [frame, List.length_append, List.length_replicate, List.length_cons, List.length_nil,
    CONTEXT_WORDS]

/-- The arguments stand above the context record. -/
theorem frame_argument (h : i < args.length) :
    (frame funcaddr initret pid prstkbase prstklen args)[CONTEXT_WORDS + i]? = args[i]? := by
  have hcontext : (List.replicate (CONTEXT_WORDS - 2) 0 ++ [initret, funcaddr]).length =
      CONTEXT_WORDS := by
    rw [List.length_append, List.length_replicate]
    rfl
  rw [frame, List.append_assoc, List.append_assoc,
    List.getElem?_append_right (by rw [hcontext]; exact Nat.le_add_right _ _), hcontext,
    Nat.add_sub_cancel_left, List.getElem?_append_left h]

end

/-- The arguments on the stack that `create` builds. -/
theorem create_argument {m m' : Machine} {funcaddr initret ssize i w : Nat} {priority pid : Int}
    {args : List Nat} (h : m.create funcaddr initret ssize priority args = (pid, m'))
    (hpid : pid ≠ SYSERR) (hi : args[i]? = some w) :
    m'.prstkptr pid = (m'.kernel.proctab pid).prstkbase -
        4 * (CONTEXT_WORDS + args.length + padding args.length + 3) ∧
      word m'.ram (m'.prstkptr pid + 4 * (CONTEXT_WORDS + i)) = w % 2 ^ 32 := by
  unfold Machine.create at h
  dsimp only at h
  split at h
  · exact absurd (Prod.mk.inj h).1.symm hpid
  · obtain ⟨rfl, rfl⟩ := Prod.mk.inj h
    dsimp only
    rw [Function.update_self, frame_length]
    refine ⟨rfl, word_setWords ?_⟩
    rw [frame_argument (List.getElem?_eq_some_iff.mp hi).1, hi]

/-- The stack has the length that was asked for. -/
theorem create_prstklen {m m' : Machine} {funcaddr initret ssize : Nat} {priority pid : Int}
    {args : List Nat} (h : m.create funcaddr initret ssize priority args = (pid, m'))
    (hpid : pid ≠ SYSERR) : (m'.kernel.proctab pid).prstklen = uint32 ssize := by
  unfold Machine.create at h
  dsimp only at h
  rcases create_cases ssize priority m.kernel with
    ⟨hcurr, hfail, -⟩ | ⟨pid', -, -, hcurr, hok, -, hlen⟩
  · rw [hcurr, hfail, if_pos rfl] at h
    exact absurd (Prod.mk.inj h).1.symm hpid
  · rw [hcurr, hok] at h
    split at h
    · exact absurd (Prod.mk.inj h).1.symm hpid
    · obtain ⟨rfl, rfl⟩ := Prod.mk.inj h
      exact hlen

/-- Where the vector and the strings end below the frame and the frame holds the dummy
argument, `addargs` succeeds. -/
theorem addargs_ok {m : Machine} {pid : Int} {ntok i dummy : Nat} {tok : List Nat} {tlen : Int}
    {tokbuf : List UInt8} (hntok : 0 < ntok) (htlen : 0 ≤ tlen)
    (hroom : (uint32 (usub (m.kernel.proctab pid).prstkbase (m.kernel.proctab pid).prstklen + 4) +
      3) / 4 * 4 + 4 * (ntok + 1) + tlen.toNat ≤ m.prstkptr pid)
    (hi : m.prstkptr pid + 4 * i < (m.kernel.proctab pid).prstkbase)
    (hdummy : word m.ram (m.prstkptr pid + 4 * i) = dummy) :
    (addargs m pid ntok tok tlen tokbuf dummy).1 = OK := by
  have hargs : ¬ (ntok = 0 ∨ tlen < 0) := by omega
  unfold addargs
  rw [if_neg hargs]
  dsimp only
  generalize (uint32 (usub (m.kernel.proctab pid).prstkbase (m.kernel.proctab pid).prstklen + 4) +
    3) / 4 * 4 = argloc at *
  -- neither the vector nor the strings reach the word
  have hstrings : (tokbuf.take tlen.toNat).length ≤ tlen.toNat := List.length_take_le _ _
  have hvector : ((tok.take ntok).map (argloc + 4 * (ntok + 1) + ·) ++ [0]).length ≤ ntok + 1 := by
    rw [List.length_append, List.length_map, List.length_singleton]
    have hlen := List.length_take_le ntok tok
    omega
  have hword : word (memcpy (argloc + 4 * (ntok + 1)) (tokbuf.take tlen.toNat) (setWords argloc
      ((tok.take ntok).map (argloc + 4 * (ntok + 1) + ·) ++ [0]) m.ram))
      (m.prstkptr pid + 4 * i) = dummy := by
    rw [word_memcpy_of_le (by omega), word_setWords_of_le (.inl (by omega)), hdummy]
  have hfound := search_found (k := ((m.kernel.proctab pid).prstkbase - m.prstkptr pid + 3) / 4)
    (by omega) hword
  obtain ⟨x, hx⟩ := Option.isSome_iff_exists.mp hfound
  rw [hx]

end Xinu.Shell
