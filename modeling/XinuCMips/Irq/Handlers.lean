import XinuCMips.Irq.Dispatch

/-!
# The code around a handler

The text of `start.S` from `handlers_tbl` to the `eret`. A jump of the text has a `nop` in its
delay slot, which is left out when the jump is made.

* `walk_ops`    — straight-line code of the text;
* `enter_lands` — where a dispatch that stays in the table, or reaches `uart` behind it,
  ends: at a call of a handler with the record and two words more on the stack, or it aborts.
-/

namespace Xinu.Irq

open Mips

/-- An instruction of the text. -/
inductive Item
  | op (i : Instr)
  /-- to an instruction of the text -/
  | j (target : Nat)
  | jal
  | wait
  | eret
  deriving DecidableEq

/-- `uart` and `clk` up to the call of the handler. -/
def callHandler : List Instr :=
  [.addiu .sp .sp (-8),
   .mfc0 .v0 .STATUS,
   li .a0 (~~~STATUS_IE),
   .and .a1 .v0 .a0,
   .sw .v0 4 .sp,
   li .a2 (~~~STATUS_EXL),
   .and .v0 .a1 .a2,
   .mtc0 .a1 .STATUS]

/-- `uart` and `clk` after the call, up to the return to exception level. -/
def afterHandler : List Instr :=
  [.lw .v0 4 .sp,
   .addiu .sp .sp 8,
   li .a2 STATUS_EXL,
   .or .v0 .v0 .a2]

def setStatus : Instr := .mtc0 .v0 .STATUS

/-- `_restore`. -/
def restoreRegs : List Instr :=
  [.lw .t0 IRQREC_HI .sp,
   .lw .t1 IRQREC_LO .sp,
   .mthi .t0,
   .mtlo .t1,
   .lw .ra IRQREC_RA .sp,
   .lw .fp IRQREC_S9 .sp,
   .lw .gp IRQREC_S8 .sp,
   .lw .t9 IRQREC_T9 .sp,
   .lw .t8 IRQREC_T8 .sp,
   .lw .s7 IRQREC_S7 .sp,
   .lw .s6 IRQREC_S6 .sp,
   .lw .s5 IRQREC_S5 .sp,
   .lw .s4 IRQREC_S4 .sp,
   .lw .s3 IRQREC_S3 .sp,
   .lw .s2 IRQREC_S2 .sp,
   .lw .s1 IRQREC_S1 .sp,
   .lw .s0 IRQREC_S0 .sp,
   .lw .t7 IRQREC_T7 .sp,
   .lw .t6 IRQREC_T6 .sp,
   .lw .t5 IRQREC_T5 .sp,
   .lw .t4 IRQREC_T4 .sp,
   .lw .t3 IRQREC_T3 .sp,
   .lw .t2 IRQREC_T2 .sp,
   .lw .t1 IRQREC_T1 .sp,
   .lw .t0 IRQREC_T0 .sp,
   .lw .a3 IRQREC_A3 .sp,
   .lw .a2 IRQREC_A2 .sp,
   .lw .a1 IRQREC_A1 .sp,
   .lw .a0 IRQREC_A0 .sp,
   .lw .v1 IRQREC_V1 .sp,
   .lw .v0 IRQREC_V0 .sp,
   .lw .k0 IRQREC_EPC .sp,
   .lw .AT IRQREC_AT .sp,
   .mtc0 .k0 .EPC]

/-- `dismiss`, up to its `eret`. -/
def dismiss : List Instr :=
  [.lw .k0 IRQREC_STATUS .sp,
   .addiu .sp .sp IRQREC_SIZE,
   .ori .k0 .k0 M_StatusIEn,
   .addiu .k1 .zero (-3),
   .and .k0 .k0 .k1,
   .mtc0 .k0 .STATUS]

def ops (code : List Instr) : List Item := code.map Item.op

def delaySlot : Item := .op .nop

def table : List Item :=
  [.wait, delaySlot, .wait, delaySlot, .j 16, delaySlot, .j 16, delaySlot, .j 33, delaySlot, .j 33, delaySlot, .j 33, delaySlot, .j 33,
   delaySlot]

def uart : List Item :=
  ops callHandler ++ [Item.jal, delaySlot] ++ ops afterHandler ++ [Item.op setStatus, Item.j 48, delaySlot]

def clk : List Item :=
  ops callHandler ++ [Item.jal, delaySlot] ++ ops afterHandler ++ [Item.op setStatus]

/-- The text from `handlers_tbl` on. -/
def text : List Item := table ++ uart ++ clk ++ ops restoreRegs ++ ops dismiss ++ [Item.eret]

/-- The address of an instruction of the text. -/
def textAddr (n : Nat) : Word := handlers_tbl + BitVec.ofNat 32 (4 * n)

/-- The return addresses of the two calls. -/
def uartRet : Word := textAddr 26
def clkRet : Word := textAddr 43

/-- How the way through the text ends: with the call of a handler, with an `eret`, or the
simulation is aborted. -/
inductive Entered
  | called (ret : Word) (s : Cpu)
  | erets (s : Cpu)
  | aborted

/-- Runs the text from an instruction on. -/
def walk : Nat → Nat → Cpu → Entered
  | 0, _, _ => .aborted
  | k + 1, n, s =>
      match text[n]? with
      | some (.op i) => walk k (n + 1) (s.exec i)
      | some (.j m) => walk k m s
      | some .jal => .called (textAddr (n + 2)) (s.set .ra (textAddr (n + 2)))
      | some .eret => .erets s
      | some .wait | none => .aborted

/-- The exception vector. A jump to an address that is not aligned is an exception, which
aborts. -/
def enter (s : Cpu) : Entered :=
  let t := (s.run save).run dispatch
  let d := (t.gpr .k1 - handlers_tbl).toNat
  if d % 4 = 0 then walk (text.length + 1) (d / 4) t else .aborted

/-- The two calls of handlers, at a return address. -/
def called (s : Cpu) (ret : Word) : Cpu := (((s.run save).run dispatch).run callHandler).set .ra ret

/-- The dispatch stays in the table, or reaches `uart` behind it: IP7 has none of IP6 to IP1
at its side. -/
def Lands (p : BitVec 8) : Prop := p.toNat / 2 ≤ 64 ∨ p.toNat / 2 % 4 ≠ 0

instance (p : BitVec 8) : Decidable (Lands p) := by
  unfold Lands
  infer_instance

theorem displacement_eq (p : BitVec 8) : (displacement p 9).toNat = p.toNat / 2 := by
  have hp := p.isLt
  rw [displacement, BitVec.toNat_ushiftRight, BitVec.toNat_shiftLeft, BitVec.toNat_setWidth,
    Nat.shiftLeft_eq, Nat.shiftRight_eq_div_pow]
  omega

/-- Straight-line code of the text. -/
theorem walk_ops {code : List Instr} {n : Nat}
    (h : ∀ i < code.length, text[n + i]? = (code[i]?).map Item.op) (k : Nat) (t : Cpu) :
    walk (k + code.length) n t = walk k (n + code.length) (t.run code) := by
  induction code generalizing n t with
  | nil => rfl
  | cons i code ih =>
    have hhead : text[n]? = some (.op i) := h 0 (Nat.zero_lt_succ _)
    have htail : ∀ j < code.length, text[n + 1 + j]? = (code[j]?).map Item.op := fun j hj => by
      have hj' := h (j + 1) (Nat.succ_lt_succ hj)
      rw [Nat.add_right_comm, Nat.add_assoc]
      exact hj'
    rw [List.length_cons, ← Nat.add_assoc, walk, hhead, Cpu.run_cons, ← Nat.add_assoc,
      Nat.add_right_comm n]
    exact ih htail (t.exec i)

theorem walk_jump {n m : Nat} (h : text[n]? = some (.j m)) (k : Nat) (t : Cpu) :
    walk (k + 1) n t = walk k m t := by
  simp only [walk, h]

theorem walk_eret {n : Nat} (h : text[n]? = some .eret) (k : Nat) (t : Cpu) :
    walk (k + 1) n t = .erets t := by
  simp only [walk, h]

/-- The way from `uart`, with enough steps left. -/
theorem walk_uart (k : Nat) (t : Cpu) :
    walk (k + 9) 16 t = .called uartRet ((t.run callHandler).set .ra uartRet) := rfl

/-- The way from `clk`, with enough steps left. -/
theorem walk_clk (k : Nat) (t : Cpu) :
    walk (k + 9) 33 t = .called clkRet ((t.run callHandler).set .ra clkRet) := rfl

/-- From the table, and from `uart`, the text leads to a call of a handler or aborts. -/
theorem walk_table (t : Cpu) (k : Nat) : ∀ n ≤ 16,
    walk (k + 11) n t = .called uartRet ((t.run callHandler).set .ra uartRet) ∨
      walk (k + 11) n t = .called clkRet ((t.run callHandler).set .ra clkRet) ∨
      walk (k + 11) n t = .aborted
  | 0, _ | 1, _ | 2, _ => .inr (.inr rfl)
  | 3, _ | 5, _ => .inl (walk_uart k t)
  | 4, _ | 6, _ => .inl (walk_uart (k + 1) t)
  | 7, _ | 9, _ | 11, _ | 13, _ => .inr (.inl (walk_clk k t))
  | 8, _ | 10, _ | 12, _ | 14, _ => .inr (.inl (walk_clk (k + 1) t))
  | 15, _ => .inl (walk_uart (k + 1) t)
  | 16, _ => .inl (walk_uart (k + 2) t)
  | n + 17, h => absurd h (by omega)

theorem dispatch_displacement (s : Cpu) :
    (((s.run save).run dispatch).gpr .k1 - handlers_tbl).toNat = (requests s).toNat / 2 := by
  have hk1 := dispatch_target s
  unfold dispatchTarget at hk1
  rw [hk1, BitVec.add_comm, BitVec.add_sub_cancel, displacement_eq]

/-- Where a dispatch that lands ends. -/
theorem enter_lands {s : Cpu} (h : Lands (requests s)) :
    enter s = .called uartRet (called s uartRet) ∨ enter s = .called clkRet (called s clkRet) ∨
      enter s = .aborted := by
  have htarget := dispatch_displacement s
  unfold enter
  simp only [htarget]
  by_cases halign : (requests s).toNat / 2 % 4 = 0
  · rw [if_pos halign]
    have hle : (requests s).toNat / 2 ≤ 64 := h.resolve_right fun hne => hne halign
    exact walk_table _ 79 _ (by omega)
  · rw [if_neg halign]
    exact .inr (.inr rfl)

end Xinu.Irq
