import XinuCMips.Irq.Start
import XinuCMips.Cpu.Core

/-!
# Dispatching interrupts

Both dispatchers make a displacement of the requests that are pending and
enabled and jump into a table of entries of two instructions. The three highest
requests, at bits 15 to 13, are to be the number of the entry, so they have to
end up at bits 5 to 3 of the displacement: a shift by 10. `start.S` shifts by 9,
and neither clears the requests below.

* `dispatch_target`, `standalone_target` — where the two jump to;
* `dispatch_right`                       — **which of these jumps are right.**
-/

namespace Xinu.Irq

open Mips

/-- Entries of the tables, by what their comments say. -/
inductive Entry
  /-- no request: 000 -/
  | noRequest
  /-- lowest priority, IRQ5: 001 -/
  | irq5
  /-- mid priority, IRQ6: 01x -/
  | irq6
  /-- high priority, IRQ7: 1xx -/
  | irq7
  deriving DecidableEq

/-- Both tables have these entries, of 8 bytes each. -/
def entries : List Entry :=
  [.noRequest, .irq5, .irq6, .irq6, .irq7, .irq7, .irq7, .irq7]

/-- The requests IP7..IP0 that are pending and enabled. -/
def requests (s : Cpu) : BitVec 8 := (s.cop0 .CAUSE &&& s.cop0 .STATUS).extractLsb' 8 8

/-- The entry for the highest of the three requests. -/
def wanted (p : BitVec 8) : Entry :=
  if p.getLsbD 7 then .irq7 else if p.getLsbD 6 then .irq6 else if p.getLsbD 5 then .irq5
  else .noRequest

/-- One of the three requests is pending and enabled. -/
def Requested (p : BitVec 8) : Prop := p.getLsbD 7 ∨ p.getLsbD 6 ∨ p.getLsbD 5

instance (p : BitVec 8) : Decidable (Requested p) := by
  unfold Requested
  infer_instance

/-- The jump goes to the start of the entry of the table for the requests `p`. -/
def Right (table : Word) (p : BitVec 8) (target : Word) : Prop :=
  ∃ n : Fin 8, target = table + BitVec.ofNat 32 (8 * n) ∧ entries[n]? = some (wanted p)

/-- What is left of the requests after the mask and a shift right. -/
def displacement (p : BitVec 8) (shift : Nat) : Word := (p.setWidth 32 <<< 8) >>> shift

theorem mask_bits : ∀ i < 32,
    (M_CauseIM.setWidth 32).getLsbD i = (decide (8 ≤ i) && decide (i < 16)) := by
  decide

/-- `M_CauseIM` keeps the bits of the requests. -/
theorem mask_eq (cause status : Word) :
    cause &&& M_CauseIM.setWidth 32 &&& status =
      ((cause &&& status).extractLsb' 8 8).setWidth 32 <<< 8 := by
  apply BitVec.eq_of_getLsbD_eq
  intro i hi
  rw [BitVec.getLsbD_and, BitVec.getLsbD_and, mask_bits i hi, BitVec.getLsbD_shiftLeft,
    BitVec.getLsbD_setWidth, BitVec.getLsbD_extractLsb', BitVec.getLsbD_and]
  by_cases h8 : 8 ≤ i
  · have h1 : 8 + (i - 8) = i := by omega
    by_cases h16 : i < 16
    · have h2 : i - 8 < 8 := by omega
      have h3 : ¬ i < 8 := by omega
      have h4 : i - 8 < 32 := by omega
      simp [h8, h16, hi, h1, h2, h3, h4]
    · have h2 : ¬ i - 8 < 8 := by omega
      simp [h16, h2]
  · have h3 : i < 8 := by omega
    simp [h8, h3]

/-- The two halves of a low address give the address. -/
theorem halves_eq (a : Word) (ha : a.toNat < 0x8000) :
    hiHalf a ++ 0#16 ||| (loHalf a).setWidth 32 = a := by
  have h0 : hiHalf a = 0 := by
    unfold hiHalf
    apply BitVec.eq_of_toNat_eq
    rw [BitVec.toNat_setWidth, BitVec.toNat_ushiftRight, BitVec.toNat_add,
      Nat.shiftRight_eq_div_pow]
    simp
    omega
  rw [h0]
  apply BitVec.eq_of_toNat_eq
  unfold loHalf
  simp
  omega

/-! ## `start.S` -/

/-- Where `dispatch` jumps to. -/
def dispatchTarget (s : Cpu) : Word := ((s.run save).run dispatch).gpr .k1

theorem save_k0 (s : Cpu) : (s.run save).gpr .k0 = s.cop0 .CAUSE := by
  have hregs : (s.run saveRegs).cop0 .CAUSE = s.cop0 .CAUSE :=
    Cpu.run_cop0_of_not_writes (by decide)
  rw [save, Cpu.run_append, ← hregs]
  simp [saveCause, Cpu.exec, Cpu.set_gpr_of_ne]

theorem save_k1 (s : Cpu) : (s.run save).gpr .k1 = s.cop0 .STATUS := by
  have hregs : (s.run saveRegs).cop0 .STATUS = s.cop0 .STATUS :=
    Cpu.run_cop0_of_not_writes (by decide)
  rw [save, Cpu.run_append, ← hregs]
  simp [saveCause, Cpu.exec]

theorem dispatch_target (s : Cpu) :
    dispatchTarget s = handlers_tbl + displacement (requests s) 9 := by
  have hk0 := save_k0 s
  have hk1 := save_k1 s
  unfold dispatchTarget displacement requests
  generalize s.run save = s₁ at hk0 hk1 ⊢
  simp only [dispatch, Cpu.run_cons, Cpu.run_nil, Cpu.exec, Cpu.get, Cpu.set_gpr_same, if_false,
    reduceCtorEq, Cpu.set_gpr_of_ne, ne_eq, not_false_eq_true, hk0, hk1]
  rw [mask_eq, halves_eq handlers_tbl (by decide)]

/-! ## `include/start.s` -/

/-- The table follows the ten instructions at the vector. -/
def standaloneTbl : Word := x_EXCEPTION_0200 + 4 * 10

/-- `_excp_0200`, up to its `jr k1`. -/
def standaloneDispatch : List Instr :=
  [.mfc0 .k0 .CAUSE,
   .andi .k0 .k0 M_CauseIM,
   .mfc0 .k1 .STATUS,
   .and .k0 .k0 .k1,
   .srl .k0 .k0 10,
   .lui .k1 (hiHalf standaloneTbl),
   .ori .k1 .k1 (loHalf standaloneTbl),
   .add .k1 .k1 .k0]

/-- Where it jumps to. -/
def standaloneTarget (s : Cpu) : Word := (s.run standaloneDispatch).gpr .k1

theorem standalone_target (s : Cpu) :
    standaloneTarget s = standaloneTbl + displacement (requests s) 10 := by
  unfold standaloneTarget displacement requests
  simp only [standaloneDispatch, Cpu.run_cons, Cpu.run_nil, Cpu.exec, Cpu.get, Cpu.set_gpr_same,
    Cpu.set_cop0, if_false, reduceCtorEq, Cpu.set_gpr_of_ne, ne_eq, not_false_eq_true]
  rw [mask_eq, halves_eq standaloneTbl (by decide)]

/-! ## Which jumps are right -/

theorem right_iff {table : Word} {p : BitVec 8} {d : Word} : Right table p (table + d) ↔
    ∃ n : Fin 8, d = BitVec.ofNat 32 (8 * n) ∧ entries[n]? = some (wanted p) := by
  unfold Right
  simp only [BitVec.add_right_inj]

/-- A shift by 9 makes a displacement of 16 bytes for each number. -/
theorem shift9_wrong : ∀ p : BitVec 8, Requested p →
    ¬ ∃ n : Fin 8, displacement p 9 = BitVec.ofNat 32 (8 * n) ∧ entries[n]? = some (wanted p) := by
  decide +kernel

/-- A shift by 10 is right if the requests below are not there. -/
theorem shift10_iff : ∀ p : BitVec 8, Requested p →
    ((∃ n : Fin 8, displacement p 10 = BitVec.ofNat 32 (8 * n) ∧ entries[n]? = some (wanted p)) ↔
      p.getLsbD 4 = false ∧ p.getLsbD 3 = false ∧ p.getLsbD 2 = false) := by
  decide +kernel

/-- **Which jumps are right.** With one of IP7, IP6 and IP5 pending and enabled,
the dispatcher of Xinu never jumps to the right entry, and the other one does
if and only if none of IP4, IP3 and IP2 is pending and enabled. -/
theorem dispatch_right (s : Cpu) (h : Requested (requests s)) :
    ¬ Right handlers_tbl (requests s) (dispatchTarget s) ∧
    (Right standaloneTbl (requests s) (standaloneTarget s) ↔
      (requests s).getLsbD 4 = false ∧ (requests s).getLsbD 3 = false ∧
        (requests s).getLsbD 2 = false) := by
  rw [dispatch_target, standalone_target, right_iff, right_iff]
  exact ⟨shift9_wrong _ h, shift10_iff _ h⟩

/-- `irq` of the test bench: C=C U D E 0 0. -/
def irqLines (uart_irq dma_irq counter_irq : Bool) : BitVec 6 :=
  BitVec.ofBool false ++ BitVec.ofBool uart_irq ++ BitVec.ofBool dma_irq ++
    BitVec.ofBool counter_irq ++ 0#2

/-- CAUSE with a request of the UART alone. -/
def uartCause : Cpu.Cause :=
  { bd := false, ti := false, dc := false, iv := true, wp := false,
    hwIrq := irqLines true false false, swIrq := 0, excCode := Cpu.cop0codeInt }

/-- A state with given CAUSE and STATUS. -/
def withCop0 (cause status : Word) : Cpu where
  gpr _ := 0
  hi := 0
  lo := 0
  cop0
    | .CAUSE => cause
    | .STATUS => status
    | .EPC => 0
  mem _ := 0

/-- A request of the UART, with the interrupts enabled that `_start` enables. -/
theorem dispatch_right_uart :
    let s := withCop0 uartCause.word 0x1000f013
    ¬ Right handlers_tbl (requests s) (dispatchTarget s) ∧
      Right standaloneTbl (requests s) (standaloneTarget s) := by
  have h := dispatch_right (withCop0 uartCause.word 0x1000f013) (by decide)
  exact ⟨h.1, h.2.mpr (by decide)⟩

/-- The dispatcher of Xinu jumps to the entry of the timer when the UART asks. -/
theorem dispatch_not_right : ¬ ∀ (cause : Cpu.Cause) (s : Cpu), s.cop0 .CAUSE = cause.word →
    Requested (requests s) → Right handlers_tbl (requests s) (dispatchTarget s) ∧
      Right standaloneTbl (requests s) (standaloneTarget s) := by
  intro h
  have hreq : Requested (requests (withCop0 uartCause.word 0x1000f013)) := by decide
  have hright := (h uartCause (withCop0 uartCause.word 0x1000f013) rfl hreq).1
  rw [dispatch_target, right_iff] at hright
  exact shift9_wrong _ hreq hright

end Xinu.Irq
