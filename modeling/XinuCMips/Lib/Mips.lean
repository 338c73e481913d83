import Mathlib.Data.BitVec
import Mathlib.Logic.Function.Basic

/-!
# Straight-line MIPS code

The instructions that low-level kernel code is made of, without branches and
jumps: moves between the general registers, coprocessor 0, HI, LO and memory,
and a little arithmetic. A block of such code is a list, and `run` executes it.

* `run_append`    — blocks run one after the other;
* `run_gpr_of_not_writes`, `run_cop0_of_not_writes`, `run_mem_of_not_writes` —
  what a block does not write it leaves alone;
* `run_stored`, `run_loaded`, `run_mem_of_ne` — a block that builds a record, relative to a
  register, or takes one apart.
-/

namespace Mips

abbrev Word := BitVec 32

/-- The general registers. -/
inductive Reg
  | zero | AT | v0 | v1 | a0 | a1 | a2 | a3 | t0 | t1 | t2 | t3 | t4 | t5 | t6 | t7
  | s0 | s1 | s2 | s3 | s4 | s5 | s6 | s7 | t8 | t9 | k0 | k1 | gp | sp | fp | ra
  deriving DecidableEq

/-- The registers of coprocessor 0 that exception handlers use. -/
inductive Cop0
  | STATUS | CAUSE | EPC
  deriving DecidableEq

/-- Addresses of memory are those of aligned words. -/
structure Cpu where
  gpr : Reg → Word
  hi : Word
  lo : Word
  cop0 : Cop0 → Word
  mem : Word → Word

inductive Instr
  | addiu (rt rs : Reg) (imm : BitVec 16)
  | andi (rt rs : Reg) (imm : BitVec 16)
  | ori (rt rs : Reg) (imm : BitVec 16)
  | lui (rt : Reg) (imm : BitVec 16)
  /-- without the trap on overflow -/
  | add (rd rs rt : Reg)
  | and (rd rs rt : Reg)
  | or (rd rs rt : Reg)
  | srl (rd rt : Reg) (sa : Nat)
  | lw (rt : Reg) (offset : BitVec 16) (base : Reg)
  | sw (rt : Reg) (offset : BitVec 16) (base : Reg)
  | mfc0 (rt : Reg) (rd : Cop0)
  | mtc0 (rt : Reg) (rd : Cop0)
  | mfhi (rd : Reg)
  | mflo (rd : Reg)
  | mthi (rs : Reg)
  | mtlo (rs : Reg)
  | nop
  deriving DecidableEq

namespace Cpu

variable (s : Cpu)

/-- Register 0 reads as 0. -/
def get (r : Reg) : Word := if r = .zero then 0 else s.gpr r

def set (r : Reg) (v : Word) : Cpu := { s with gpr := Function.update s.gpr r v }

/-- The address of a load or a store. -/
def address (offset : BitVec 16) (base : Reg) : Word := s.get base + offset.signExtend 32

def exec : Instr → Cpu
  | .addiu rt rs imm => s.set rt (s.get rs + imm.signExtend 32)
  | .andi rt rs imm => s.set rt (s.get rs &&& imm.setWidth 32)
  | .ori rt rs imm => s.set rt (s.get rs ||| imm.setWidth 32)
  | .lui rt imm => s.set rt (imm ++ 0#16)
  | .add rd rs rt => s.set rd (s.get rs + s.get rt)
  | .and rd rs rt => s.set rd (s.get rs &&& s.get rt)
  | .or rd rs rt => s.set rd (s.get rs ||| s.get rt)
  | .srl rd rt sa => s.set rd (s.get rt >>> sa)
  | .lw rt offset base => s.set rt (s.mem (s.address offset base))
  | .sw rt offset base => { s with mem := Function.update s.mem (s.address offset base) (s.get rt) }
  | .mfc0 rt rd => s.set rt (s.cop0 rd)
  | .mtc0 rt rd => { s with cop0 := Function.update s.cop0 rd (s.get rt) }
  | .mfhi rd => s.set rd s.hi
  | .mflo rd => s.set rd s.lo
  | .mthi rs => { s with hi := s.get rs }
  | .mtlo rs => { s with lo := s.get rs }
  | .nop => s

/-- Runs a block. -/
def run (code : List Instr) : Cpu := code.foldl exec s

@[simp] theorem run_nil : s.run [] = s := rfl

@[simp] theorem run_cons (i : Instr) (code : List Instr) : s.run (i :: code) = (s.exec i).run code :=
  rfl

theorem run_append (c d : List Instr) : s.run (c ++ d) = (s.run c).run d := List.foldl_append

/-! ## One register -/

@[simp] theorem get_zero : s.get .zero = 0 := rfl

theorem get_of_ne {r : Reg} (h : r ≠ .zero) : s.get r = s.gpr r := if_neg h

@[simp] theorem set_hi (r : Reg) (v : Word) : (s.set r v).hi = s.hi := rfl
@[simp] theorem set_lo (r : Reg) (v : Word) : (s.set r v).lo = s.lo := rfl
@[simp] theorem set_cop0 (r : Reg) (v : Word) : (s.set r v).cop0 = s.cop0 := rfl
@[simp] theorem set_mem (r : Reg) (v : Word) : (s.set r v).mem = s.mem := rfl

@[simp] theorem set_gpr_same (r : Reg) (v : Word) : (s.set r v).gpr r = v := Function.update_self ..

theorem set_gpr_of_ne {r x : Reg} (h : x ≠ r) (v : Word) : (s.set r v).gpr x = s.gpr x :=
  Function.update_of_ne h ..

end Cpu

/-! ## What an instruction writes -/

/-- The general register that an instruction writes. -/
def Instr.target : Instr → Option Reg
  | .addiu rt _ _ | .andi rt _ _ | .ori rt _ _ | .lui rt _ | .lw rt _ _ | .mfc0 rt _ => some rt
  | .add rd _ _ | .and rd _ _ | .or rd _ _ | .srl rd _ _ | .mfhi rd | .mflo rd => some rd
  | .sw .. | .mtc0 .. | .mthi _ | .mtlo _ | .nop => none

/-- The register of coprocessor 0 that an instruction writes. -/
def Instr.target0 : Instr → Option Cop0
  | .mtc0 _ rd => some rd
  | _ => none

def Instr.isStore : Instr → Bool
  | .sw .. => true
  | _ => false

/-- Where the instruction stores: relative to `base`, at an offset that is `ok`. -/
def Instr.storesIn (base : Reg) (ok : BitVec 16 → Bool) : Instr → Bool
  | .sw _ o b => b == base && ok o
  | _ => true

/-- The instruction writes HI or LO. -/
def Instr.setsHiLo : Instr → Bool
  | .mthi _ | .mtlo _ => true
  | _ => false

namespace Cpu

variable {s : Cpu}

theorem exec_gpr {i : Instr} {r : Reg} (h : i.target ≠ some r) : (s.exec i).gpr r = s.gpr r := by
  cases i with
  | sw | mtc0 | mthi | mtlo | nop => rfl
  | _ => exact set_gpr_of_ne s (fun hr => h (congrArg some hr.symm)) _

theorem exec_cop0 {i : Instr} {c : Cop0} (h : i.target0 ≠ some c) : (s.exec i).cop0 c = s.cop0 c := by
  cases i with
  | mtc0 rt rd => exact Function.update_of_ne (fun hc => h (congrArg some hc.symm)) _ _
  | _ => rfl

theorem exec_mem {i : Instr} (h : i.isStore = false) : (s.exec i).mem = s.mem := by
  cases i with
  | sw => simp [Instr.isStore] at h
  | _ => rfl

theorem exec_hilo {i : Instr} (h : i.setsHiLo = false) : (s.exec i).hi = s.hi ∧ (s.exec i).lo = s.lo := by
  cases i with
  | mthi | mtlo => simp [Instr.setsHiLo] at h
  | _ => exact ⟨rfl, rfl⟩

theorem run_hilo_of_not_writes : ∀ {code : List Instr} {s : Cpu},
    (∀ i ∈ code, i.setsHiLo = false) → (s.run code).hi = s.hi ∧ (s.run code).lo = s.lo
  | [], _, _ => ⟨rfl, rfl⟩
  | i :: code, s, h => by
    obtain ⟨hhi, hlo⟩ := exec_hilo (s := s) (h i List.mem_cons_self)
    obtain ⟨hhi', hlo'⟩ :=
      run_hilo_of_not_writes (s := s.exec i) fun j hj => h j (List.mem_cons_of_mem _ hj)
    exact ⟨hhi'.trans hhi, hlo'.trans hlo⟩

theorem run_gpr_of_not_writes {r : Reg} : ∀ {code : List Instr} {s : Cpu},
    (∀ i ∈ code, i.target ≠ some r) → (s.run code).gpr r = s.gpr r
  | [], _, _ => rfl
  | i :: code, s, h => by
    rw [run_cons, run_gpr_of_not_writes fun j hj => h j (List.mem_cons_of_mem _ hj),
      exec_gpr (h i List.mem_cons_self)]

theorem run_cop0_of_not_writes {c : Cop0} : ∀ {code : List Instr} {s : Cpu},
    (∀ i ∈ code, i.target0 ≠ some c) → (s.run code).cop0 c = s.cop0 c
  | [], _, _ => rfl
  | i :: code, s, h => by
    rw [run_cons, run_cop0_of_not_writes fun j hj => h j (List.mem_cons_of_mem _ hj),
      exec_cop0 (h i List.mem_cons_self)]

theorem run_mem_of_not_writes : ∀ {code : List Instr} {s : Cpu},
    (∀ i ∈ code, i.isStore = false) → (s.run code).mem = s.mem
  | [], _, _ => rfl
  | i :: code, s, h => by
    rw [run_cons, run_mem_of_not_writes fun j hj => h j (List.mem_cons_of_mem _ hj),
      exec_mem (h i List.mem_cons_self)]

/-! ## Records

A record is addressed relative to a register `base` that the block leaves alone. -/

variable {code : List Instr} {base r : Reg} {offset : BitVec 16} {k : Nat}

theorem address_ne {o : BitVec 16} {s t : Cpu} (hbase : s.get base = t.get base) (h : o ≠ offset) :
    s.address o base ≠ t.address offset base := by
  unfold address
  rw [hbase]
  intro heq
  have hext : o.signExtend 32 = offset.signExtend 32 := (BitVec.add_right_inj _).mp heq
  refine h (BitVec.eq_of_getLsbD_eq fun i hi => ?_)
  have hbit := congrArg (fun w : Word => w.getLsbD i) hext
  have hi32 : i < 32 := by omega
  simpa only [BitVec.getLsbD_signExtend, hi, hi32, decide_true, Bool.true_and, if_true] using hbit

theorem run_get (h0 : base ≠ .zero) (h : ∀ i ∈ code, i.target ≠ some base) :
    (s.run code).get base = s.get base := by
  rw [get_of_ne _ h0, get_of_ne _ h0, run_gpr_of_not_writes h]

/-- Memory off the offsets of a block is left alone. -/
theorem run_mem_of_ne {ok : BitVec 16 → Bool} (h0 : base ≠ .zero) :
    ∀ {code : List Instr} {s : Cpu} {a : Word}, (∀ i ∈ code, i.target ≠ some base) →
    (∀ i ∈ code, i.storesIn base ok = true) → (∀ o, ok o = true → a ≠ s.address o base) →
    (s.run code).mem a = s.mem a
  | [], _, _, _, _, _ => rfl
  | i :: code, s, a, hbase, hstore, ha => by
    have hi := hstore i List.mem_cons_self
    have hget : (s.exec i).get base = s.get base := by
      rw [get_of_ne _ h0, get_of_ne _ h0, exec_gpr (hbase i List.mem_cons_self)]
    have hrest : ((s.exec i).run code).mem a = (s.exec i).mem a :=
      run_mem_of_ne h0 (fun j hj => hbase j (List.mem_cons_of_mem i hj))
        (fun j hj => hstore j (List.mem_cons_of_mem i hj)) fun o ho => by
          rw [address, hget]
          exact ha o ho
    rw [run_cons, hrest]
    cases i with
    | sw rt o b =>
      rw [Instr.storesIn, Bool.and_eq_true, beq_iff_eq] at hi
      obtain ⟨rfl, ho⟩ := hi
      exact Function.update_of_ne (ha o ho) _ _
    | _ => rfl

/-- What the block stores at an offset, when nothing later in it stores there. -/
theorem run_stored (h0 : base ≠ .zero) (hk : code[k]? = some (.sw r offset base))
    (hbase : ∀ i ∈ code, i.target ≠ some base) 
    (hpost : ∀ i ∈ code.drop (k + 1), i.storesIn base (· != offset) = true) :
    (s.run code).mem (s.get base + offset.signExtend 32) = (s.run (code.take k)).get r := by
  obtain ⟨hlt, hget⟩ := List.getElem?_eq_some_iff.mp hk
  have hsplit : code = code.take k ++ .sw r offset base :: code.drop (k + 1) := by
    rw [← hget, List.getElem_cons_drop, List.take_append_drop]
  have htake : (s.run (code.take k)).get base = s.get base :=
    run_get h0 fun i hi => hbase i (List.mem_of_mem_take hi)
  conv_lhs => rw [hsplit]
  rw [run_append, run_cons]
  have hafter : ((s.run (code.take k)).exec (.sw r offset base)).get base = s.get base := htake
  rw [run_mem_of_ne h0 (fun i hi => hbase i (List.mem_of_mem_drop hi)) hpost]
  · show Function.update _ _ _ _ = _
    rw [address, htake, Function.update_self]
  · intro o ho
    exact (address_ne hafter fun h => (bne_iff_ne.mp ho) h).symm

/-- The next instruction of a block. -/
theorem run_drop {i : Instr} (hk : code[k]? = some i) :
    s.run (code.drop k) = (s.exec i).run (code.drop (k + 1)) := by
  obtain ⟨hlt, hget⟩ := List.getElem?_eq_some_iff.mp hk
  rw [← hget, ← run_cons, List.getElem_cons_drop]

/-- What a register holds is up to the last instruction that writes it. -/
theorem run_last {i : Instr} (hk : code[k]? = some i)
    (hpost : ∀ i ∈ code.drop (k + 1), i.target ≠ some r) :
    (s.run code).gpr r = ((s.run (code.take k)).exec i).gpr r := by
  obtain ⟨hlt, hget⟩ := List.getElem?_eq_some_iff.mp hk
  have hsplit : code = code.take k ++ i :: code.drop (k + 1) := by
    rw [← hget, List.getElem_cons_drop, List.take_append_drop]
  conv_lhs => rw [hsplit]
  rw [run_append, run_cons, run_gpr_of_not_writes hpost]

/-- What the block loads from an offset, when nothing later in it writes the register. -/
theorem run_loaded (h0 : base ≠ .zero) (hk : code[k]? = some (.lw r offset base))
    (hbase : ∀ i ∈ code.take k, i.target ≠ some base) (hmem : ∀ i ∈ code.take k, i.isStore = false)
    (hpost : ∀ i ∈ code.drop (k + 1), i.target ≠ some r) :
    (s.run code).gpr r = s.mem (s.get base + offset.signExtend 32) := by
  rw [run_last hk hpost]
  show ((s.run (code.take k)).set r _).gpr r = _
  rw [set_gpr_same, run_mem_of_not_writes hmem, address, run_get h0 hbase]

end Cpu

end Mips
