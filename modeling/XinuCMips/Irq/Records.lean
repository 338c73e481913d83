import XinuCMips.Irq.Switch

/-!
# Records on the stack

What the entry of an interrupt writes on the stack, and what the way to the `eret` reads
back; and the same of the two halves of `ctxsw`.

* `called_recorded`, `called_mem` — the record of an interrupt, and that nothing else is
  written;
* `popRecord_get`                 — what is read back;
* `ctxsw_saved`, `ctxsw_mem`      — the context of a process, and that nothing else is written;
* `ctxsw_loaded`                  — the process that gets the CPU has its context.
-/

namespace Xinu.Irq

open Mips

/-- The `n` words below a stack pointer. -/
def below (sp : Word) (n : Nat) : List Word :=
  (List.range n).map fun k => sp - BitVec.ofNat 32 (4 * (k + 1))

/-- An offset into a block of `n` words that has been pushed. -/
theorem mem_below {sp : Word} {n : Nat} {o : BitVec 16} (hn : 4 * n < 2 ^ 15)
    (ho : o.toNat % 4 = 0 ∧ o.toNat < 4 * n) :
    sp - BitVec.ofNat 32 (4 * n) + o.signExtend 32 ∈ below sp n := by
  obtain ⟨h4, hlt⟩ := ho
  refine List.mem_map.mpr ⟨n - 1 - o.toNat / 4, List.mem_range.mpr (by omega), ?_⟩
  have hext : o.signExtend 32 = BitVec.ofNat 32 o.toNat := by
    have hmsb : o.msb = false := by
      rw [BitVec.msb_eq_decide]
      exact decide_eq_false (by omega)
    rw [BitVec.signExtend_eq_setWidth_of_msb_false hmsb]
    exact BitVec.eq_of_toNat_eq (by rw [BitVec.toNat_setWidth, BitVec.toNat_ofNat])
  have hsum : 4 * (n - 1 - o.toNat / 4 + 1) + o.toNat = 4 * n := by omega
  rw [hext, ← hsum, BitVec.ofNat_add, sub_add_eq_sub_sub, sub_add_cancel]

theorem below_mono {sp a : Word} {m n : Nat} (h : m ≤ n) (ha : a ∈ below sp m) : a ∈ below sp n := by
  obtain ⟨k, hk, rfl⟩ := List.mem_map.mp ha
  have hlt := List.mem_range.mp hk
  exact List.mem_map.mpr ⟨k, List.mem_range.mpr (by omega), rfl⟩

/-- The words below those that have been pushed. -/
theorem below_add {sp a : Word} {m n : Nat} (ha : a ∈ below (sp - BitVec.ofNat 32 (4 * m)) n) :
    a ∈ below sp (m + n) := by
  obtain ⟨k, hk, rfl⟩ := List.mem_map.mp ha
  have hlt := List.mem_range.mp hk
  refine List.mem_map.mpr ⟨m + k, List.mem_range.mpr (by omega), ?_⟩
  have hsum : 4 * (m + k + 1) = 4 * m + 4 * (k + 1) := by omega
  rw [hsum, BitVec.ofNat_add, sub_add_eq_sub_sub]

/-- What has been pushed is not below it. -/
theorem not_below {base : Word} {n : Nat} {o : BitVec 16} (hn : 4 * n < 2 ^ 15)
    (ho : o.msb = false) : base + o.signExtend 32 ∉ below base n := by
  intro hin
  obtain ⟨k, hk, heq⟩ := List.mem_map.mp hin
  have hlt := List.mem_range.mp hk
  have ho16 := o.isLt
  rw [BitVec.signExtend_eq_setWidth_of_msb_false ho, sub_eq_iff_eq_add, add_assoc] at heq
  have hzero := left_eq_add.mp heq
  have hnat := congrArg BitVec.toNat hzero
  rw [BitVec.toNat_add, BitVec.toNat_setWidth, BitVec.toNat_ofNat] at hnat
  change _ = 0 at hnat
  omega

-- ---------------------------------------------------------------------------
-- The record of an interrupt
-- ---------------------------------------------------------------------------

/-- The registers of the record, but for `k0`, `k1` and `sp`. -/
def saved : List (Reg × BitVec 16) :=
  [(.AT, IRQREC_AT), (.v0, IRQREC_V0), (.v1, IRQREC_V1), (.a0, IRQREC_A0), (.a1, IRQREC_A1),
   (.a2, IRQREC_A2), (.a3, IRQREC_A3), (.t0, IRQREC_T0), (.t1, IRQREC_T1), (.t2, IRQREC_T2),
   (.t3, IRQREC_T3), (.t4, IRQREC_T4), (.t5, IRQREC_T5), (.t6, IRQREC_T6), (.t7, IRQREC_T7),
   (.s0, IRQREC_S0), (.s1, IRQREC_S1), (.s2, IRQREC_S2), (.s3, IRQREC_S3), (.s4, IRQREC_S4),
   (.s5, IRQREC_S5), (.s6, IRQREC_S6), (.s7, IRQREC_S7), (.t8, IRQREC_T8), (.t9, IRQREC_T9),
   (.gp, IRQREC_S8), (.fp, IRQREC_S9), (.ra, IRQREC_RA)]

theorem mem_saved {r : Reg} (hzero : r ≠ .zero) (hk0 : r ≠ .k0) (hk1 : r ≠ .k1) (hsp : r ≠ .sp) :
    ∃ e ∈ saved, e.1 = r := by
  cases r <;> first | contradiction | decide

/-- What `_restore` and `dismiss` read. -/
def recordOffsets : List (BitVec 16) :=
  saved.map Prod.snd ++ [IRQREC_HI, IRQREC_LO, IRQREC_EPC, IRQREC_STATUS]

def recordWords (base : Word) : List Word := recordOffsets.map fun o => base + o.signExtend 32

/-- The registers of `c` and a PC are in the record at `base`. -/
structure Recorded (mem : Word → Word) (base : Word) (c : Cpu) (epc : Word) : Prop where
  regs : ∀ e ∈ saved, mem (base + e.2.signExtend 32) = c.gpr e.1
  hi : mem (base + IRQREC_HI.signExtend 32) = c.hi
  lo : mem (base + IRQREC_LO.signExtend 32) = c.lo
  epc : mem (base + IRQREC_EPC.signExtend 32) = epc

theorem recordOffsets_msb {o : BitVec 16} (h : o ∈ recordOffsets) : o.msb = false := by
  have hall : recordOffsets.all (fun o => !o.msb) = true := rfl
  simpa only [Bool.not_eq_true'] using List.all_eq_true.mp hall o h

theorem mem_recordWords {base : Word} {o : BitVec 16} (h : o ∈ recordOffsets) :
    base + o.signExtend 32 ∈ recordWords base :=
  List.mem_map_of_mem h

/-- The record is in the 42 words below. -/
theorem recordWords_below {sp a : Word} (h : a ∈ recordWords (sp - 168)) : a ∈ below sp 42 := by
  obtain ⟨o, ho, rfl⟩ := List.mem_map.mp h
  have hall : recordOffsets.all (fun o => decide (o.toNat % 4 = 0 ∧ o.toNat < 4 * 42)) = true := rfl
  exact mem_below (n := 42) (by decide) (of_decide_eq_true (List.all_eq_true.mp hall o ho))

theorem Recorded.frame {mem mem' : Word → Word} {base epc : Word} {c : Cpu}
    (h : Recorded mem base c epc) (hmem : ∀ a ∈ recordWords base, mem' a = mem a) :
    Recorded mem' base c epc where
  regs e he := (hmem _ (mem_recordWords (List.mem_append_left _ (List.mem_map_of_mem he)))).trans
    (h.regs e he)
  hi := (hmem _ (mem_recordWords (by decide))).trans h.hi
  lo := (hmem _ (mem_recordWords (by decide))).trans h.lo
  epc := (hmem _ (mem_recordWords (by decide))).trans h.epc

/-! ## The entry -/

/-- The entry when it has moved the stack pointer. -/
def pushed (s : Cpu) : Cpu := s.exec (.addiu .sp .sp (-IRQREC_SIZE))

theorem pushed_gpr (s : Cpu) {r : Reg} (hr : r ≠ .sp) : (pushed s).gpr r = s.gpr r :=
  Cpu.exec_gpr fun h => hr (Option.some.inj h).symm

/-- The entry once the stack pointer is moved. -/
def record : List Instr := save.tail ++ dispatch

theorem entry_run (s : Cpu) : (s.run save).run dispatch = (pushed s).run record := by
  have hsave : save = .addiu .sp .sp (-IRQREC_SIZE) :: save.tail := by decide
  rw [hsave, Cpu.run_cons, record, Cpu.run_append]
  rfl

theorem called_run (s : Cpu) (ret : Word) :
    called s ret = (((pushed s).run record).run callHandler).set .ra ret := by
  rw [called, entry_run]

theorem pushed_sp (s : Cpu) : (pushed s).gpr .sp = s.gpr .sp - 168 := by
  have hsize : (-IRQREC_SIZE).signExtend 32 = -168#32 := by decide
  have hzero : Reg.sp ≠ .zero := nofun
  rw [pushed, Cpu.exec, Cpu.set_gpr_same, hsize, Cpu.get_of_ne _ hzero, BitVec.sub_eq_add_neg]
  rfl

theorem record_keeps_sp : ∀ i ∈ record, i.target ≠ some .sp := by decide

theorem saved_at : ∀ e ∈ saved, ∃ k < record.length,
    record[k]? = some (Instr.sw e.1 e.2 .sp) ∧
    (∀ i ∈ record.take k, i.target ≠ some e.1) ∧
    (∀ i ∈ record.drop (k + 1), i.storesIn .sp (· != e.2) = true) ∧ e.1 ≠ .sp ∧ e.1 ≠ .zero := by
  decide +kernel

/-- What the entry stores of the interrupted context, at an index of the record. -/
theorem record_stored (s : Cpu) {r : Reg} {offset : BitVec 16} {k : Nat} (hr : r ≠ .zero)
    (hk : record[k]? = some (Instr.sw r offset .sp))
    (hpost : ∀ i ∈ record.drop (k + 1), i.storesIn .sp (· != offset) = true) :
    ((pushed s).run record).mem (s.gpr .sp - 168 + offset.signExtend 32) =
      ((pushed s).run (record.take k)).gpr r := by
  have hzero : Reg.sp ≠ .zero := nofun
  have hstored := Cpu.run_stored (s := pushed s) hzero hk record_keeps_sp hpost
  rw [Cpu.get_of_ne _ hzero, pushed_sp, Cpu.get_of_ne _ hr] at hstored
  exact hstored

theorem record_aligned : ∀ i ∈ record,
    i.storesIn .sp (fun o => o.toNat % 4 = 0 ∧ o.toNat < 4 * 42) = true := by
  decide

theorem record_mem {s : Cpu} {a : Word} (ha : a ∉ below (s.gpr .sp) 42) :
    ((pushed s).run record).mem a = s.mem a := by
  have hzero : Reg.sp ≠ .zero := nofun
  refine Cpu.run_mem_of_ne hzero record_keeps_sp record_aligned fun o ho heq => ha ?_
  rw [heq, Cpu.address, Cpu.get_of_ne _ hzero, pushed_sp]
  exact mem_below (by decide) (of_decide_eq_true ho)

/-- The stack pointer that the handler gets. -/
theorem callHandler_sp (u : Cpu) : (u.run callHandler).gpr .sp = u.gpr .sp - 8 := by
  simp [callHandler, li, Cpu.exec, Cpu.get, Cpu.set_gpr_of_ne, BitVec.sub_eq_add_neg]

/-- `callHandler` saves `STATUS` below the record. -/
theorem callHandler_mem {u : Cpu} {a : Word} (ha : a ∉ below (u.gpr .sp) 2) :
    (u.run callHandler).mem a = u.mem a := by
  have hsp : (u.exec (.addiu .sp .sp (-8))).get .sp = u.gpr .sp - BitVec.ofNat 32 (4 * 2) := by
    simp [Cpu.exec, Cpu.get, BitVec.sub_eq_add_neg]
  have htail : ∀ i ∈ callHandler.tail, i.target ≠ some .sp ∧
      i.storesIn .sp (fun o => o.toNat % 4 = 0 ∧ o.toNat < 4 * 2) = true := by
    decide
  change ((u.exec (.addiu .sp .sp (-8))).run callHandler.tail).mem a = _
  have hzero : Reg.sp ≠ .zero := by decide
  refine Cpu.run_mem_of_ne hzero (fun i hi => (htail i hi).1)
    (fun i hi => (htail i hi).2) fun o ho heq => ha ?_
  rw [heq, Cpu.address, hsp]
  exact mem_below (by decide) (of_decide_eq_true ho)

theorem record_run_sp (s : Cpu) : ((pushed s).run record).gpr .sp = s.gpr .sp - 168 := by
  have hzero : Reg.sp ≠ .zero := nofun
  have hsp := Cpu.run_get (s := pushed s) hzero record_keeps_sp
  rw [Cpu.get_of_ne _ hzero, Cpu.get_of_ne _ hzero, pushed_sp] at hsp
  exact hsp

theorem called_sp (s : Cpu) (ret : Word) : (called s ret).gpr .sp = s.gpr .sp - 168 - 8 := by
  have hra : Reg.sp ≠ .ra := nofun
  rw [called_run, Cpu.set_gpr_of_ne _ hra, callHandler_sp, record_run_sp]

/-- Nothing is written but 44 words below the stack pointer. -/
theorem called_mem {s : Cpu} {a : Word} (ret : Word) (ha : a ∉ below (s.gpr .sp) 44) :
    (called s ret).mem a = s.mem a := by
  rw [called_run, Cpu.set_mem]
  have hrecord : a ∉ below (s.gpr .sp) 42 := fun hin => ha (below_mono (by decide) hin)
  rw [callHandler_mem, record_mem hrecord]
  rw [record_run_sp]
  exact fun hin => ha (below_add (m := 42) hin)

/-- **The record of an interrupt**, below what was on the stack. -/
theorem record_recorded (s : Cpu) :
    Recorded ((pushed s).run record).mem (s.gpr .sp - 168) s (s.cop0 .EPC) where
  regs e he := by
    obtain ⟨k, -, hk, hpre, hpost, hsp, hzero⟩ := saved_at e he
    have hstored := record_stored s hzero hk hpost
    rw [Cpu.run_gpr_of_not_writes hpre] at hstored
    exact hstored.trans (pushed_gpr s hsp)
  hi := by
    have hk : record[35]? = some (Instr.sw .t0 IRQREC_HI .sp) := by decide
    have hset : (record.take 35)[33]? = some (Instr.mfhi .t0) := by decide
    have hlast : ∀ i ∈ (record.take 35).drop 34, i.target ≠ some .t0 := by decide
    have hpost : ∀ i ∈ record.drop 36, i.storesIn .sp (· != IRQREC_HI) = true := by decide
    have hhilo : ∀ i ∈ (record.take 35).take 33, i.setsHiLo = false := by decide
    have hzero : Reg.t0 ≠ .zero := nofun
    have hhi := (Cpu.run_hilo_of_not_writes (s := pushed s) hhilo).1
    have hstored := record_stored s hzero hk hpost
    rw [Cpu.run_last hset hlast] at hstored
    exact (hstored.trans (Cpu.set_gpr_same ..)).trans hhi
  lo := by
    have hk : record[36]? = some (Instr.sw .t1 IRQREC_LO .sp) := by decide
    have hset : (record.take 36)[34]? = some (Instr.mflo .t1) := by decide
    have hlast : ∀ i ∈ (record.take 36).drop 35, i.target ≠ some .t1 := by decide
    have hpost : ∀ i ∈ record.drop 37, i.storesIn .sp (· != IRQREC_LO) = true := by decide
    have hhilo : ∀ i ∈ (record.take 36).take 34, i.setsHiLo = false := by decide
    have hzero : Reg.t1 ≠ .zero := nofun
    have hlo := (Cpu.run_hilo_of_not_writes (s := pushed s) hhilo).2
    have hstored := record_stored s hzero hk hpost
    rw [Cpu.run_last hset hlast] at hstored
    exact (hstored.trans (Cpu.set_gpr_same ..)).trans hlo
  epc := by
    have hk : record[2]? = some (Instr.sw .k1 IRQREC_EPC .sp) := by decide
    have hset : (record.take 2)[0]? = some (Instr.mfc0 .k1 .EPC) := by decide
    have hlast : ∀ i ∈ (record.take 2).drop 1, i.target ≠ some .k1 := by decide
    have hpost : ∀ i ∈ record.drop 3, i.storesIn .sp (· != IRQREC_EPC) = true := by decide
    have hzero : Reg.k1 ≠ .zero := nofun
    have hstored := record_stored s hzero hk hpost
    rw [Cpu.run_last hset hlast] at hstored
    exact hstored

/-- The handler finds the record. -/
theorem called_recorded (s : Cpu) (ret : Word) :
    Recorded (called s ret).mem (s.gpr .sp - 168) s (s.cop0 .EPC) := by
  refine (record_recorded s).frame fun a ha => ?_
  obtain ⟨o, ho, rfl⟩ := List.mem_map.mp ha
  have hbelow : s.gpr .sp - 168 + o.signExtend 32 ∉ below (((pushed s).run record).gpr .sp) 2 := by
    rw [record_run_sp]
    exact not_below (by decide) (recordOffsets_msb ho)
  rw [called_run, Cpu.set_mem]
  exact callHandler_mem hbelow

/-! ## The exit -/

/-- From the return to exception level on. -/
def popRecord : List Instr := restoreRegs ++ dismiss

theorem popRecord_loads : ∀ e ∈ saved, ∃ k < popRecord.length,
    popRecord[k]? = some (Instr.lw e.1 e.2 .sp) ∧
    (∀ i ∈ popRecord.take k, i.target ≠ some .sp ∧ i.isStore = false) ∧
    ∀ i ∈ popRecord.drop (k + 1), i.target ≠ some e.1 := by
  decide +kernel

/-- The way from the record to the `eret`, with enough steps left. -/
theorem walk_popRecord (k : Nat) (t : Cpu) :
    walk (k + 1 + popRecord.length) 48 t = .erets (t.run popRecord) := by
  have hops : ∀ i < popRecord.length, text[48 + i]? = (popRecord[i]?).map Item.op := by
    decide
  have heret : text[48 + popRecord.length]? = some Item.eret := by decide
  exact (walk_ops hops (k + 1) t).trans (walk_eret heret k _)

/-- The way from code that ends with a jump to `_restore`. -/
theorem walk_restore {code : List Instr} {n : Nat}
    (hops : ∀ i < code.length, text[n + i]? = (code[i]?).map Item.op)
    (hj : text[n + code.length]? = some (Item.j 48)) (k : Nat) (t : Cpu) :
    walk (k + 1 + popRecord.length + 1 + code.length) n t = .erets ((t.run code).run popRecord) := by
  rw [walk_ops hops, walk_jump hj, walk_popRecord]

/-- The end of `uart`, without the stack. -/
def raise : List Instr := [li .a2 STATUS_EXL, .or .v0 .v0 .a2, setStatus]

theorem raise_targets : ∀ i ∈ raise, i.target ≠ some .sp ∧ i.isStore = false := by decide

/-- The entries from which no handler is called and the record is popped again. -/
def Skips (p : BitVec 8) : Prop := p.toNat / 2 = 112 ∨ p.toNat / 2 = 124

instance (p : BitVec 8) : Decidable (Skips p) := by
  unfold Skips
  infer_instance

/-- Where an aligned displacement leads. -/
theorem enter_at {s : Cpu} {n : Nat} (h : (requests s).toNat / 2 = 4 * n) :
    enter s = walk (text.length + 1) n ((s.run save).run dispatch) := by
  have htarget := dispatch_displacement s
  have hmod : 4 * n % 4 = 0 := Nat.mul_mod_right 4 n
  have hdiv : 4 * n / 4 = n := Nat.mul_div_cancel_left n (by decide)
  unfold enter
  simp only [htarget, h, hmod, if_true, hdiv]

theorem enter_skips {s : Cpu} (h : Skips (requests s)) :
    ∃ u : Cpu, enter s = .erets (u.run popRecord) ∧ u.gpr .sp = s.gpr .sp - 168 ∧
      u.mem = ((pushed s).run record).mem := by
  rcases h with h | h
  · have hlen : text.length + 1 = 45 + 1 + popRecord.length + 1 + raise.length := by decide
    have hops : ∀ i < raise.length, text[28 + i]? = (raise[i]?).map Item.op := by decide
    have hj : text[28 + raise.length]? = some (Item.j 48) := by decide
    have henter := enter_at (n := 28) h
    rw [entry_run, hlen, walk_restore hops hj] at henter
    exact ⟨_, henter,
      (Cpu.run_gpr_of_not_writes fun i hi => (raise_targets i hi).1).trans (record_run_sp s),
      Cpu.run_mem_of_not_writes fun i hi => (raise_targets i hi).2⟩
  · have hlen : text.length + 1 = 48 + 1 + popRecord.length + 1 := by decide
    have hj : text[31]? = some (Item.j 48) := by decide
    have henter := enter_at (n := 31) h
    rw [entry_run, hlen, walk_jump hj, walk_popRecord] at henter
    exact ⟨_, henter, record_run_sp s, rfl⟩

/-- A call of a handler from an entry that lands or skips. -/
theorem enter_called {s u : Cpu} {ret : Word} (hok : Lands (requests s) ∨ Skips (requests s))
    (h : enter s = .called ret u) : u = called s ret := by
  rcases hok with hlands | hskips
  · rcases enter_lands hlands with heq | heq | heq
    all_goals rw [heq] at h; cases h
    · rfl
    · rfl
  · obtain ⟨v, heq, -⟩ := enter_skips hskips
    rw [heq] at h
    cases h

/-- An `eret` without a call. -/
theorem enter_erets {s u : Cpu} (hok : Lands (requests s) ∨ Skips (requests s))
    (h : enter s = .erets u) :
    ∃ v : Cpu, u = v.run popRecord ∧ v.gpr .sp = s.gpr .sp - 168 ∧
      v.mem = ((pushed s).run record).mem := by
  rcases hok with hlands | hskips
  · rcases enter_lands hlands with heq | heq | heq
    all_goals rw [heq] at h; cases h
  · obtain ⟨v, heq, hv⟩ := enter_skips hskips
    rw [heq] at h
    cases h
    exact ⟨v, rfl, hv⟩

section

variable {s c : Cpu} {base epc : Word}

/-- A word of the record, by the stack pointer. -/
theorem load_eq (hsp : s.gpr .sp = base) (o : Word) : s.mem (s.get .sp + o) = s.mem (base + o) := by
  have hzero : Reg.sp ≠ .zero := nofun
  rw [Cpu.get_of_ne _ hzero, hsp]

theorem popRecord_gpr (h : Recorded s.mem base c epc) (hsp : s.gpr .sp = base) :
    ∀ e ∈ saved, (s.run popRecord).gpr e.1 = c.gpr e.1 := by
  intro e he
  have hzero : Reg.sp ≠ .zero := nofun
  obtain ⟨k, -, hk, hpre, hpost⟩ := popRecord_loads e he
  rw [Cpu.run_loaded hzero hk (fun i hi => (hpre i hi).1) (fun i hi => (hpre i hi).2) hpost,
    load_eq hsp, h.regs e he]

theorem popRecord_hilo (h : Recorded s.mem base c epc) (hsp : s.gpr .sp = base) :
    (s.run popRecord).hi = c.hi ∧ (s.run popRecord).lo = c.lo := by
  have hsplit : popRecord = [Instr.lw .t0 IRQREC_HI .sp, Instr.lw .t1 IRQREC_LO .sp,
      Instr.mthi .t0, Instr.mtlo .t1] ++ popRecord.drop 4 := by decide
  have hrest : ∀ i ∈ popRecord.drop 4, i.setsHiLo = false := by decide
  rw [hsplit, Cpu.run_append]
  obtain ⟨hhi, hlo⟩ := Cpu.run_hilo_of_not_writes (s := s.run [.lw .t0 IRQREC_HI .sp,
    .lw .t1 IRQREC_LO .sp, .mthi .t0, .mtlo .t1]) hrest
  rw [hhi, hlo, ← h.hi, ← h.lo, ← load_eq hsp, ← load_eq hsp]
  exact ⟨rfl, rfl⟩

theorem popRecord_epc (h : Recorded s.mem base c epc) (hsp : s.gpr .sp = base) :
    (s.run popRecord).cop0 .EPC = epc := by
  have hsplit : popRecord = popRecord.take 33 ++ Instr.mtc0 .k0 .EPC :: popRecord.drop 34 := by decide
  have hrest : ∀ i ∈ popRecord.drop 34, i.target0 ≠ some .EPC := by decide
  have hk0 : (popRecord.take 33)[31]? = some (Instr.lw .k0 IRQREC_EPC .sp) := by decide
  have hpre : ∀ i ∈ (popRecord.take 33).take 31, i.target ≠ some .sp ∧ i.isStore = false := by
    decide
  have hpost : ∀ i ∈ (popRecord.take 33).drop 32, i.target ≠ some .k0 := by decide
  have hzero : Reg.sp ≠ .zero := nofun
  have hzero' : Reg.k0 ≠ .zero := nofun
  have hloaded := Cpu.run_loaded (s := s) hzero hk0 (fun i hi => (hpre i hi).1)
    (fun i hi => (hpre i hi).2) hpost
  rw [hsplit, Cpu.run_append, Cpu.run_cons, Cpu.run_cop0_of_not_writes hrest, Cpu.exec]
  dsimp only
  rw [Function.update_self, Cpu.get_of_ne _ hzero', hloaded, load_eq hsp, h.epc]

theorem popRecord_sp (hsp : s.gpr .sp = base) : (s.run popRecord).gpr .sp = base + 168 := by
  have hset : popRecord[35]? = some (Instr.addiu .sp .sp IRQREC_SIZE) := by decide
  have hsize : IRQREC_SIZE.signExtend 32 = 168#32 := by decide
  have hpre : ∀ i ∈ popRecord.take 35, i.target ≠ some .sp := by decide
  have hpost : ∀ i ∈ popRecord.drop 36, i.target ≠ some .sp := by decide
  have hzero : Reg.sp ≠ .zero := nofun
  rw [Cpu.run_last hset hpost, Cpu.exec, Cpu.set_gpr_same, hsize, Cpu.get_of_ne _ hzero,
    Cpu.run_gpr_of_not_writes hpre, hsp]
  rfl

/-- **The way to the `eret` reads the record back.** -/
theorem popRecord_get (h : Recorded s.mem base c epc) (hsp : s.gpr .sp = base)
    (hbase : base = c.gpr .sp - 168) {r : Reg} (hk0 : r ≠ .k0) (hk1 : r ≠ .k1) :
    (s.run popRecord).get r = c.get r := by
  by_cases hzero : r = .zero
  · rw [hzero, Cpu.get_zero, Cpu.get_zero]
  · rw [Cpu.get_of_ne _ hzero, Cpu.get_of_ne _ hzero]
    by_cases hr : r = .sp
    · rw [hr, popRecord_sp hsp, hbase, BitVec.sub_add_cancel]
    · obtain ⟨e, he, rfl⟩ := mem_saved hzero hk0 hk1 hr
      exact popRecord_gpr h hsp e he

theorem popRecord_isLoad : ∀ i ∈ popRecord, i.isStore = false := by decide

theorem popRecord_mem (s : Cpu) : (s.run popRecord).mem = s.mem :=
  Cpu.run_mem_of_not_writes popRecord_isLoad

/-- Nothing changes `STATUS` before the last instruction. -/
theorem popRecord_window {k : Nat} (hk : k < 40) {i : Instr} (hi : popRecord[k]? = some i) :
    k + 1 < 40 ∧ i.target0 ≠ some .STATUS ∨ k + 1 = 40 ∧ i.target0.isSome = true := by
  have hkeeps : ∀ i ∈ popRecord.take 39, i.target0 ≠ some .STATUS := by decide
  have hlast : popRecord[39]? = some (Instr.mtc0 .k0 .STATUS) := by decide
  rcases Nat.lt_or_eq_of_le (Nat.le_of_lt_succ hk) with hlt | rfl
  · have htake : (popRecord.take 39)[k]? = some i := by rw [List.getElem?_take, if_pos hlt, hi]
    exact .inl ⟨by omega, hkeeps i (List.mem_of_getElem? htake)⟩
  · obtain rfl := Option.some.inj (hi.symm.trans hlast)
    exact .inr ⟨rfl, rfl⟩

theorem text_popRecord {k : Nat} (hk : k < 40) :
    ∃ i, popRecord[k]? = some i ∧ text[48 + k]? = some (Item.op i) := by
  have hall : ∀ k < 40, text[48 + k]? = (popRecord[k]?).map Item.op := by decide
  have hlen : popRecord.length = 40 := by decide
  have hget : popRecord[k]? = some popRecord[k] := List.getElem?_eq_getElem (hlen ▸ hk)
  exact ⟨_, hget, by rw [hall k hk, hget, Option.map_some]⟩

end

-- ---------------------------------------------------------------------------
-- The context of a process
-- ---------------------------------------------------------------------------

/-- What `ctxsw` stores, and loads again. The first is where it jumps to. -/
def contextRegs : List (Reg × BitVec 16) :=
  [(.ra, CONTEXT - 8), (.s0, S0_CON), (.s1, S1_CON), (.s2, S2_CON), (.s3, S3_CON), (.s4, S4_CON),
   (.s5, S5_CON), (.s6, S6_CON), (.s7, S7_CON), (.gp, S8_CON), (.fp, S9_CON)]

def contextOffsets : List (BitVec 16) := (CONTEXT - 4) :: contextRegs.map Prod.snd

def contextWords (base : Word) : List Word := contextOffsets.map fun o => base + o.signExtend 32

/-- A process has called `ctxsw` in the state `c`, and its stack pointer is at `slot`. -/
structure Suspended (mem : Word → Word) (slot : Word) (c : Cpu) : Prop where
  sp : mem slot = c.gpr .sp - 64
  regs : ∀ e ∈ contextRegs, mem (c.gpr .sp - 64 + e.2.signExtend 32) = c.gpr e.1
  ret : mem (c.gpr .sp - 64 + (CONTEXT - 4).signExtend 32) = c.gpr .ra

/-- The context is in the 16 words below. -/
theorem contextWords_below {sp a : Word} (h : a ∈ contextWords (sp - 64)) : a ∈ below sp 16 := by
  obtain ⟨o, ho, rfl⟩ := List.mem_map.mp h
  have hall : contextOffsets.all (fun o => decide (o.toNat % 4 = 0 ∧ o.toNat < 4 * 16)) = true := rfl
  exact mem_below (n := 16) (by decide) (of_decide_eq_true (List.all_eq_true.mp hall o ho))

theorem Suspended.frame {mem mem' : Word → Word} {slot : Word} {c : Cpu} (h : Suspended mem slot c)
    (hslot : mem' slot = mem slot)
    (hmem : ∀ a ∈ contextWords (c.gpr .sp - 64), mem' a = mem a) : Suspended mem' slot c where
  sp := hslot.trans h.sp
  regs e he := (hmem _ (List.mem_map_of_mem (List.mem_cons_of_mem _
    (List.mem_map_of_mem he)))).trans (h.regs e he)
  ret := (hmem _ (List.mem_map_of_mem List.mem_cons_self)).trans h.ret

/-- The stores of `ctxsw` on the stack. -/
def contextStores : List Instr := (saveContext.drop 1).take 12

theorem saveContext_eq :
    saveContext = Instr.addiu .sp .sp (-CONTEXT) :: (contextStores ++ [Instr.sw .sp 0 .a0]) := by
  decide

/-- The state at the first store. -/
def lowered (s : Cpu) : Cpu := s.exec (.addiu .sp .sp (-CONTEXT))

theorem lowered_sp (s : Cpu) : (lowered s).gpr .sp = s.gpr .sp - 64 := by
  have hsize : (-CONTEXT).signExtend 32 = -64#32 := by decide
  have hzero : Reg.sp ≠ .zero := nofun
  rw [lowered, Cpu.exec, Cpu.set_gpr_same, hsize, Cpu.get_of_ne _ hzero, BitVec.sub_eq_add_neg]
  rfl

theorem lowered_gpr (s : Cpu) {r : Reg} (hr : r ≠ .sp) : (lowered s).gpr r = s.gpr r :=
  Cpu.exec_gpr fun h => hr (Option.some.inj h).symm

theorem contextStores_targets : ∀ i ∈ contextStores, i.target = none := by decide

theorem stores_gpr (s : Cpu) (r : Reg) (k : Nat) :
    ((lowered s).run (contextStores.take k)).gpr r = (lowered s).gpr r :=
  Cpu.run_gpr_of_not_writes fun i hi htarget => by
    rw [contextStores_targets i (List.mem_of_mem_take hi)] at htarget
    cases htarget

theorem saveContext_run (s : Cpu) : (s.run saveContext).mem =
    Function.update ((lowered s).run contextStores).mem (s.gpr .a0) (s.gpr .sp - 64) := by
  have hsp := stores_gpr s .sp contextStores.length
  have ha0 := stores_gpr s .a0 contextStores.length
  rw [List.take_length] at hsp ha0
  rw [lowered_sp] at hsp
  rw [lowered_gpr s (by decide)] at ha0
  have hzero : Reg.sp ≠ .zero := nofun
  have hzero' : Reg.a0 ≠ .zero := nofun
  have hoffset : (0 : BitVec 16).signExtend 32 = 0#32 := by decide
  rw [saveContext_eq, Cpu.run_cons, Cpu.run_append, Cpu.run_cons, Cpu.run_nil, ← lowered, Cpu.exec]
  dsimp only
  rw [Cpu.address, Cpu.get_of_ne _ hzero', Cpu.get_of_ne _ hzero, hsp, ha0, hoffset, BitVec.add_zero]

theorem ctxsw_run_mem (s : Cpu) : (s.run ctxsw).mem = (s.run saveContext).mem := by
  have hloads : ∀ i ∈ loadContext ++ enableNew, i.isStore = false := by decide
  rw [ctxsw, List.append_assoc, Cpu.run_append, Cpu.run_mem_of_not_writes hloads]

/-- Nothing is written but 16 words below the stack pointer and the stack pointer itself. -/
theorem ctxsw_mem {s : Cpu} {a : Word} (ha : a ∉ below (s.gpr .sp) 16) (hslot : a ≠ s.gpr .a0) :
    (s.run ctxsw).mem a = s.mem a := by
  have haligned : ∀ i ∈ contextStores,
      i.storesIn .sp (fun o => o.toNat % 4 = 0 ∧ o.toNat < 4 * 16) = true := by decide
  have hzero : Reg.sp ≠ .zero := nofun
  rw [ctxsw_run_mem, saveContext_run, Function.update_of_ne hslot]
  refine Cpu.run_mem_of_ne hzero (fun i hi => ?_) haligned fun o ho heq => ha ?_
  · rw [contextStores_targets i hi]
    exact nofun
  · rw [heq, Cpu.address, Cpu.get_of_ne _ hzero, lowered_sp]
    exact mem_below (by decide) (of_decide_eq_true ho)

/-- What `ctxsw` stores at an index, when nothing later is stored there. -/
theorem ctxsw_stored {s : Cpu} {r : Reg} {offset : BitVec 16} {k : Nat}
    (hk : contextStores[k]? = some (Instr.sw r offset .sp))
    (hpost : ∀ i ∈ contextStores.drop (k + 1), i.storesIn .sp (· != offset) = true)
    (hr : r ≠ .sp ∧ r ≠ .zero)
    (hslot : s.gpr .sp - 64 + offset.signExtend 32 ≠ s.gpr .a0) :
    (s.run ctxsw).mem (s.gpr .sp - 64 + offset.signExtend 32) = s.gpr r := by
  have hzero : Reg.sp ≠ .zero := nofun
  have hsp : ∀ i ∈ contextStores, i.target ≠ some .sp := fun i hi htarget => by
    rw [contextStores_targets i hi] at htarget
    cases htarget
  have hstored := Cpu.run_stored (s := lowered s) hzero hk hsp hpost
  rw [Cpu.get_of_ne _ hzero, lowered_sp, Cpu.get_of_ne _ hr.2, stores_gpr, lowered_gpr s hr.1]
    at hstored
  rw [ctxsw_run_mem, saveContext_run, Function.update_of_ne hslot, hstored]

/-- **The context of the process that gives up the CPU.** -/
theorem ctxsw_saved {s : Cpu} (hslot : s.gpr .a0 ∉ contextWords (s.gpr .sp - 64)) :
    Suspended (s.run ctxsw).mem (s.gpr .a0) s where
  sp := by rw [ctxsw_run_mem, saveContext_run, Function.update_self]
  regs e he := by
    have hstores : ∀ e ∈ contextRegs, ∃ k < contextStores.length,
        contextStores[k]? = some (Instr.sw e.1 e.2 .sp) ∧
        (∀ i ∈ contextStores.drop (k + 1), i.storesIn .sp (· != e.2) = true) ∧
        e.1 ≠ .sp ∧ e.1 ≠ .zero := by decide
    obtain ⟨k, -, hk, hpost, hr⟩ := hstores e he
    exact ctxsw_stored hk hpost hr fun heq => hslot (heq ▸ List.mem_map_of_mem
      (List.mem_cons_of_mem _ (List.mem_map_of_mem he)))
  ret := by
    have hk : contextStores[0]? = some (Instr.sw .ra (CONTEXT - 4) .sp) := by decide
    have hpost : ∀ i ∈ contextStores.drop 1, i.storesIn .sp (· != CONTEXT - 4) = true := by decide
    have hmem : CONTEXT - 4 ∈ contextOffsets := List.mem_cons_self
    exact ctxsw_stored hk hpost (by decide) fun heq => hslot (heq ▸ List.mem_map_of_mem hmem)

/-- The state on the stack of the new process. -/
def stackSwitched (s : Cpu) : Cpu := (s.run saveContext).exec (.lw .sp 0 .a1)

theorem ctxsw_run (s : Cpu) :
    s.run ctxsw = (stackSwitched s).run (loadContext.tail ++ enableNew) := by
  have hlw : loadContext = .lw .sp 0 .a1 :: loadContext.tail := by decide
  rw [stackSwitched, ← Cpu.run_cons, ← List.cons_append, ← hlw, ctxsw, List.append_assoc,
    Cpu.run_append]

theorem stackSwitched_sp {s : Cpu} {base : Word} (hsp : (s.run ctxsw).mem (s.gpr .a1) = base) :
    (stackSwitched s).gpr .sp = base := by
  have hzero : Reg.a1 ≠ .zero := nofun
  have hoffset : (0 : BitVec 16).signExtend 32 = 0#32 := by decide
  have ha1 : ∀ i ∈ saveContext, i.target ≠ some .a1 := by decide
  rw [stackSwitched, Cpu.exec, Cpu.set_gpr_same, Cpu.address, Cpu.get_of_ne _ hzero,
    Cpu.run_gpr_of_not_writes ha1, hoffset, BitVec.add_zero, ← ctxsw_run_mem, hsp]

/-- What `ctxsw` loads, and leaves in the register. -/
theorem ctxsw_load {s : Cpu} {base : Word} {r : Reg} {offset : BitVec 16} {k : Nat}
    (hsp : (s.run ctxsw).mem (s.gpr .a1) = base)
    (hk : (loadContext.tail ++ enableNew)[k]? = some (Instr.lw r offset .sp))
    (hpre : ∀ i ∈ (loadContext.tail ++ enableNew).take k,
      i.target ≠ some .sp ∧ i.isStore = false)
    (hpost : ∀ i ∈ (loadContext.tail ++ enableNew).drop (k + 1), i.target ≠ some r) :
    (s.run ctxsw).gpr r = (s.run ctxsw).mem (base + offset.signExtend 32) := by
  have hzero : Reg.sp ≠ .zero := nofun
  rw [ctxsw_run_mem, ctxsw_run, Cpu.run_loaded hzero hk (fun i hi => (hpre i hi).1)
    (fun i hi => (hpre i hi).2) hpost, Cpu.get_of_ne _ hzero, stackSwitched_sp hsp]
  rfl

/-- **The process that gets the CPU has its context.** -/
theorem ctxsw_loaded {s c : Cpu} (h : Suspended (s.run ctxsw).mem (s.gpr .a1) c) :
    (∀ e ∈ contextRegs, (s.run ctxsw).gpr e.1 = c.gpr e.1) ∧
      (s.run ctxsw).gpr .v0 = c.gpr .ra ∧ (s.run ctxsw).gpr .sp = c.gpr .sp := by
  refine ⟨fun e he => ?_, ?_, ?_⟩
  · have hloads : ∀ e ∈ contextRegs, ∃ k < (loadContext.tail ++ enableNew).length,
        (loadContext.tail ++ enableNew)[k]? = some (Instr.lw e.1 e.2 .sp) ∧
        (∀ i ∈ (loadContext.tail ++ enableNew).take k, i.target ≠ some .sp ∧ i.isStore = false) ∧
        ∀ i ∈ (loadContext.tail ++ enableNew).drop (k + 1), i.target ≠ some e.1 := by
      decide
    obtain ⟨k, -, hk, hpre, hpost⟩ := hloads e he
    rw [ctxsw_load h.sp hk hpre hpost, h.regs e he]
  · have hk : (loadContext.tail ++ enableNew)[15]? = some (Instr.lw .v0 (CONTEXT - 4) .sp) := by decide
    have hpre : ∀ i ∈ (loadContext.tail ++ enableNew).take 15,
        i.target ≠ some .sp ∧ i.isStore = false := by decide
    have hpost : ∀ i ∈ (loadContext.tail ++ enableNew).drop 16, i.target ≠ some .v0 := by decide
    rw [ctxsw_load h.sp hk hpre hpost, h.ret]
  · have hk : (loadContext.tail ++ enableNew)[17]? = some (Instr.addiu .sp .sp CONTEXT) := by decide
    have hpre : ∀ i ∈ (loadContext.tail ++ enableNew).take 17, i.target ≠ some .sp := by decide
    have hpost : ∀ i ∈ (loadContext.tail ++ enableNew).drop 18, i.target ≠ some .sp := by decide
    have hsize : CONTEXT.signExtend 32 = 64 := by decide
    have hzero : Reg.sp ≠ .zero := nofun
    rw [ctxsw_run, Cpu.run_last hk hpost, Cpu.exec, Cpu.set_gpr_same, hsize,
      Cpu.get_of_ne _ hzero, Cpu.run_gpr_of_not_writes hpre, stackSwitched_sp h.sp,
      BitVec.sub_add_cancel]

end Xinu.Irq
