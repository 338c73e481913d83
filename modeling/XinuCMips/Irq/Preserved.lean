import XinuCMips.Irq.Contexts

/-!
# Interrupts preserve what they interrupt

On the way back from a handler interrupts are possible up to the `mtc0` behind its call: a
process gives up the CPU only in C code, so it can be in one of two places there, and
nothing but `sp`, `a2` and `v0` matters yet. From then on it is at exception level, and the
record on the stack determines what becomes of the registers.

* `Intact`                  — the invariant: what is on the stacks, and how far the text is;
* `Intact.step`             — one step;
* `preserved_without_slip`  — **when interrupts preserve what they interrupt.**
-/

namespace Xinu.Irq

open Mips

-- ---------------------------------------------------------------------------
-- The way back from a handler
-- ---------------------------------------------------------------------------

/-- From the return of a handler to exception level. -/
def exit : List Instr := afterHandler ++ [setStatus]

theorem text_exit {j n : Nat} (hj : j < exit.length) (hn : n = 26 + j ∨ n = 43 + j) :
    text[n]? = (exit[j]?).map Item.op := by
  have hexit : ∀ j < exit.length, text[26 + j]? = (exit[j]?).map Item.op ∧
      text[43 + j]? = (exit[j]?).map Item.op := by
    decide
  rcases hn with rfl | rfl
  · exact (hexit j hj).1
  · exact (hexit j hj).2

/-- What is known of the registers `j` instructions behind the call for an interrupt. -/
def Early (f : Interrupted) (s : Cpu) : Nat → Prop
  | 0 | 1 => s.gpr .sp = f.sp
  | 2 => s.gpr .sp = f.base
  | 3 => s.gpr .sp = f.base ∧ (s.gpr .a2).getLsbD 1 = true
  | 4 => s.gpr .sp = f.base ∧ (s.gpr .v0).getLsbD 1 = true
  | _ => False

/-- Either of the two ways is at an instruction before exception level. -/
def EarlyAt (f : Interrupted) (s : Cpu) (n : Nat) : Prop :=
  ∃ j, (n = 26 + j ∨ n = 43 + j) ∧ Early f s j

/-- From exception level on: before the jump to `_restore`, or when `k` of the instructions
are executed that pop the record. -/
def Late (f : Interrupted) (t : Contexts) (n : Nat) : Prop :=
  (n = 31 ∧ exl t.cpu = true ∧ t.cpu.gpr .sp = f.base) ∨
  ∃ k, n = 48 + k ∧ (k < 40 ∧ exl t.cpu = true ∨ k = 40 ∧ t.held = true) ∧
    (Resumed.eret f.cpu f.pc (eret (t.cpu.run (popRecord.drop k)))).Ok

variable {f : Interrupted} {s s' : Cpu} {t t' : Contexts}

/-- The registers that an interrupt preserves. -/
theorem Early.of_get (hget : ∀ r, r ≠ .k0 → r ≠ .k1 → s'.get r = s.get r) {j : Nat}
    (h : Early f s j) : Early f s' j := by
  have hsp : s'.gpr .sp = s.gpr .sp := hget .sp nofun nofun
  have ha2 : s'.gpr .a2 = s.gpr .a2 := hget .a2 nofun nofun
  have hv0 : s'.gpr .v0 = s.gpr .v0 := hget .v0 nofun nofun
  match j, h with
  | 0, h | 1, h | 2, h => exact hsp.trans h
  | 3, h => exact ⟨hsp.trans h.1, ha2 ▸ h.2⟩
  | 4, h => exact ⟨hsp.trans h.1, hv0 ▸ h.2⟩

theorem exit_loads : ∀ i ∈ exit, i.isStore = false := by decide

theorem Early.lt {j : Nat} (h : Early f s j) : j < exit.length := by
  match j, h with
  | 0, _ | 1, _ | 2, _ | 3, _ | 4, _ => decide

/-- One instruction before exception level. -/
theorem Early.exec (hsp : f.sp = f.base - 8) {j : Nat} (h : Early f s j) :
    ∃ i, exit[j]? = some i ∧
      (j < 4 ∧ Early f (s.exec i) (j + 1) ∨
        j = 4 ∧ exl (s.exec i) = true ∧ (s.exec i).gpr .sp = f.base) := by
  have hzero : Reg.sp ≠ .zero := nofun
  have hadd : (8 : BitVec 16).signExtend 32 = 8#32 := by decide
  have hexl : STATUS_EXL.signExtend 32 = 2#32 := by decide
  match j, h with
  | 0, h => exact ⟨_, rfl, .inl ⟨by decide, (Cpu.exec_gpr (by decide)).trans h⟩⟩
  | 1, h =>
    refine ⟨_, rfl, .inl ⟨by decide, ?_⟩⟩
    show ((s.set .sp _).gpr .sp) = _
    rw [Cpu.set_gpr_same, Cpu.get_of_ne _ hzero, hadd, show s.gpr .sp = f.sp from h, hsp]
    exact BitVec.sub_add_cancel _ _
  | 2, h =>
    refine ⟨_, rfl, .inl ⟨by decide, (Cpu.exec_gpr (by decide)).trans h, ?_⟩⟩
    show ((s.set .a2 _).gpr .a2).getLsbD 1 = _
    rw [Cpu.set_gpr_same, hexl, Cpu.get_zero]
    rfl
  | 3, h =>
    refine ⟨_, rfl, .inl ⟨by decide, (Cpu.exec_gpr (by decide)).trans h.1, ?_⟩⟩
    show ((s.set .v0 (s.get .v0 ||| s.get .a2)).gpr .v0).getLsbD 1 = _
    have ha2 : s.get .a2 = s.gpr .a2 := Cpu.get_of_ne _ nofun
    rw [Cpu.set_gpr_same, BitVec.getLsbD_or, ha2, h.2, Bool.or_true]
  | 4, h =>
    refine ⟨_, rfl, .inr ⟨rfl, ?_, h.1⟩⟩
    exact h.2

-- ---------------------------------------------------------------------------
-- The invariant
-- ---------------------------------------------------------------------------

/-- The records and the contexts are in memory, off the places of the stack pointers. -/
structure Kept (proctab : Word) (mem : Word → Word) (t : Contexts) : Prop where
  recorded : ∀ p, ∀ f ∈ t.frames p, Recorded mem f.base f.cpu f.pc
  suspended : ∀ p c, t.out p = some c → Suspended mem (prstkptr proctab p) c
  slots : ∀ p q, prstkptr proctab p ∉ t.words q

/-- Where an interrupt can have been taken, and what was known there. -/
def Resumable (fs : List Interrupted) (s : Cpu) : Mode → Prop
  | .code => True
  | .leaving n => ∃ f ∈ fs.head?, EarlyAt f s n
  | .switching .. => False

/-- The interrupts that a process has not returned from, one in the other. -/
def Stacked : List Interrupted → Prop
  | [] => True
  | f :: fs => f.sp = f.base - 8 ∧ Resumable fs f.cpu f.mode ∧ Stacked fs

/-- Where the process that runs is. -/
def Contexts.PlacedAt (t : Contexts) : Mode → Prop
  | .code => True
  | .leaving n => ∃ f ∈ (t.frames t.currpid).head?, EarlyAt f t.cpu n ∨ Late f t n
  | .switching c k => ∀ d ∈ c, (Resumed.ctxsw d (t.cpu.run (ctxsw.drop k))).Ok

/-- Memory when a `ctxsw` that is under way is finished. -/
def Contexts.settled (t : Contexts) : Mode → Word → Word
  | .switching _ k => (t.cpu.run (ctxsw.drop k)).mem
  | _ => t.cpu.mem

/-- **The invariant.** -/
structure Intact (proctab : Word) (t : Contexts) : Prop where
  kept : Kept proctab (t.settled t.mode) t
  stacked : ∀ p, Stacked (t.frames p)
  placed : t.PlacedAt t.mode

variable {proctab : Word} {mem mem' : Word → Word}

theorem mem_words {p : Proc} {a : Word} : a ∈ t.words p ↔
    (∃ f ∈ t.frames p, a ∈ recordWords f.base) ∨
      ∃ c ∈ t.out p, a ∈ contextWords (c.gpr .sp - 64) := by
  simp only [Contexts.words, List.mem_append, List.mem_flatMap, Option.mem_toList,
    Option.mem_def]

theorem words_mono {u : Contexts} {p : Proc} {a : Word} (hframes : ∀ f ∈ u.frames p, f ∈ t.frames p)
    (hout : ∀ c ∈ u.out p, c ∈ t.out p) (ha : a ∈ u.words p) : a ∈ t.words p := by
  rcases mem_words.mp ha with ⟨f, hf, ha⟩ | ⟨c, hc, ha⟩
  · exact mem_words.mpr (.inl ⟨f, hframes f hf, ha⟩)
  · exact mem_words.mpr (.inr ⟨c, hout c hc, ha⟩)

/-- The call of `ctxsw` of a process is forgotten. -/
def Contexts.forget (t : Contexts) (p : Proc) : Contexts :=
  { t with out := Function.update t.out p none }

theorem forget_self (t : Contexts) (p : Proc) : (t.forget p).out p = none := Function.update_self ..

theorem mem_forget {p q : Proc} {c : Cpu} (hc : c ∈ (t.forget p).out q) : c ∈ t.out q := by
  unfold Contexts.forget at hc
  dsimp only at hc
  by_cases hq : q = p
  · rw [hq, Function.update_self] at hc
    cases hc
  · rwa [Function.update_of_ne hq] at hc

namespace Kept

/-- Memory changes elsewhere. -/
theorem frame (h : Kept proctab mem t) (hwords : ∀ p, ∀ a ∈ t.words p, mem' a = mem a)
    (hslots : ∀ p, (t.out p).isSome = true →
      mem' (prstkptr proctab p) = mem (prstkptr proctab p)) : Kept proctab mem' t where
  recorded p f hf := (h.recorded p f hf).frame fun a ha => hwords p a (mem_words.mpr (.inl ⟨f, hf, ha⟩))
  suspended p c hc := (h.suspended p c hc).frame (hslots p (Option.isSome_of_mem hc)) fun a ha =>
    hwords p a (mem_words.mpr (.inr ⟨c, hc, ha⟩))
  slots := h.slots

/-- Records and contexts go. -/
theorem drop {u : Contexts} (h : Kept proctab mem t) (hframes : ∀ p, ∀ f ∈ u.frames p, f ∈ t.frames p)
    (hout : ∀ p, ∀ c ∈ u.out p, c ∈ t.out p) : Kept proctab mem u where
  recorded p f hf := h.recorded p f (hframes p f hf)
  suspended p c hc := h.suspended p c (hout p c hc)
  slots p q hin := h.slots p q (words_mono (hframes q) (hout q) hin)

/-- A record comes. -/
theorem push (h : Kept proctab mem t) (hrecorded : Recorded mem f.base f.cpu f.pc)
    (hslots : ∀ p, prstkptr proctab p ∉ recordWords f.base) :
    Kept proctab mem { t with frames := t.setFrames (f :: t.frames t.currpid) } := by
  have hframes : ∀ p, ∀ g ∈ t.setFrames (f :: t.frames t.currpid) p, g = f ∨ g ∈ t.frames p := by
    intro p g hg
    unfold Contexts.setFrames at hg
    by_cases hp : p = t.currpid
    · subst hp
      rw [Function.update_self] at hg
      exact List.mem_cons.mp hg
    · rw [Function.update_of_ne hp] at hg
      exact .inr hg
  refine ⟨fun p g hg => ?_, h.suspended, fun p q hin => ?_⟩
  · rcases hframes p g hg with rfl | hg
    · exact hrecorded
    · exact h.recorded p g hg
  · rcases mem_words.mp hin with ⟨g, hg, ha⟩ | hout
    · rcases hframes q g hg with rfl | hg
      · exact hslots p ha
      · exact h.slots p q (mem_words.mpr (.inl ⟨g, hg, ha⟩))
    · exact h.slots p q (mem_words.mpr (.inr hout))

/-- A context comes. -/
theorem save (h : Kept proctab mem t) {p : Proc} {c : Cpu}
    (hsuspended : Suspended mem (prstkptr proctab p) c)
    (hslots : ∀ q, prstkptr proctab q ∉ contextWords (c.gpr .sp - 64)) :
    Kept proctab mem { t with out := Function.update t.out p (some c) } := by
  have hout : ∀ q, ∀ d ∈ Function.update t.out p (some c) q, q = p ∧ d = c ∨ d ∈ t.out q := by
    intro q d hd
    by_cases hq : q = p
    · subst hq
      rw [Function.update_self] at hd
      exact .inl ⟨rfl, (Option.some.inj hd).symm⟩
    · rw [Function.update_of_ne hq] at hd
      exact .inr hd
  refine ⟨h.recorded, fun q d hd => ?_, fun q r hin => ?_⟩
  · rcases hout q d hd with ⟨rfl, rfl⟩ | hd
    · exact hsuspended
    · exact h.suspended q d hd
  · rcases mem_words.mp hin with hframes | ⟨d, hd, ha⟩
    · exact h.slots q r (mem_words.mpr (.inl hframes))
    · rcases hout r d hd with ⟨-, rfl⟩ | hd
      · exact hslots q ha
      · exact h.slots q r (mem_words.mpr (.inr ⟨d, hd, ha⟩))

end Kept

-- ---------------------------------------------------------------------------
-- Where a process is
-- ---------------------------------------------------------------------------

theorem Late.not_interruptible {n : Nat} (h : Late f t n) : ¬t.Interruptible := by
  rintro ⟨-, hexl, hheld⟩
  rcases h with ⟨-, hon, -⟩ | ⟨k, -, ⟨-, hon⟩ | ⟨-, hon⟩, -⟩
  · exact Bool.false_ne_true (hexl.symm.trans hon)
  · exact Bool.false_ne_true (hexl.symm.trans hon)
  · exact Bool.false_ne_true (hheld.symm.trans hon)

theorem Resumable.of_get {fs : List Interrupted} {m : Mode}
    (hget : ∀ r, r ≠ .k0 → r ≠ .k1 → s'.get r = s.get r) (h : Resumable fs s m) :
    Resumable fs s' m := by
  cases m with
  | code => trivial
  | leaving n =>
    obtain ⟨f, hf, j, hn, hearly⟩ := h
    exact ⟨f, hf, j, hn, hearly.of_get hget⟩
  | switching c k => exact h.elim

theorem Resumable.placedAt {m : Mode} (h : Resumable (t.frames t.currpid) t.cpu m) :
    t.PlacedAt m := by
  cases m with
  | code => trivial
  | leaving n =>
    obtain ⟨f, hf, hearly⟩ := h
    exact ⟨f, hf, .inl hearly⟩
  | switching c k => exact h.elim

theorem Resumable.settled {fs : List Interrupted} {m : Mode} (h : Resumable fs s m) :
    t.settled m = t.cpu.mem := by
  cases m with
  | code | leaving n => rfl
  | switching c k => exact h.elim

theorem eret_epc (s : Cpu) : (eret s).cop0 .EPC = s.cop0 .EPC := by
  simp [eret, setCop0]

theorem take_epc (s : Cpu) (cause epc : Word) : (take s cause epc).cop0 .EPC = epc := by
  simp [take, setCop0]

/-- The record of an interrupt, at the first instruction that pops it. -/
theorem popRecord_ok {c : Cpu} {epc : Word} (h : Recorded s.mem (c.gpr .sp - 168) c epc)
    (hsp : s.gpr .sp = c.gpr .sp - 168) : (Resumed.eret c epc (eret (s.run popRecord))).Ok := by
  obtain ⟨hhi, hlo⟩ := popRecord_hilo h hsp
  refine ⟨fun r hk0 hk1 => popRecord_get h hsp rfl hk0 hk1, hhi, hlo,
    (eret_epc _).trans (popRecord_epc h hsp), ?_⟩
  have hexl : STATUS_EXL[1] = true := by decide
  simp [exl, eret, setCop0, hexl]

/-- The registers at an interrupt are in its record. -/
theorem Recorded.of_take {c : Cpu} {base cause epc : Word}
    (h : Recorded mem base (take c cause epc) ((take c cause epc).cop0 .EPC)) :
    Recorded mem base c epc := ⟨h.regs, h.hi, h.lo, h.epc.trans (take_epc c cause epc)⟩

-- ---------------------------------------------------------------------------
-- The steps
-- ---------------------------------------------------------------------------

namespace Intact

variable {es : List Resumed} {cause epc : Word}

/-- Where interrupts are possible, `ctxsw` apart. -/
theorem resumable (h : Intact proctab t) (hon : t.Interruptible)
    (hswitching : t.mode.isSwitching = false) :
    Resumable (t.frames t.currpid) t.cpu t.mode := by
  have hplaced := h.placed
  cases hmode : t.mode with
  | code => trivial
  | leaving n =>
    rw [hmode] at hplaced
    obtain ⟨f, hf, hearly | hlate⟩ := hplaced
    · exact ⟨f, hf, hearly⟩
    · exact absurd hon hlate.not_interruptible
  | switching c k =>
    rw [hmode] at hswitching
    cases hswitching

/-- **An interrupt is taken.** -/
theorem interrupt (h : Intact proctab t) (hon : t.Interruptible) (hfree : t.Free proctab 44)
    (hok : Orderly t (.interrupt cause epc)) (hst : t.interrupt cause epc = some (t', es)) :
    Intact proctab t' ∧ ∀ e ∈ es, e.Ok := by
  obtain ⟨hentry, hswitching⟩ := hok
  have hresumable := h.resumable hon hswitching
  have hkept := h.kept
  rw [hresumable.settled] at hkept
  unfold Contexts.interrupt at hst
  split at hst
  · rename_i ret s henter
    obtain rfl := enter_called hentry henter
    cases hst
    have hwords : ∀ p, ∀ a ∈ t.words p,
        (called (take t.cpu cause epc) ret).mem a = t.cpu.mem a := fun p a ha =>
      called_mem ret fun hin => (hfree a hin p).1 ha
    have hslot : ∀ p, (called (take t.cpu cause epc) ret).mem (prstkptr proctab p) =
        t.cpu.mem (prstkptr proctab p) := fun p =>
      called_mem ret fun hin => (hfree _ hin p).2 rfl
    have hbelow : ∀ p, prstkptr proctab p ∉ recordWords (t.cpu.gpr .sp - 168) := fun p hin =>
      (hfree _ (below_mono (by decide) (recordWords_below hin)) p).2 rfl
    have hpushed := (hkept.frame hwords fun p _ => hslot p).push
      (f := ⟨t.cpu, epc, t.mode, ret, (called (take t.cpu cause epc) ret).gpr .sp⟩)
      (called_recorded (take t.cpu cause epc) ret).of_take hbelow
    refine ⟨⟨⟨hpushed.recorded, hpushed.suspended, hpushed.slots⟩, fun p => ?_, trivial⟩, nofun⟩
    show Stacked (t.setFrames _ p)
    unfold Contexts.setFrames
    by_cases hp : p = t.currpid
    · subst hp
      rw [Function.update_self]
      have hsp : (called (take t.cpu cause epc) ret).gpr .sp = t.cpu.gpr .sp - 168 - 8 :=
        called_sp (take t.cpu cause epc) ret
      refine ⟨?_, hresumable, h.stacked t.currpid⟩
      dsimp only [Interrupted.base]
      exact hsp
    · rw [Function.update_of_ne hp]
      exact h.stacked p
  · rename_i s henter
    obtain ⟨v, rfl, hsp, hmem⟩ := enter_erets hentry henter
    cases hst
    have hrecorded : Recorded v.mem (t.cpu.gpr .sp - 168) t.cpu epc := by
      rw [hmem]
      exact (record_recorded (take t.cpu cause epc)).of_take
    have hresumed := popRecord_ok hrecorded hsp
    have hframe : ∀ a ∉ below (t.cpu.gpr .sp) 44, (v.run popRecord).mem a = t.cpu.mem a := by
      intro a ha
      rw [popRecord_mem, hmem]
      exact record_mem fun hin => ha (below_mono (by decide) hin)
    have hafter : Resumable (t.frames t.currpid) (eret (v.run popRecord)) t.mode :=
      hresumable.of_get hresumed.1
    have hkept' : Kept proctab (v.run popRecord).mem t := hkept.frame
      (fun p a ha => hframe a fun hin => (hfree a hin p).1 ha)
      fun p _ => hframe _ fun hin => (hfree _ hin p).2 rfl
    refine ⟨⟨?_, h.stacked, hafter.placedAt⟩, fun e he => ?_⟩
    · rw [hafter.settled]
      exact ⟨hkept'.recorded, hkept'.suspended, hkept'.slots⟩
    · rw [List.mem_singleton.mp he]
      exact hresumed
  · cases hst

/-- **An instruction of the text.** -/
theorem leave {n : Nat} (h : Intact proctab t) (hmode : t.mode = .leaving n)
    (hst : t.leave n = some (t', es)) : Intact proctab t' ∧ ∀ e ∈ es, e.Ok := by
  have hplaced := h.placed
  have hkept := h.kept
  rw [hmode] at hplaced hkept
  obtain ⟨f, hf, hplaced⟩ := hplaced
  obtain ⟨fs, hframes⟩ := List.head?_eq_some_iff.mp hf
  have hstacked := h.stacked t.currpid
  rw [hframes] at hstacked
  have hrecorded := hkept.recorded t.currpid f (List.mem_of_mem_head? hf)
  unfold Contexts.leave at hst
  rcases hplaced with ⟨j, hn, hearly⟩ | ⟨rfl, hexl, hsp⟩ | ⟨k, rfl, hon, hresumed⟩
  · -- before exception level
    obtain ⟨i, hi, hnext⟩ := hearly.exec hstacked.1
    have htext : text[n]? = some (Item.op i) := by
      rw [text_exit hearly.lt hn, hi, Option.map_some]
    rw [htext] at hst
    cases hst
    have hmem : (t.cpu.exec i).mem = t.cpu.mem := Cpu.exec_mem (exit_loads i (List.mem_of_getElem? hi))
    refine ⟨⟨?_, h.stacked, f, hf, ?_⟩, nofun⟩
    · show Kept proctab (t.cpu.exec i).mem _
      rw [hmem]
      exact ⟨hkept.recorded, hkept.suspended, hkept.slots⟩
    · rcases hnext with ⟨-, hearly'⟩ | ⟨rfl, hexl, hsp⟩
      · exact .inl ⟨j + 1, hn.imp (congrArg (· + 1)) (congrArg (· + 1)), hearly'⟩
      · rcases hn with rfl | rfl
        · exact .inr (.inl ⟨rfl, hexl, hsp⟩)
        · refine .inr (.inr ⟨0, rfl, .inl ⟨by decide, hexl⟩, popRecord_ok ?_ hsp⟩)
          show Recorded (t.cpu.exec i).mem _ _ _
          rw [hmem]
          exact hrecorded
  · -- the jump to `_restore`
    have htext : text[31]? = some (Item.j 48) := by decide
    rw [htext] at hst
    cases hst
    exact ⟨⟨⟨hkept.recorded, hkept.suspended, hkept.slots⟩, h.stacked, f, hf,
      .inr (.inr ⟨0, rfl, .inl ⟨by decide, hexl⟩, popRecord_ok hrecorded hsp⟩)⟩, nofun⟩
  · rcases hon with ⟨hk, hexl⟩ | ⟨rfl, hheld⟩
    · -- the record is popped
      obtain ⟨i, hi, htext⟩ := text_popRecord hk
      rw [htext] at hst
      cases hst
      have hmem : (t.cpu.exec i).mem = t.cpu.mem :=
        Cpu.exec_mem (popRecord_isLoad i (List.mem_of_getElem? hi))
      refine ⟨⟨?_, h.stacked, f, hf, .inr (.inr ⟨k + 1, rfl, ?_, ?_⟩)⟩, nofun⟩
      · show Kept proctab (t.cpu.exec i).mem _
        rw [hmem]
        exact ⟨hkept.recorded, hkept.suspended, hkept.slots⟩
      · exact (popRecord_window hk hi).imp
          (fun hlt => ⟨hlt.1, by rw [exl, Cpu.exec_cop0 hlt.2]; exact hexl⟩) id
      · rw [Cpu.run_drop hi] at hresumed
        exact hresumed
    · -- the `eret`
      have htext : text[48 + 40]? = some Item.eret := by decide
      have hlen : popRecord.drop 40 = [] := by decide
      rw [htext, hframes] at hst
      cases hst
      rw [hlen, Cpu.run_nil] at hresumed
      have hsame : t.setFrames fs t.currpid = fs := Function.update_self ..
      have hafter : Resumable (t.setFrames fs t.currpid) (eret t.cpu) f.mode := by
        rw [hsame]
        exact hstacked.2.1.of_get hresumed.1
      have hother : ∀ p ≠ t.currpid, t.setFrames fs p = t.frames p := fun p hp =>
        Function.update_of_ne hp ..
      refine ⟨⟨?_, fun p => ?_, hafter.placedAt⟩, fun e he => ?_⟩
      · rw [hafter.settled]
        refine hkept.drop (fun p g hg => ?_) fun p c hc => hc
        by_cases hp : p = t.currpid
        · subst hp
          rw [hframes]
          exact List.mem_cons_of_mem f (hsame ▸ hg)
        · exact hother p hp ▸ hg
      · show Stacked (t.setFrames fs p)
        by_cases hp : p = t.currpid
        · rw [hp, hsame]
          exact hstacked.2.2
        · rw [hother p hp]
          exact h.stacked p
      · rw [List.mem_singleton.mp he]
        exact hresumed

/-- **An instruction of `ctxsw`.** -/
theorem switch {c : Option Cpu} {k : Nat} (h : Intact proctab t) (hmode : t.mode = .switching c k)
    (hst : t.switch c k = some (t', es)) : Intact proctab t' ∧ ∀ e ∈ es, e.Ok := by
  have hplaced := h.placed
  have hkept := h.kept
  rw [hmode] at hplaced hkept
  unfold Contexts.PlacedAt at hplaced
  unfold Contexts.settled at hkept
  dsimp only at hplaced hkept
  unfold Contexts.switch at hst
  split at hst
  · rename_i i hi
    rw [Cpu.run_drop hi] at hplaced hkept
    dsimp only at hst
    split at hst
    · rename_i hlast
      cases hst
      rw [hlast, List.drop_length, Cpu.run_nil] at hplaced hkept
      refine ⟨⟨⟨hkept.recorded, hkept.suspended, hkept.slots⟩, h.stacked, trivial⟩, fun e he => ?_⟩
      obtain ⟨d, hd, rfl⟩ := List.mem_map.mp he
      exact hplaced d (Option.mem_toList.mp hd)
    · cases hst
      exact ⟨⟨⟨hkept.recorded, hkept.suspended, hkept.slots⟩, h.stacked, hplaced⟩, nofun⟩
  · cases hst

/-- **The CPU is given away.** -/
theorem call {new : Proc} (h : Intact proctab t) (hmode : t.mode = .code)
    (hconvention : Convention proctab t (.call new)) : Intact proctab (t.call new) := by
  obtain ⟨ha0, ha1, hfree⟩ := hconvention
  have hkept := h.kept
  rw [hmode] at hkept
  have hslot : prstkptr proctab t.currpid ∉ contextWords (t.cpu.gpr .sp - 64) := fun hin =>
    (hfree _ (contextWords_below hin) t.currpid).2 rfl
  have hsuspended := ctxsw_saved (ha0 ▸ hslot)
  rw [ha0] at hsuspended
  have hmem : ∀ a ∉ below (t.cpu.gpr .sp) 16, a ≠ prstkptr proctab t.currpid →
      (t.cpu.run ctxsw).mem a = t.cpu.mem a := fun a ha hne => ctxsw_mem ha (ha0 ▸ hne)
  have hfree' : ∀ p, prstkptr proctab p ∉ below (t.cpu.gpr .sp) 16 := fun p hin =>
    (hfree _ hin p).2 rfl
  -- the place of the own stack pointer is written
  have hdropped : Kept proctab t.cpu.mem (t.forget t.currpid) :=
    hkept.drop (fun _ _ hf => hf) fun p c hc => mem_forget hc
  have hframed : Kept proctab (t.cpu.run ctxsw).mem (t.forget t.currpid) := by
    refine hdropped.frame (fun p a ha => hmem a (fun hin => ?_) fun heq => ?_) fun p hp => ?_
    · exact (hfree a hin p).1 (words_mono (u := t.forget t.currpid) (fun _ hf => hf)
        (fun c hc => mem_forget hc) ha)
    · exact hdropped.slots t.currpid p (heq ▸ ha)
    · refine hmem _ (hfree' p) fun heq => ?_
      rw [prstkptr_injective proctab heq, forget_self] at hp
      cases hp
  have hsaved := hframed.save hsuspended fun q hin => hfree' q (contextWords_below hin)
  dsimp only [Contexts.forget] at hsaved
  rw [Function.update_idem] at hsaved
  refine ⟨?_, h.stacked, fun d hd => ?_⟩
  · exact hsaved.drop (fun _ _ hf => hf) fun p c hc =>
      mem_forget (t := { t with out := Function.update t.out t.currpid (some t.cpu) }) hc
  · have hloaded := hsaved.suspended new d hd
    rw [← ha1] at hloaded
    exact ctxsw_loaded hloaded

/-- **One step.** -/
theorem step {a : ContextAct} (h : Intact proctab t) (hconvention : Convention proctab t a)
    (hok : Orderly t a) (hst : t.step a = some (t', es)) :
    Intact proctab t' ∧ ∀ e ∈ es, e.Ok := by
  cases a with
  | code s =>
    obtain ⟨hmode, hst⟩ := t.inCode_eq_some.mp hst
    cases hst
    have hkept := h.kept
    rw [hmode] at hkept
    have hframed := hkept.frame (fun p => (hconvention p).1) fun p => (hconvention p).2
    refine ⟨⟨?_, h.stacked, ?_⟩, nofun⟩
    · dsimp only
      rw [hmode]
      exact ⟨hframed.recorded, hframed.suspended, hframed.slots⟩
    · dsimp only
      rw [hmode]
      trivial
  | create p =>
    obtain ⟨hmode, hst⟩ := t.inCode_eq_some.mp hst
    split at hst
    · cases hst
    · cases hst
      have hkept := h.kept
      rw [hmode] at hkept
      have hgone : ∀ q, ∀ f ∈ Function.update t.frames p [] q, f ∈ t.frames q := by
        intro q f hf
        by_cases hq : q = p
        · rw [hq, Function.update_self] at hf
          cases hf
        · rwa [Function.update_of_ne hq] at hf
      have hdropped := hkept.drop (u := { t.forget p with frames := Function.update t.frames p [] })
        hgone fun q c hc => mem_forget hc
      refine ⟨⟨?_, fun q => ?_, ?_⟩, nofun⟩
      · dsimp only
        rw [hmode]
        exact ⟨hdropped.recorded, hdropped.suspended, hdropped.slots⟩
      · dsimp only
        by_cases hq : q = p
        · rw [hq, Function.update_self]
          trivial
        · rw [Function.update_of_ne hq]
          exact h.stacked q
      · dsimp only
        rw [hmode]
        trivial
  | interrupt cause epc =>
    unfold Contexts.step at hst
    dsimp only at hst
    split at hst
    · rename_i hon
      exact h.interrupt hon.1 hconvention hok hst
    · cases hst
  | returns =>
    obtain ⟨hmode, hst⟩ := t.inCode_eq_some.mp hst
    split at hst
    · rename_i f fs hframes
      cases hst
      have hkept := h.kept
      rw [hmode] at hkept
      have hhead : f ∈ (t.frames t.currpid).head? := by
        rw [hframes]
        rfl
      have hsp := hconvention f hhead
      refine ⟨⟨⟨hkept.recorded, hkept.suspended, hkept.slots⟩, h.stacked, f, hhead, .inl ⟨0, ?_, hsp⟩⟩,
        nofun⟩
      unfold returnIndex
      split
      · exact .inl rfl
      · exact .inr rfl
    · cases hst
  | leave =>
    unfold Contexts.step at hst
    dsimp only at hst
    split at hst
    · rename_i n hmode
      exact h.leave hmode hst
    · cases hst
  | call new =>
    obtain ⟨hmode, hst⟩ := t.inCode_eq_some.mp hst
    cases hst
    exact ⟨h.call hmode hconvention, nofun⟩
  | ctxsw =>
    unfold Contexts.step at hst
    dsimp only at hst
    split at hst
    · rename_i c k hmode
      exact h.switch hmode hst
    · cases hst

end Intact

-- ---------------------------------------------------------------------------
-- Every run
-- ---------------------------------------------------------------------------

/-- The record is popped at exception level. -/
theorem Intact.window (h : Intact proctab t) : t.Popped → ¬t.Interruptible := by
  rintro ⟨n, hmode, hn⟩
  have hplaced := h.placed
  rw [hmode] at hplaced
  obtain ⟨f, -, ⟨j, hj, hearly⟩ | hlate⟩ := hplaced
  · have hlt : j < 5 := hearly.lt
    omega
  · exact hlate.not_interruptible

/-- Where every dispatch aborts or ends with the record where it is looked for, and `ctxsw` is
not interrupted, every process goes on with the registers that it had, and no interrupt is
possible between the pop of its record and the `eret`. -/
theorem preserved_without_slip {tr : List Resumed}
    (r : contexts.Run (fun t a => Convention proctab t a ∧ Orderly t a) tr t) :
    Preserved tr t := by
  have hinv : Intact proctab t ∧ ∀ e ∈ tr, e.Ok := by
    refine Machine.Run.invariant (I := fun tr t => Intact proctab t ∧ ∀ e ∈ tr, e.Ok) r
      (fun t hstart => ?_) fun tr es t t' a hinv hok hst => ?_
    · obtain ⟨hmode, hframes, hout⟩ := hstart
      refine ⟨⟨⟨fun p f hf => ?_, fun p c hc => ?_, fun p q hin => ?_⟩, fun p => ?_, ?_⟩, nofun⟩
      · rw [hframes] at hf
        cases hf
      · rw [hout] at hc
        cases hc
      · unfold Contexts.words at hin
        rw [hframes, hout] at hin
        cases hin
      · rw [hframes]
        trivial
      · rw [hmode]
        trivial
    · obtain ⟨hintact, hes⟩ := hinv.1.step hok.1 hok.2 hst
      refine ⟨hintact, fun e he => ?_⟩
      rcases List.mem_append.mp he with he | he
      · exact hes e he
      · exact hinv.2 e he
  exact ⟨hinv.2, hinv.1.window⟩

/-- The null process, with a stack. -/
def nullContexts : Contexts where
  cpu := { withCop0 0 0x1000f001 with gpr := fun r => if r = .sp then 0x40000 else 7 }
  held := false
  mode := .code
  currpid := 0
  frames _ := []
  out _ := none

def proctabAddr : Word := 0x2000

/-- `resched` is about to call `ctxsw`. -/
def atSwitch (s : Cpu) (old new : Proc) : Cpu :=
  (s.set .a0 (prstkptr proctabAddr old)).set .a1 (prstkptr proctabAddr new)

/-- A handler gives the CPU to a new process, which gives it back: with an interrupt of the
timer. -/
def handlerSwitches : List ContextAct :=
  let s := called (take nullContexts.cpu 0x8000 0x1000) uartRet
  let s' := { atSwitch s 0 1 with
    mem := Function.update s.mem (prstkptr proctabAddr 1) 0x30000 }
  [.interrupt 0x8000 0x1000, .code s', .call 1] ++ List.replicate ctxsw.length .ctxsw ++
    [.code (atSwitch (s'.run ctxsw) 1 0), .call 0] ++ List.replicate ctxsw.length .ctxsw ++
    .returns :: List.replicate 47 .leave

theorem preserved_without_slip_switches :
    ∃ t tr, contexts.exec (fun t a => Convention proctabAddr t a ∧ Orderly t a) nullContexts []
      handlerSwitches = some (t, tr) ∧ tr.length = 2 ∧ Preserved tr t := by
  have hrun : (contexts.exec (fun t a => Convention proctabAddr t a ∧ Orderly t a) nullContexts []
      handlerSwitches).any fun r => r.2.length = 2 := by
    decide +kernel
  obtain ⟨⟨t, tr⟩, hst, htr⟩ := (Option.any_eq_true _ _).mp hrun
  exact ⟨t, tr, hst, of_decide_eq_true htr,
    preserved_without_slip (Machine.exec_run (.start ⟨rfl, rfl, rfl⟩) hst)⟩

theorem null_returns_lower : (contexts.exec (Convention proctabAddr) nullContexts []
    ([.interrupt 0xc000 0x1000, .returns] ++ List.replicate 47 .leave)).any fun r =>
      r.2.any fun
        | .eret c _ s => s.gpr .sp != c.gpr .sp
        | .ctxsw .. => false := by
  decide +kernel

/-- **The timer and the UART at once**: the dispatch ends at the call of the handler, and the
way back finds the record 8 bytes too high. -/
theorem not_preserved : ¬ ∀ proctab tr t, contexts.Run (Convention proctab) tr t →
    Preserved tr t := by
  intro hall
  obtain ⟨⟨t, tr⟩, hst, htr⟩ := (Option.any_eq_true _ _).mp null_returns_lower
  have hpreserved := hall proctabAddr tr t (Machine.exec_run (.start ⟨rfl, rfl, rfl⟩) hst)
  obtain ⟨e, he, hsp⟩ := List.any_eq_true.mp htr
  have hresumed := hpreserved.resumed e he
  cases e with
  | eret c pc s => exact bne_iff_ne.mp hsp (hresumed.1 .sp (by decide) (by decide))
  | ctxsw c s => cases hsp

end Xinu.Irq
