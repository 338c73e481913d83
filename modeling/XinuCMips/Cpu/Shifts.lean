import XinuCMips.Cpu.Instructions

/-!
# Shifts and bit fields

`shift_left32` and `shift_right32` shift in five stages, one for each bit of the
amount, and EXT and INS reuse them with the table of `mask_off_bits`. The stages
add up to the shifts of `BitVec` (`shiftLeft32_eq`, `shiftRight32_eq`), so that the
unit computes what the ALU is described with (`unitC_eq`).
-/

namespace Xinu.Cpu

/-- `shift_left32`. -/
def shiftLeft32 (inp : Word) (shamt : Reg) : Word :=
  let i1 : Word := if shamt.getLsbD 0 then inp.extractLsb' 0 31 ++ 0#1 else inp
  let i2 : Word := if shamt.getLsbD 1 then i1.extractLsb' 0 30 ++ 0#2 else i1
  let i4 : Word := if shamt.getLsbD 2 then i2.extractLsb' 0 28 ++ 0#4 else i2
  let i8 : Word := if shamt.getLsbD 3 then i4.extractLsb' 0 24 ++ 0#8 else i4
  if shamt.getLsbD 4 then i8.extractLsb' 0 16 ++ 0#16 else i8

/-- `shift_right32`. -/
def shiftRight32 (inp : Word) (arith : Bool) (shamt : Reg) : Word :=
  let signExt : Word := if arith && inp.getLsbD 31 then BitVec.allOnes 32 else 0
  let i1 : Word := if shamt.getLsbD 0 then signExt.extractLsb' 31 1 ++ inp.extractLsb' 1 31 else inp
  let i2 : Word := if shamt.getLsbD 1 then signExt.extractLsb' 30 2 ++ i1.extractLsb' 2 30 else i1
  let i4 : Word := if shamt.getLsbD 2 then signExt.extractLsb' 28 4 ++ i2.extractLsb' 4 28 else i2
  let i8 : Word := if shamt.getLsbD 3 then signExt.extractLsb' 24 8 ++ i4.extractLsb' 8 24 else i4
  if shamt.getLsbD 4 then signExt.extractLsb' 16 16 ++ i8.extractLsb' 16 16 else i8

/-- `sel_array` of `mask_off_bits`. -/
def selArray : List Word :=
  [0x00000001, 0x00000003, 0x00000007, 0x0000000f,
   0x0000001f, 0x0000003f, 0x0000007f, 0x000000ff,
   0x000001ff, 0x000003ff, 0x000007ff, 0x00000fff,
   0x00001fff, 0x00003fff, 0x00007fff, 0x0000ffff,
   0x0001ffff, 0x0003ffff, 0x0007ffff, 0x000fffff,
   0x001fffff, 0x003fffff, 0x007fffff, 0x00ffffff,
   0x01ffffff, 0x03ffffff, 0x07ffffff, 0x0fffffff,
   0x1fffffff, 0x3fffffff, 0x7fffffff, 0xffffffff]

/-- The table of `mask_off_bits`, by the index of the highest bit. -/
theorem selArray_eq : ∀ b : Reg, selArray[b.toNat]? = some (maskOffBits b) := by
  decide

/-- `mask`, by `index`. -/
def maskOf (fn : AluFun) (postn shamt : Reg) : Word :=
  let size := postn - shamt
  let index := if fn = .opINS then size else postn
  selArray[index.toNat]?.getD 0

/-- `sh_inp`, `shift_arith` and `shift_amnt` of process `U_shifts`. -/
def uShifts (fn : AluFun) (a b : Word) (shamt : Reg) (mask : Word) : Option (Word × Bool × Reg) :=
  match fn with
  | .opSLL | .opSRL => some (b, false, shamt)
  | .opSRA => some (b, true, shamt)
  -- operators RS and RT exchanged
  | .opSLLV | .opSRLV => some (b, false, a.extractLsb' 0 5)
  | .opSRAV => some (b, true, a.extractLsb' 0 5)
  | .opEXT => some (a, false, shamt)
  | .opINS => some (mask, false, shamt)
  | _ => none

/-- `C` for the operations that shift; the others do not use the shifters. -/
def unitC (fn : AluFun) (a b : Word) (postn shamt : Reg) : Option Word :=
  let mask := maskOf fn postn shamt
  (uShifts fn a b shamt mask).map fun (shInp, shiftArith, shiftAmnt) =>
    let shLeft := shiftLeft32 shInp shiftAmnt
    let shRight := shiftRight32 shInp shiftArith shiftAmnt
    let shLftIns := shiftLeft32 (a &&& mask) shiftAmnt
    match fn with
    | .opSLL | .opSLLV => shLeft
    | .opEXT => shRight &&& mask
    | .opINS => (b &&& ~~~shLeft) ||| shLftIns
    | _ => shRight

/-- The amount, by its bits. -/
theorem amount_eq (s : Reg) :
    s.toNat = (if s.getLsbD 0 then 1 else 0) + (if s.getLsbD 1 then 2 else 0) +
      (if s.getLsbD 2 then 4 else 0) + (if s.getLsbD 3 then 8 else 0) +
      (if s.getLsbD 4 then 16 else 0) := by
  revert s
  decide

/-- A stage shifts by its power of two or not at all. -/
theorem left_stage {k n : Nat} (h : n + k = 32) (b : Bool) (x : Word) :
    (if b then (x.extractLsb' 0 n ++ 0#k).cast h else x) = x <<< (if b then k else 0) := by
  cases b with
  | false => simp
  | true =>
    ext i hi
    simp only [if_true, BitVec.getElem_cast, BitVec.getElem_append, BitVec.getElem_shiftLeft]
    by_cases hik : i < k
    · simp [hik]
    · simp [hik, BitVec.getLsbD_eq_getElem (show i - k < 32 by omega)]

/-- `shift_left32` shifts by the amount. -/
theorem shiftLeft32_eq (x : Word) (s : Reg) : shiftLeft32 x s = x <<< s.toNat := by
  have h1 := left_stage (k := 1) (n := 31) rfl
  have h2 := left_stage (k := 2) (n := 30) rfl
  have h4 := left_stage (k := 4) (n := 28) rfl
  have h8 := left_stage (k := 8) (n := 24) rfl
  have h16 := left_stage (k := 16) (n := 16) rfl
  simp only [BitVec.cast_eq] at h1 h2 h4 h8 h16
  rw [amount_eq, BitVec.shiftLeft_add, BitVec.shiftLeft_add, BitVec.shiftLeft_add,
    BitVec.shiftLeft_add, ← h1, ← h2, ← h4, ← h8, ← h16]
  rfl

/-- A right shift that fills with the sign or with zeros. -/
def shiftRightBy (arith : Bool) (x : Word) (k : Nat) : Word :=
  if arith then x.sshiftRight k else x >>> k

theorem shiftRightBy_add (arith : Bool) (x : Word) (j k : Nat) :
    shiftRightBy arith x (j + k) = shiftRightBy arith (shiftRightBy arith x j) k := by
  cases arith with
  | false => simp only [shiftRightBy, Bool.false_eq_true, if_false, BitVec.shiftRight_add]
  | true => simp only [shiftRightBy, if_true, BitVec.sshiftRight_add]

/-- An arithmetic shift keeps the sign that the later stages fill with. -/
theorem sign_shiftRightBy (arith : Bool) (x : Word) (k : Nat) :
    (arith && (shiftRightBy arith x k).getLsbD 31) = (arith && x.getLsbD 31) := by
  have hmsb : ∀ y : Word, y.getLsbD 31 = y.msb := fun y => by rw [BitVec.msb_eq_getLsbD_last]
  cases arith with
  | false => rfl
  | true => simp only [shiftRightBy, if_true, hmsb, BitVec.msb_sshiftRight]

theorem right_stage {k n : Nat} (h : k + n = 32) (b arith : Bool) {x signExt : Word}
    (hs : signExt = if arith && x.getLsbD 31 then BitVec.allOnes 32 else 0) :
    (if b then (signExt.extractLsb' n k ++ x.extractLsb' k n).cast h else x) =
      shiftRightBy arith x (if b then k else 0) := by
  cases b with
  | false => cases arith <;> simp [shiftRightBy]
  | true =>
    have hmsb : x.getLsbD 31 = x.msb := by rw [BitVec.msb_eq_getLsbD_last]
    ext i hi
    have hby : (shiftRightBy arith x k)[i] =
        if k + i < 32 then x.getLsbD (k + i) else arith && x.msb := by
      cases arith with
      | false =>
        rw [shiftRightBy, if_neg Bool.false_ne_true, BitVec.getElem_ushiftRight]
        split <;> rename_i hk
        · rfl
        · exact BitVec.getLsbD_of_ge _ _ (by omega)
      | true =>
        rw [shiftRightBy, if_pos rfl, BitVec.getElem_sshiftRight]
        split <;> rename_i hk
        · rw [BitVec.getLsbD_eq_getElem hk]
        · rfl
    simp only [if_true, BitVec.getElem_cast, BitVec.getElem_append, hby]
    by_cases hin : i < n
    · rw [dif_pos hin, if_pos (show k + i < 32 by omega), BitVec.getElem_extractLsb']
    · rw [dif_neg hin, if_neg (show ¬ k + i < 32 by omega), BitVec.getElem_extractLsb', hs, hmsb]
      split <;> rename_i hsign
      · rw [hsign, BitVec.getLsbD_allOnes]
        exact decide_eq_true (by omega)
      · rw [Bool.not_eq_true] at hsign
        rw [hsign]
        exact BitVec.getLsbD_zero

/-- `shift_right32` shifts by the amount. -/
theorem shiftRight32_eq (x : Word) (arith : Bool) (s : Reg) :
    shiftRight32 x arith s = shiftRightBy arith x s.toNat := by
  obtain ⟨sgn, hsgn⟩ : ∃ sgn : Word, sgn = if arith && x.getLsbD 31 then BitVec.allOnes 32 else 0 :=
    ⟨_, rfl⟩
  -- the fill is taken from the input, whose sign every stage keeps
  have hkeep : ∀ k, sgn =
      if arith && (shiftRightBy arith x k).getLsbD 31 then BitVec.allOnes 32 else 0 :=
    fun k => by rw [hsgn, sign_shiftRightBy]
  rw [amount_eq, shiftRightBy_add, ← right_stage (k := 16) (n := 16) rfl _ arith (hkeep _),
    shiftRightBy_add, ← right_stage (k := 8) (n := 24) rfl _ arith (hkeep _),
    shiftRightBy_add, ← right_stage (k := 4) (n := 28) rfl _ arith (hkeep _),
    shiftRightBy_add, ← right_stage (k := 2) (n := 30) rfl _ arith (hkeep _),
    ← right_stage (k := 1) (n := 31) rfl _ arith hsgn, hsgn]
  rfl

theorem maskOf_eq (fn : AluFun) (postn shamt : Reg) :
    maskOf fn postn shamt = maskOffBits (if fn = .opINS then postn - shamt else postn) := by
  simp only [maskOf, selArray_eq, Option.getD_some]

/-- Where the operation shifts, the ALU's result is the unit's. -/
theorem unitC_eq {fn : AluFun} {a b c : Word} {postn shamt : Reg}
    (h : unitC fn a b postn shamt = some c) (undef hi lo : Word) :
    aluC undef fn a b postn shamt hi lo = c := by
  simp only [unitC, maskOf_eq] at h
  cases fn <;> simp only [uShifts, Option.map_some, Option.map_none, Option.some.injEq, reduceCtorEq] at h <;>
    subst h <;> simp only [aluC, shiftLeft32_eq, shiftRight32_eq, shiftRightBy, Bool.false_eq_true,
      if_true, if_false, reduceCtorEq]

/-- The mask has the bits up to its index. -/
theorem getLsbD_maskOffBits (b : Reg) (i : Nat) :
    (maskOffBits b).getLsbD i = decide (i ≤ b.toNat) := by
  have hb : b.toNat < 32 := b.isLt
  rw [maskOffBits, BitVec.getLsbD_ofNat, Nat.testBit_two_pow_sub_one]
  simp only [← Bool.decide_and, decide_eq_decide]
  omega

/-- EXT takes the bits from `shamt` on, as many as the mask has. -/
theorem getLsbD_opEXT (undef a b hi lo : Word) (postn shamt : Reg) (i : Nat) :
    (aluC undef .opEXT a b postn shamt hi lo).getLsbD i =
      (decide (i ≤ postn.toNat) && a.getLsbD (shamt.toNat + i)) := by
  simp only [aluC, reduceCtorEq, if_false, BitVec.getLsbD_and, BitVec.getLsbD_ushiftRight,
    getLsbD_maskOffBits, Bool.and_comm]

/-- INS puts the low bits of the first operand at `shamt` up to `postn`, and leaves
every other bit of the second. -/
theorem getLsbD_opINS (undef a b hi lo : Word) {postn shamt : Reg} (h : shamt.toNat ≤ postn.toNat)
    {i : Nat} (hi' : i < 32) :
    (aluC undef .opINS a b postn shamt hi lo).getLsbD i =
      if shamt.toNat ≤ i ∧ i ≤ postn.toNat then a.getLsbD (i - shamt.toNat) else b.getLsbD i := by
  have hsub : (postn - shamt).toNat = postn.toNat - shamt.toNat :=
    BitVec.toNat_sub_of_le (by simpa [BitVec.le_def] using h)
  simp only [aluC, if_true, BitVec.getLsbD_or, BitVec.getLsbD_and, BitVec.getLsbD_not,
    BitVec.getLsbD_shiftLeft, getLsbD_maskOffBits, hsub, hi', decide_true, Bool.true_and]
  by_cases hlo : i < shamt.toNat
  · simp [hlo]
  · by_cases hhi : i ≤ postn.toNat
    · simp [hlo, hhi, show i - shamt.toNat ≤ postn.toNat - shamt.toNat by omega]
    · simp [hlo, hhi, show ¬ i - shamt.toNat ≤ postn.toNat - shamt.toNat by omega]

/-- The shift instructions. -/
inductive ShiftOp
  | sll | srl | sra | sllv | srlv | srav
  deriving DecidableEq, Repr

/-- Their function fields. -/
def ShiftOp.func : ShiftOp → BitVec 6
  | .sll => 0
  | .srl => 2
  | .sra => 3
  | .sllv => 4
  | .srlv => 6
  | .srav => 7

/-- The amount that an instruction in the state `s` shifts by: its field, or the low
five bits of rs. -/
def ShiftOp.amount (s : Seq) : ShiftOp → Nat
  | .sll | .srl | .sra => (fieldShamt s.instr).toNat
  | .sllv | .srlv | .srav => s.opA.toNat % 32

/-- What a shift of `b` by `k` is worth: a product modulo 2 ^ 32, or a quotient
rounded down. -/
def ShiftOp.Worth (b : Word) (k : Nat) (v : Word) : ShiftOp → Prop
  | .sll | .sllv => v.toNat = b.toNat * 2 ^ k % 2 ^ 32
  | .srl | .srlv => v.toNat = b.toNat / 2 ^ k
  | .sra | .srav => v.toInt = b.toInt / 2 ^ k

/-- Two words have the same bits outside of a field. -/
def AgreeOutside (pos msb : Nat) (x y : Word) : Prop :=
  ∀ i, ¬ (pos ≤ i ∧ i ≤ msb) → x.getLsbD i = y.getLsbD i

/-- What the shift and bit-field unit owes to the instructions that use it. The
field of EXT and INS starts at the shamt field; the rd field is its size less one
for EXT and the position of its last bit for INS. -/
structure ShiftsRight (chip : Chip) : Prop where
  unit : ∀ fn a b c postn shamt, unitC fn a b postn shamt = some c →
    ∀ hi lo, aluC chip.undef fn a b postn shamt hi lo = c
  shift : ∀ (op : ShiftOp) (s : Seq), s.Special op.func → fieldRd s.instr ≠ 0 → ∀ answer,
    op.Worth s.opB (op.amount s) ((s.exec chip answer).reg (fieldRd s.instr))
  ext : ∀ s : Seq, s.Special3 0 →
    (fieldShamt s.instr).toNat + (fieldRd s.instr).toNat < 32 → fieldRt s.instr ≠ 0 →
    ∀ answer, ((s.exec chip answer).reg (fieldRt s.instr)).toNat =
      s.opA.toNat / 2 ^ (fieldShamt s.instr).toNat % 2 ^ ((fieldRd s.instr).toNat + 1)
  ins : ∀ s : Seq, s.Special3 4 →
    (fieldShamt s.instr).toNat ≤ (fieldRd s.instr).toNat → fieldRt s.instr ≠ 0 →
    ∀ answer i, i < 32 → ((s.exec chip answer).reg (fieldRt s.instr)).getLsbD i =
      if (fieldShamt s.instr).toNat ≤ i ∧ i ≤ (fieldRd s.instr).toNat then
        s.opA.getLsbD (i - (fieldShamt s.instr).toNat)
      else s.opB.getLsbD i
  restores : ∀ s t : Seq, s.Special3 0 → t.Special3 4 →
    fieldRt s.instr ≠ 0 → fieldRt t.instr ≠ 0 →
    fieldShamt t.instr = fieldShamt s.instr →
    (fieldRd t.instr).toNat = (fieldShamt s.instr).toNat + (fieldRd s.instr).toNat →
    ∀ answer answer', t.opA = (s.exec chip answer).reg (fieldRt s.instr) →
    AgreeOutside (fieldShamt t.instr).toNat (fieldRd t.instr).toNat t.opB s.opA →
    (t.exec chip answer').reg (fieldRt t.instr) = s.opA

theorem shift_worth {op : ShiftOp} {s : Seq} (chip : Chip) (h : s.Special op.func)
    (hrd : fieldRd s.instr ≠ 0) (answer : Word) :
    op.Worth s.opB (op.amount s) ((s.exec chip answer).reg (fieldRd s.instr)) := by
  have hamt : (s.opA.extractLsb' 0 5).toNat = s.opA.toNat % 32 := by
    rw [BitVec.extractLsb'_toNat]
    rfl
  have hleft : ∀ k, (s.opB <<< k).toNat = s.opB.toNat * 2 ^ k % 2 ^ 32 := fun k => by
    rw [BitVec.toNat_shiftLeft, Nat.shiftLeft_eq]
  have hright : ∀ k, (s.opB >>> k).toNat = s.opB.toNat / 2 ^ k := fun k => by
    rw [BitVec.toNat_ushiftRight, Nat.shiftRight_eq_div_pow]
  have harith : ∀ k, (s.opB.sshiftRight k).toInt = s.opB.toInt / 2 ^ k := fun k => by
    rw [BitVec.toInt_sshiftRight, Int.shiftRight_eq_div_pow]
    norm_cast
  cases op with
  | sll =>
    rw [h.delivers chip rfl rfl rfl rfl hrd answer]
    exact hleft _
  | srl =>
    rw [h.delivers chip rfl rfl rfl rfl hrd answer]
    exact hright _
  | sra =>
    rw [h.delivers chip rfl rfl rfl rfl hrd answer]
    exact harith _
  | sllv =>
    rw [h.delivers chip rfl rfl rfl rfl hrd answer]
    show _ = _ * 2 ^ (s.opA.toNat % 32) % _
    rw [← hamt]
    exact hleft _
  | srlv =>
    rw [h.delivers chip rfl rfl rfl rfl hrd answer]
    show _ = _ / 2 ^ (s.opA.toNat % 32)
    rw [← hamt]
    exact hright _
  | srav =>
    rw [h.delivers chip rfl rfl rfl rfl hrd answer]
    show _ = _ / 2 ^ (s.opA.toNat % 32)
    rw [← hamt]
    exact harith _

theorem shifts_right (chip : Chip) : ShiftsRight chip := by
  refine ⟨fun _ _ _ _ _ _ h hi lo => unitC_eq h _ hi lo, fun _ _ h hrd answer =>
    shift_worth chip h hrd answer, fun s h hpos hrt answer => ?_, fun s h hpos hrt answer i hi => ?_,
    fun s t hs ht hrs hrt hshamt hrd answer answer' hA hB => ?_⟩
  · rw [h.delivers chip (.inl rfl) hrt answer, if_pos rfl]
    apply Nat.eq_of_testBit_eq
    intro i
    rw [Nat.testBit_mod_two_pow, Nat.testBit_div_two_pow]
    show BitVec.getLsbD _ i = (_ && s.opA.getLsbD _)
    rw [getLsbD_opEXT, Nat.add_comm i]
    simp only [Nat.lt_succ_iff]
  · rw [h.delivers chip (.inr rfl) hrt answer, if_neg (by decide)]
    exact getLsbD_opINS _ _ _ _ _ hpos hi
  · apply BitVec.eq_of_getLsbD_eq
    intro i hi
    have hstart : (fieldShamt t.instr).toNat = (fieldShamt s.instr).toNat := by rw [hshamt]
    have hpos : (fieldShamt t.instr).toNat ≤ (fieldRd t.instr).toNat := by omega
    rw [ht.delivers chip (.inr rfl) hrt answer', if_neg (by decide),
      getLsbD_opINS _ _ _ _ _ hpos hi, hA, hs.delivers chip (.inl rfl) hrs answer,
      if_pos rfl, getLsbD_opEXT]
    split <;> rename_i hfield
    · have hle : i - (fieldShamt t.instr).toNat ≤ (fieldRd s.instr).toNat := by omega
      have hbit : (fieldShamt s.instr).toNat + (i - (fieldShamt t.instr).toNat) = i := by omega
      rw [decide_eq_true hle, Bool.true_and, hbit]
    · exact hB i hfield

end Xinu.Cpu
