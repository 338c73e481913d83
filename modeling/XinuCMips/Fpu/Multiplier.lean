import Mathlib.Data.BitVec

/-!
# The floating-point multiplier

`mult32float` of `fpu.vhd` with its parts `special_values` and `data_check_mult`. What is
combinational is a function of the registers it reads, each stage is a record of the
registers of one process, and `edge` is the rising edge of `rel`.

`rst` is '1' throughout and `wt_in` is '0', as the FPU ties it. Comparisons of
`std_logic_vector`s of one length are those of the unsigned numbers.
-/

namespace Xinu.Fpu

abbrev Word := BitVec 32

-- ---------------------------------------------------------------------------
-- special_values
-- ---------------------------------------------------------------------------

/-- `FP_type`. -/
inductive FpType
  | isGood | isInf | isNaN | isZero
  deriving DecidableEq

/-- The slices of an operand. -/
def expOf (x : Word) : BitVec 8 := x.extractLsb' 23 8

def mantOf (x : Word) : BitVec 23 := x.extractLsb' 0 23

def signOf (x : Word) : Bool := x.getLsbD 31

/-- `type_A` and `type_B`. -/
def fpType (x : Word) : FpType :=
  if expOf x = 0 ∧ mantOf x = 0 then .isZero
  else if expOf x = BitVec.allOnes 8 ∧ mantOf x = 0 then .isInf
  else if expOf x = BitVec.allOnes 8 ∧ mantOf x ≠ 0 then .isNaN
  else .isGood

/-- `denormA` and `denormB`: '0' for an exponent of zeros. -/
def denorm (x : Word) : Bool := !(expOf x == 0)

-- ---------------------------------------------------------------------------
-- data_check_mult
-- ---------------------------------------------------------------------------

/-- Process `check`. -/
def check (typeA typeB : FpType) (expIn : BitVec 8) (fraIn : BitVec 23) : BitVec 8 × BitVec 23 :=
  let ones : BitVec 8 × BitVec 23 := (BitVec.allOnes 8, BitVec.allOnes 23)
  match typeA with
  | .isNaN => ones
  | .isInf =>
    match typeB with
    | .isZero => ones
    | _ => (BitVec.allOnes 8, 0)
  | .isZero =>
    match typeB with
    | .isInf => ones
    | _ => (0, 0)
  | .isGood =>
    match typeB with
    | .isNaN => ones
    | .isZero => (0, 0)
    | _ => (expIn, fraIn)

/-- Process `check_sig`. -/
def checkSig (typeA typeB : FpType) (sigA sigB : Bool) : Bool :=
  if typeA = .isNaN ∨ typeB = .isNaN then false
  else if typeA = .isInf ∧ typeB = .isZero ∨ typeA = .isZero ∧ typeB = .isInf then false
  else sigA ^^ sigB

-- ---------------------------------------------------------------------------
-- The exponents
-- ---------------------------------------------------------------------------

/-- `expA` and `expB`. -/
def exp9 (x : Word) : BitVec 9 := if denorm x then (expOf x).setWidth 9 else 1

/-- `exp_ab`. -/
def expAB (a b : Word) : BitVec 9 := exp9 a + exp9 b

/-- `exp_p`. -/
def expP (expAB : BitVec 9) : BitVec 9 :=
  if expAB ≥ 0b011111111#9 then 0x0ff#9
  else if expAB ≤ 0b001111111#9 then 0
  else expAB + 0b110000001#9

/-- `desloc`. -/
def desloc (expAB : BitVec 9) : BitVec 9 :=
  if expAB > 0b001111111#9 then 0 else 0b010000000#9 - expAB

-- ---------------------------------------------------------------------------
-- stg1_Mult
-- ---------------------------------------------------------------------------

structure Stg1 where
  vlid : Bool
  wt : Bool
  typeA : FpType
  typeB : FpType
  signA : Bool
  signB : Bool
  deloc : BitVec 5
  exp : BitVec 8
  fracA : BitVec 24
  fracB : BitVec 24
  deriving DecidableEq

def Stg1.clear : Stg1 := ⟨false, false, .isGood, .isGood, false, false, 0, 0, 0, 0⟩

/-- `frac_A` and `frac_B`. -/
def frac24 (x : Word) : BitVec 24 := BitVec.ofBool (denorm x) ++ mantOf x

/-- `deloc2`. -/
def deloc2 (desloc : BitVec 9) : BitVec 5 :=
  if desloc < 0b000011000#9 then desloc.extractLsb' 0 5 else 0b11000#5

def Stg1.next (wt : Bool) (a b : Word) : Stg1 where
  vlid := true
  wt := wt
  typeA := fpType a
  typeB := fpType b
  signA := signOf a
  signB := signOf b
  deloc := deloc2 (desloc (expAB a b))
  exp := (expP (expAB a b)).extractLsb' 0 8
  fracA := frac24 a
  fracB := frac24 b

-- ---------------------------------------------------------------------------
-- stg2_round
-- ---------------------------------------------------------------------------

structure Stg2 where
  vlid : Bool
  wt : Bool
  typeA : FpType
  typeB : FpType
  signA : Bool
  signB : Bool
  deloc : BitVec 5
  exp : BitVec 8
  signR : BitVec 48
  deriving DecidableEq

def Stg2.clear : Stg2 := ⟨false, false, .isGood, .isGood, false, false, 0, 0, 0⟩

/-- `frac_p`. -/
def fracP (fracA fracB : BitVec 24) : BitVec 48 := fracA.setWidth 48 * fracB.setWidth 48

def Stg2.next (s : Stg1) : Stg2 where
  vlid := true
  wt := s.wt
  typeA := s.typeA
  typeB := s.typeB
  signA := s.signA
  signB := s.signB
  deloc := s.deloc
  exp := s.exp
  signR := fracP s.fracA s.fracB

/-- `frac_rounded`. -/
def fracRounded (signR : BitVec 48) : BitVec 26 :=
  if signR.getLsbD 47 = false then (signR.extractLsb' 22 25).setWidth 26 + 1
  else (signR.extractLsb' 23 25).setWidth 26 + 1

/-- The condition of `deloc4` and of `exp_stg3`. -/
def grows (signR : BitVec 48) : Bool := signR.getLsbD 47 || (fracRounded signR).getLsbD 25

def deloc4 (deloc3 : BitVec 5) (signR : BitVec 48) : BitVec 5 :=
  if grows signR ∧ deloc3 > 0 then deloc3 - 1 else deloc3

def expStg3 (expStg2 : BitVec 8) (deloc3 : BitVec 5) (signR : BitVec 48) : BitVec 8 :=
  if signR.getLsbD 47 = false ∧ signR.getLsbD 46 = false then 0
  else if grows signR ∧ deloc3 = 0 then expStg2 + 1
  else expStg2

def fracNormed (expStg2 : BitVec 8) (deloc3 : BitVec 5) (signR : BitVec 48) : BitVec 24 :=
  if expStg3 expStg2 deloc3 signR = BitVec.allOnes 8 then 0
  else if (fracRounded signR).getLsbD 25 then
    ((fracRounded signR).extractLsb' 2 24) >>> (deloc4 deloc3 signR).toNat
  else ((fracRounded signR).extractLsb' 1 24) >>> (deloc4 deloc3 signR).toNat

def mant (expStg2 : BitVec 8) (deloc3 : BitVec 5) (signR : BitVec 48) : BitVec 23 :=
  (fracNormed expStg2 deloc3 signR).extractLsb' 0 23

/-- `sign_f & exp_f & frac_f`. -/
def Stg2.result (s : Stg2) : Word :=
  let p := check s.typeA s.typeB (expStg3 s.exp s.deloc s.signR) (mant s.exp s.deloc s.signR)
  BitVec.ofBool (checkSig s.typeA s.typeB s.signA s.signB) ++ p.1 ++ p.2

-- ---------------------------------------------------------------------------
-- The stages together
-- ---------------------------------------------------------------------------

/-- The registers of `stg0_start`. -/
structure Stg0 where
  vlid : Bool
  wt : Bool
  flag : Bool
  inA : Word
  inB : Word
  deriving DecidableEq

/-- The registers of `stg3_final`. -/
structure Stg3 where
  pronto : Bool
  prod : Word
  deriving DecidableEq

structure Mult where
  stg0 : Stg0
  stg1 : Stg1
  stg2 : Stg2
  stg3 : Stg3
  deriving DecidableEq

structure Inputs where
  ab : Word
  sela : Bool
  selb : Bool
  selc : Bool

def Stg0.edge (s : Stg0) (i : Inputs) : Stg0 :=
  if i.sela = i.selb ∧ s.flag = false then ⟨false, false, false, 0, 0⟩
  else if i.sela = true ∧ i.selb = false then ⟨false, true, true, i.ab, 0⟩
  else if i.sela = false ∧ i.selb = true then ⟨true, true, false, s.inA, i.ab⟩
  else s

namespace Mult

/-- `w_intra`. -/
def wIntra (s : Mult) : Bool := (s.stg0.wt || s.stg1.wt || s.stg2.wt) && !s.stg3.pronto

def stg3Edge (s : Mult) (i : Inputs) : Stg3 :=
  if i.selc = true ∧ s.wIntra = false ∧ s.stg2.vlid = false then ⟨false, 0⟩
  else if i.selc = false ∧ s.stg3.pronto = true then { s.stg3 with pronto := true }
  else if s.stg2.vlid = true then ⟨true, s.stg2.result⟩
  else s.stg3

def edge (s : Mult) (i : Inputs) : Mult where
  stg0 := s.stg0.edge i
  stg1 := if s.stg0.vlid then Stg1.next s.stg0.wt s.stg0.inA s.stg0.inB else Stg1.clear
  stg2 := if s.stg1.vlid then Stg2.next s.stg1 else Stg2.clear
  stg3 := s.stg3Edge i

def run (s : Mult) (is : List Inputs) : Mult := is.foldl edge s

/-- `rst`. -/
def reset : Mult := ⟨⟨false, false, false, 0, 0⟩, Stg1.clear, Stg2.clear, ⟨false, 0⟩⟩

/-- Nothing is under way and no product waits to be read. -/
structure Idle (s : Mult) : Prop where
  vlid0 : s.stg0.vlid = false
  vlid1 : s.stg1.vlid = false
  vlid2 : s.stg2.vlid = false
  pronto : s.stg3.pronto = false

end Mult

/-- What the two stages and the normalisation make of two operands. -/
def product (a b : Word) : Word := (Stg2.next (Stg1.next true a b)).result

/-- **A multiplication**: from an idle multiplier the write of A, periods without a write,
the write of B, and three more edges with whatever inputs. -/
structure Schedule where
  start : Mult
  idle : start.Idle
  selcA : Bool
  waits : List (Word × Bool × Bool)
  selcB : Bool
  after : Inputs × Inputs × Inputs

namespace Schedule

/-- A period without a write, in which the two selects are the same. -/
def wait (w : Word × Bool × Bool) : Inputs := ⟨w.1, w.2.1, w.2.1, w.2.2⟩

def inputs (s : Schedule) (a b : Word) : List Inputs :=
  ⟨a, true, false, s.selcA⟩ :: s.waits.map wait ++
    [⟨b, false, true, s.selcB⟩, s.after.1, s.after.2.1, s.after.2.2]

/-- The multiplier at the end. -/
def ends (s : Schedule) (a b : Word) : Mult := s.start.run (s.inputs a b)

/-- The pattern delivered. -/
def delivers (s : Schedule) (a b : Word) : Word := (s.ends a b).stg3.prod

end Schedule

namespace Mult

variable {s : Mult}

/-- Without a product at its end the pipeline leaves its output alone. -/
theorem stg3_stays (hvlid : s.stg2.vlid = false) (hpronto : s.stg3.pronto = false) (i : Inputs) :
    (s.stg3Edge i).pronto = false := by
  unfold stg3Edge
  split
  · rfl
  · split
    · next hhold =>
      rw [hpronto] at hhold
      exact absurd hhold.2 Bool.false_ne_true
    · rw [hvlid, if_neg Bool.false_ne_true]
      exact hpronto

theorem stg3_loads (hvlid : s.stg2.vlid = true) (hpronto : s.stg3.pronto = false) (i : Inputs) :
    s.stg3Edge i = ⟨true, s.stg2.result⟩ := by
  unfold stg3Edge
  rw [hvlid, hpronto, if_neg fun h => Bool.false_ne_true h.2.2.symm,
    if_neg fun h => Bool.false_ne_true h.2, if_pos rfl]

theorem stg1_clear (h : s.stg0.vlid = false) (i : Inputs) : (s.edge i).stg1 = Stg1.clear := by
  show (if s.stg0.vlid then _ else Stg1.clear) = Stg1.clear
  rw [h]
  rfl

theorem stg2_clear (h : s.stg1.vlid = false) (i : Inputs) : (s.edge i).stg2 = Stg2.clear := by
  show (if s.stg1.vlid then _ else Stg2.clear) = Stg2.clear
  rw [h]
  rfl

/-- The multiplier has A, and waits for B. -/
structure Holds (a : Word) (s : Mult) : Prop where
  idle : s.Idle
  flag : s.stg0.flag = true
  inA : s.stg0.inA = a

theorem Idle.writes (h : s.Idle) (a : Word) (selc : Bool) :
    (s.edge ⟨a, true, false, selc⟩).Holds a :=
  ⟨⟨rfl, congrArg Stg1.vlid (stg1_clear h.vlid0 _), congrArg Stg2.vlid (stg2_clear h.vlid1 _),
    stg3_stays h.vlid2 h.pronto _⟩, rfl, rfl⟩

theorem Holds.wait {a : Word} (h : s.Holds a) (w : Word × Bool × Bool) :
    (s.edge (Schedule.wait w)).Holds a := by
  have hstg0 : s.stg0.edge (Schedule.wait w) = s.stg0 := by
    unfold Stg0.edge Schedule.wait
    rw [h.flag]
    cases w.2.1 <;> rfl
  refine ⟨⟨?_, ?_, ?_, stg3_stays h.idle.vlid2 h.idle.pronto _⟩, ?_, ?_⟩
  · exact (congrArg Stg0.vlid hstg0).trans h.idle.vlid0
  · exact congrArg Stg1.vlid (stg1_clear h.idle.vlid0 _)
  · exact congrArg Stg2.vlid (stg2_clear h.idle.vlid1 _)
  · exact (congrArg Stg0.flag hstg0).trans h.flag
  · exact (congrArg Stg0.inA hstg0).trans h.inA

theorem Holds.waits {a : Word} (ws : List (Word × Bool × Bool)) :
    ∀ {s : Mult}, s.Holds a → (s.run (ws.map Schedule.wait)).Holds a := by
  induction ws with
  | nil => exact id
  | cons w ws ih => exact fun h => ih (h.wait w)

/-- **B goes through the stages** with the A that was held. -/
theorem Holds.delivers {a : Word} (h : s.Holds a) (b : Word) (selc : Bool) (i j k : Inputs) :
    (s.run [⟨b, false, true, selc⟩, i, j, k]).stg3 = ⟨true, product a b⟩ := by
  let s₁ := s.edge ⟨b, false, true, selc⟩
  have hstg0 : s₁.stg0 = ⟨true, true, false, a, b⟩ := by
    rw [← h.inA]
    rfl
  have hstg1 : (s₁.edge i).stg1 = Stg1.next true a b := by
    show (if s₁.stg0.vlid then Stg1.next s₁.stg0.wt s₁.stg0.inA s₁.stg0.inB else Stg1.clear) = _
    rw [hstg0]
    rfl
  have hstg2 : ((s₁.edge i).edge j).stg2 = Stg2.next (Stg1.next true a b) := by
    show (if (s₁.edge i).stg1.vlid then Stg2.next (s₁.edge i).stg1 else Stg2.clear) = _
    rw [hstg1]
    rfl
  have hquiet₁ : s₁.stg3.pronto = false := stg3_stays h.idle.vlid2 h.idle.pronto _
  have hquiet₂ : (s₁.edge i).stg3.pronto = false :=
    stg3_stays (congrArg Stg2.vlid (stg2_clear h.idle.vlid1 _)) hquiet₁ i
  have hquiet₃ : ((s₁.edge i).edge j).stg3.pronto = false :=
    stg3_stays (congrArg Stg2.vlid
      (stg2_clear (congrArg Stg1.vlid (stg1_clear h.idle.vlid0 _)) i)) hquiet₂ j
  show ((s₁.edge i).edge j).stg3Edge k = _
  rw [stg3_loads (by rw [hstg2]; rfl) hquiet₃, hstg2]
  rfl

end Mult

/-- **Every multiplication delivers the product** of its operands. -/
theorem Schedule.ends_stg3 (s : Schedule) (a b : Word) :
    (s.ends a b).stg3 = ⟨true, product a b⟩ := by
  have hholds := Mult.Holds.waits s.waits (s.idle.writes a s.selcA)
  unfold ends inputs Mult.run
  rw [List.cons_append, List.foldl_cons, List.foldl_append]
  exact hholds.delivers b s.selcB _ _ _

end Xinu.Fpu
