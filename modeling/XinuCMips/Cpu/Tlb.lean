import XinuCMips.Cpu.Wires
import Mathlib.Data.Fin.VecNotation
import Mathlib.Tactic.FinCases

/-!
# The TLB

The eight entries of `core.vhd` with the COP0 registers that move data to and from them.
In each cycle the load or store in EX is looked up, and the instruction in MEM may
probe, read or write an entry, or move a word to one of the registers. The exception
signals of the TLB are tied to FALSE, so none of them is here.

* `encode_of_only`   — the or-coded address is right for a single hit;
* `datMm_eq`         — what a lookup delivers for a page pair that one entry maps;
* `probe_right`, `round_trip` — TLBP, and TLBWI with TLBR after it;
* `tlb_right_iff`    — **the TLB is right exactly when no probe disturbs the lookup**:
  TLBP does not stall, and it takes the comparators from the address in EX.
-/

namespace Xinu.Tlb

open Cpu

def cop0regIndex : Reg := 0
def cop0regEntryLo0 : Reg := 2
def cop0regEntryLo1 : Reg := 3
def cop0regEntryHi : Reg := 10

/-- The page pair of an address, also in EntryHi and in a tag: bits 31 to 13. -/
def vpn (w : Word) : BitVec 19 := w.extractLsb' 13 19

/-- The ASID of EntryHi and of a tag. -/
def asid (w : Word) : BitVec 8 := w.extractLsb' 0 8

/-- The registers of the MMU. -/
structure Mmu where
  /-- 31..13 VPN, 12..9 zero, 8 G, 7..0 ASID -/
  tag : Fin 8 → Word
  /-- 25..6 PPN, 5..3 C, 2 D, 1 V, 0 G, of the even and of the odd page -/
  dat0 : Fin 8 → BitVec 26
  dat1 : Fin 8 → BitVec 26
  index : Word
  entryHi : Word
  entryLo0 : Word
  entryLo1 : Word
  /-- `MMU_IDX_0s` -/
  index_zeros : index.extractLsb' 3 28 = 0

/-- The instruction in MEM, with the word that an MTC0 moves, and RANDOM. -/
structure Access where
  exception : ExceptionType
  cop0Reg : Reg
  cop0Inp : Word
  random : Fin 8

namespace Access

variable (a : Access)

def tlbProbe : Bool := a.exception == .exTLBP

def tlbRead : Bool := a.exception == .exTLBR

/-- `update` with `update_reg`, for one of the registers here. -/
def updates (reg : Reg) : Bool := a.exception == .exMTC0 && a.cop0Reg == reg

end Access

/-- `with adr select`, with the last entry for the others. -/
def select {α : Type} (t : Fin 8 → α) : Nat → α
  | 0 => t 0
  | 1 => t 1
  | 2 => t 2
  | 3 => t 3
  | 4 => t 4
  | 5 => t 5
  | 6 => t 6
  | _ => t 7

/-- `tlb_a2_mm + tlb_a1_mm + tlb_a0_mm`. -/
def encode (hit : Fin 8 → Bool) : Nat :=
  (if hit 4 || hit 5 || hit 6 || hit 7 then 4 else 0) +
    (if hit 2 || hit 3 || hit 6 || hit 7 then 2 else 0) +
    (if hit 1 || hit 3 || hit 5 || hit 7 then 1 else 0)

namespace Mmu

variable (m : Mmu) (a : Access) (vAddr : Word)

-- ---------------------------------------------------------------------------
-- The lookup for MEM
-- ---------------------------------------------------------------------------

/-- `mm`. -/
def mm : BitVec 19 := if a.tlbProbe then vpn m.entryHi else vpn vAddr

/-- `hit0_mm` to `hit7_mm`, for the page pair `page`. -/
def hitOf (page : BitVec 19) (i : Fin 8) : Bool :=
  vpn (m.tag i) == page && ((m.tag i).getLsbD 8 || asid (m.tag i) == asid m.entryHi)

/-- `hit_mm`. -/
def hitMm : Bool :=
  let hit := m.hitOf (m.mm a vAddr)
  hit 0 || hit 1 || hit 2 || hit 3 || hit 4 || hit 5 || hit 6 || hit 7

/-- `hit_mm_adr`. -/
def hitMmAdr : Nat := encode (m.hitOf (m.mm a vAddr))

/-- `tlb_ppn_mm0` or `tlb_ppn_mm1`, by the bit of the address. -/
def datMm : BitVec 26 :=
  if vAddr.getLsbD 12 = false then select m.dat0 (m.hitMmAdr a vAddr)
  else select m.dat1 (m.hitMmAdr a vAddr)

/-- `tlb_ppn_mm`. -/
def tlbPpnMm : BitVec 20 := (m.datMm a vAddr).extractLsb' 6 20

def hitMmV : Bool := (m.datMm a vAddr).getLsbD 1

def hitMmD : Bool := (m.datMm a vAddr).getLsbD 2

-- ---------------------------------------------------------------------------
-- The registers
-- ---------------------------------------------------------------------------

/-- `i_tlb_adr` from INDEX, for which the zeros of INDEX leave eight values. -/
def indexAdr : Fin 8 :=
  ⟨(m.index.extractLsb' 0 8).toNat, by
    have h := congrArg BitVec.toNat m.index_zeros
    simp only [BitVec.extractLsb'_toNat, Nat.shiftRight_zero] at h ⊢
    have hz : (0#28).toNat = 0 := rfl
    rw [Nat.shiftRight_eq_div_pow] at h
    have hlt := m.index.isLt
    have h0 : m.index.toNat / 2 ^ 3 % 2 ^ 28 = 0 := h
    omega⟩

/-- The entry that is written in this cycle. -/
def written : Option (Fin 8) :=
  match a.exception with
  | .exTLBWI => some m.indexAdr
  | .exTLBWR => some a.random
  | _ => none

/-- `index_inp`. -/
def indexInp : Word :=
  BitVec.ofBool (!m.hitMm a vAddr) ++ 0#28 ++
    if a.tlbProbe then BitVec.ofNat 3 (m.hitMmAdr a vAddr) else a.cop0Inp.extractLsb' 0 3

/-- `tlb_tag_inp`. -/
def tlbTagInp : Word :=
  vpn m.entryHi ++
    (0#4 ++ BitVec.ofBool (m.entryLo0.getLsbD 0 && m.entryLo1.getLsbD 0)) ++ asid m.entryHi

/-- `tlb_entryhi`, of the entry that INDEX names. -/
def tlbEntryhi : Word := vpn (m.tag m.indexAdr) ++ 0#5 ++ asid (m.tag m.indexAdr)

/-- `tlb_entryLo0`. -/
def tlbEntryLo0 : Word := 0#6 ++ m.dat0 m.indexAdr

/-- `tlb_entryLo1`. -/
def tlbEntryLo1 : Word := 0#6 ++ m.dat1 m.indexAdr

theorem indexInp_zeros : (m.indexInp a vAddr).extractLsb' 3 28 = 0 := by
  have hbits : ∀ (b : Bool) (adr : BitVec 3),
      (BitVec.ofBool b ++ 0#28 ++ adr).extractLsb' 3 28 = 0 := by
    decide
  exact hbits _ _

/-- The clock edge. -/
def next : Mmu :=
  let index := if a.updates cop0regIndex || a.tlbProbe then m.indexInp a vAddr else m.index
  { tag := fun i => if m.written a = some i then m.tlbTagInp else m.tag i
    dat0 := fun i => if m.written a = some i then m.entryLo0.extractLsb' 0 26 else m.dat0 i
    dat1 := fun i => if m.written a = some i then m.entryLo1.extractLsb' 0 26 else m.dat1 i
    index := index
    entryHi :=
      if a.updates cop0regEntryHi || a.tlbRead then
        if a.tlbRead then m.tlbEntryhi else a.cop0Inp
      else m.entryHi
    entryLo0 :=
      if a.updates cop0regEntryLo0 || a.tlbRead then
        if a.tlbRead then m.tlbEntryLo0 else a.cop0Inp
      else m.entryLo0
    entryLo1 :=
      if a.updates cop0regEntryLo1 || a.tlbRead then
        if a.tlbRead then m.tlbEntryLo1 else a.cop0Inp
      else m.entryLo1
    index_zeros := by
      show index.extractLsb' 3 28 = 0
      dsimp only [index]
      split
      · exact m.indexInp_zeros a vAddr
      · exact m.index_zeros }

/-- The MMU after some cycles, each with its instruction in MEM and its address in EX. -/
def run (m : Mmu) (cycles : List (Access × Word)) : Mmu :=
  cycles.foldl (fun m c => m.next c.1 c.2) m

-- ---------------------------------------------------------------------------
-- What a TLB is for
-- ---------------------------------------------------------------------------

/-- Entry `i` maps the page pair, for all processes or for the current one. -/
def Matches (page : BitVec 19) (i : Fin 8) : Prop :=
  vpn (m.tag i) = page ∧ ((m.tag i).getLsbD 8 = true ∨ asid (m.tag i) = asid m.entryHi)

instance (page : BitVec 19) (i : Fin 8) : Decidable (m.Matches page i) := by
  unfold Matches
  infer_instance

/-- No page pair has two entries. -/
def Unique : Prop := ∀ page i j, m.Matches page i → m.Matches page j → i = j

/-- The even or the odd page of an entry. -/
def page (i : Fin 8) : BitVec 26 := if vAddr.getLsbD 12 = false then m.dat0 i else m.dat1 i

/-- The same PPN, D and V. -/
def SamePage (x y : BitVec 26) : Prop :=
  x.extractLsb' 6 20 = y.extractLsb' 6 20 ∧ x.getLsbD 1 = y.getLsbD 1 ∧ x.getLsbD 2 = y.getLsbD 2

/-- **The lookup of the address in EX** hits if an entry maps it, and delivers its page. -/
structure LookupRight : Prop where
  hit : m.hitMm a vAddr = true ↔ ∃ i, m.Matches (vpn vAddr) i
  ppn : ∀ i, m.Matches (vpn vAddr) i → m.tlbPpnMm a vAddr = (m.page vAddr i).extractLsb' 6 20
  valid : ∀ i, m.Matches (vpn vAddr) i → m.hitMmV a vAddr = (m.page vAddr i).getLsbD 1
  dirty : ∀ i, m.Matches (vpn vAddr) i → m.hitMmD a vAddr = (m.page vAddr i).getLsbD 2

/-- **A probe** leaves in INDEX the entry that maps EntryHi, or sets the miss bit. -/
structure ProbeRight : Prop where
  found : a.exception = .exTLBP → ∀ i, m.Matches (vpn m.entryHi) i →
    (m.next a vAddr).index = BitVec.ofNat 32 i.val
  missed : a.exception = .exTLBP → (∀ i, ¬m.Matches (vpn m.entryHi) i) →
    (m.next a vAddr).index.getLsbD 31 = true

/-- No cycle of the run writes entry `i`. -/
def Spares (i : Fin 8) (m : Mmu) : List (Access × Word) → Prop
  | [] => True
  | c :: cycles => m.written c.1 ≠ some i ∧ Spares i (m.next c.1 c.2) cycles

/-- The fields of `m` are back in the registers of `r`: VPN and ASID, and PPN, C, D and V
of both pages. -/
structure Restored (r : Mmu) : Prop where
  vpn : vpn r.entryHi = vpn m.entryHi
  asid : asid r.entryHi = asid m.entryHi
  even : r.entryLo0.extractLsb' 1 25 = m.entryLo0.extractLsb' 1 25
  odd : r.entryLo1.extractLsb' 1 25 = m.entryLo1.extractLsb' 1 25

/-- **An entry that is written is read back** from the same INDEX, whatever happens in
between to the registers and to the other entries. -/
def RoundTrip : Prop :=
  ∀ w v cycles r u, w.exception = .exTLBWI → r.exception = .exTLBR →
    Spares m.indexAdr (m.next w v) cycles →
    ((m.next w v).run cycles).indexAdr = m.indexAdr →
    m.Restored (((m.next w v).run cycles).next r u)

/-- What the TLB owes. -/
structure TlbRight : Prop where
  lookup : m.LookupRight a vAddr
  probe : m.ProbeRight a vAddr
  trip : m.RoundTrip

/-- A probe in MEM comes to the same as the lookup in EX: neither page pair is mapped, or
both are, to pages with the same PPN, D and V. -/
def Undisturbed : Prop :=
  a.exception = .exTLBP →
    (∀ i j, m.Matches (vpn m.entryHi) i → m.Matches (vpn vAddr) j →
      SamePage (m.page vAddr i) (m.page vAddr j)) ∧
    ((∃ i, m.Matches (vpn m.entryHi) i) ↔ ∃ j, m.Matches (vpn vAddr) j)

instance : Decidable (m.Undisturbed a vAddr) := by
  unfold Undisturbed SamePage
  infer_instance

end Mmu

-- ---------------------------------------------------------------------------
-- The lookup
-- ---------------------------------------------------------------------------

variable {m : Mmu} {a : Access} {vAddr : Word} {p : BitVec 19} {i : Fin 8}

/-- **A single hit** has the address that the or gates give. -/
theorem encode_of_only {hit : Fin 8 → Bool} (h : ∀ j, hit j = true ↔ j = i) :
    encode hit = i.val := by
  have hone : hit = fun j => decide (j = i) := by
    funext j
    rw [Bool.eq_iff_iff, h j, decide_eq_true_eq]
  have hall : ∀ k : Fin 8, encode (fun j => decide (j = k)) = k.val := by decide
  rw [hone]
  exact hall i

theorem select_val {α : Type} (t : Fin 8 → α) (i : Fin 8) : select t i.val = t i := by
  fin_cases i <;> rfl

theorem hitOf_iff : m.hitOf p i = true ↔ m.Matches p i := by
  unfold Mmu.hitOf Mmu.Matches
  rw [Bool.and_eq_true, Bool.or_eq_true, beq_iff_eq, beq_iff_eq]

theorem any_iff (hit : Fin 8 → Bool) :
    (hit 0 || hit 1 || hit 2 || hit 3 || hit 4 || hit 5 || hit 6 || hit 7) = true ↔
      ∃ i, hit i = true := by
  constructor
  · intro h
    simp only [Bool.or_eq_true] at h
    rcases h with ((((((h | h) | h) | h) | h) | h) | h) | h <;> exact ⟨_, h⟩
  · rintro ⟨i, hi⟩
    fin_cases i <;> simp_all

theorem hitMm_iff : m.hitMm a vAddr = true ↔ ∃ i, m.Matches (m.mm a vAddr) i :=
  (any_iff _).trans (exists_congr fun _ => hitOf_iff)

/-- **One entry that matches** is the one whose pages are delivered. -/
theorem hitMmAdr_eq (hu : m.Unique) (h : m.Matches (m.mm a vAddr) i) :
    m.hitMmAdr a vAddr = i.val := by
  refine encode_of_only fun j => ?_
  rw [hitOf_iff]
  constructor
  · exact fun hj => hu _ j i hj h
  · rintro rfl
    exact h

theorem datMm_eq (hu : m.Unique) (h : m.Matches (m.mm a vAddr) i) :
    m.datMm a vAddr = m.page vAddr i := by
  unfold Mmu.datMm Mmu.page
  rw [hitMmAdr_eq hu h, select_val, select_val]

theorem mm_of_probe (h : a.exception = .exTLBP) : m.mm a vAddr = vpn m.entryHi := by
  unfold Mmu.mm Access.tlbProbe
  rw [h]
  rfl

theorem mm_of_not_probe (h : a.exception ≠ .exTLBP) : m.mm a vAddr = vpn vAddr :=
  if_neg fun hp => h (beq_iff_eq.mp hp)

/-- A page that is delivered for another one with the same PPN, D and V. -/
theorem lookupRight_iff_same (hu : m.Unique) :
    m.LookupRight a vAddr ↔
      (∀ i j, m.Matches (m.mm a vAddr) i → m.Matches (vpn vAddr) j →
        Mmu.SamePage (m.page vAddr i) (m.page vAddr j)) ∧
      ((∃ i, m.Matches (m.mm a vAddr) i) ↔ ∃ j, m.Matches (vpn vAddr) j) := by
  constructor
  · intro h
    refine ⟨fun i j hi hj => ?_, hitMm_iff.symm.trans h.hit⟩
    have hdat := datMm_eq hu hi
    have hppn := h.ppn j hj
    have hv := h.valid j hj
    have hd := h.dirty j hj
    unfold Mmu.tlbPpnMm at hppn
    unfold Mmu.hitMmV at hv
    unfold Mmu.hitMmD at hd
    rw [hdat] at hppn hv hd
    exact ⟨hppn, hv, hd⟩
  · rintro ⟨hsame, hhit⟩
    -- whichever entry maps the address, the one that is delivered is as good
    have hdat : ∀ j, m.Matches (vpn vAddr) j →
        Mmu.SamePage (m.datMm a vAddr) (m.page vAddr j) := by
      intro j hj
      obtain ⟨i, hi⟩ := hhit.mpr ⟨j, hj⟩
      rw [datMm_eq hu hi]
      exact hsame i j hi hj
    exact ⟨hitMm_iff.trans hhit, fun j hj => (hdat j hj).1, fun j hj => (hdat j hj).2.1,
      fun j hj => (hdat j hj).2.2⟩

theorem lookupRight_iff (hu : m.Unique) : m.LookupRight a vAddr ↔ m.Undisturbed a vAddr := by
  rw [lookupRight_iff_same hu]
  by_cases hp : a.exception = .exTLBP
  · rw [mm_of_probe hp]
    exact ⟨fun h _ => h, fun h => h hp⟩
  · rw [mm_of_not_probe hp]
    refine iff_of_true ⟨fun i j hi hj => ?_, Iff.rfl⟩ fun h => absurd h hp
    rw [hu _ i j hi hj]
    exact ⟨rfl, rfl, rfl⟩

-- ---------------------------------------------------------------------------
-- Probes, writes and reads
-- ---------------------------------------------------------------------------

/-- **A probe is right.** -/
theorem probe_right (hu : m.Unique) : m.ProbeRight a vAddr := by
  have hindex : a.exception = .exTLBP → (m.next a vAddr).index =
      BitVec.ofBool (!m.hitMm a vAddr) ++ 0#28 ++ BitVec.ofNat 3 (m.hitMmAdr a vAddr) := by
    intro hp
    have hprobe : a.tlbProbe = true := beq_iff_eq.mpr hp
    show (if a.updates cop0regIndex || a.tlbProbe then m.indexInp a vAddr else m.index) = _
    rw [hprobe, Bool.or_true, if_pos rfl]
    unfold Mmu.indexInp
    rw [hprobe, if_pos rfl]
  constructor
  · intro hp i hi
    have hmm : m.mm a vAddr = vpn m.entryHi := mm_of_probe hp
    rw [← hmm] at hi
    have hbits : ∀ i : Fin 8, BitVec.ofBool (!true) ++ 0#28 ++ BitVec.ofNat 3 i.val =
        BitVec.ofNat 32 i.val := by
      decide
    rw [hindex hp, hitMmAdr_eq hu hi, hitMm_iff.mpr ⟨i, hi⟩]
    exact hbits i
  · intro hp hno
    have hmm : m.mm a vAddr = vpn m.entryHi := mm_of_probe hp
    rw [← hmm] at hno
    have hbits : ∀ adr : BitVec 3,
        (BitVec.ofBool (!false) ++ 0#28 ++ adr).getLsbD 31 = true := by
      decide
    have hmiss : m.hitMm a vAddr = false :=
      Bool.eq_false_iff.mpr fun h => (hitMm_iff.mp h).elim hno
    rw [hindex hp, hmiss]
    exact hbits _

/-- The entry as a run leaves it that does not write it. -/
theorem run_spares {cycles : List (Access × Word)} (h : Mmu.Spares i m cycles) :
    (m.run cycles).tag i = m.tag i ∧ (m.run cycles).dat0 i = m.dat0 i ∧
      (m.run cycles).dat1 i = m.dat1 i := by
  induction cycles generalizing m with
  | nil => exact ⟨rfl, rfl, rfl⟩
  | cons c cycles ih =>
    obtain ⟨hne, hspares⟩ := h
    obtain ⟨htag, hdat0, hdat1⟩ := ih hspares
    exact ⟨htag.trans (if_neg hne), hdat0.trans (if_neg hne), hdat1.trans (if_neg hne)⟩

/-- The fields of a word that is put together from them. -/
theorem extract_fields {z : Nat} (x : BitVec 19) (y : BitVec z) (w : BitVec 8) :
    (x ++ y ++ w).extractLsb' (z + 8) 19 = x ∧ (x ++ y ++ w).extractLsb' 0 8 = w := by
  constructor
  · refine BitVec.eq_of_getLsbD_eq fun k hk => ?_
    rw [BitVec.getLsbD_extractLsb', BitVec.getLsbD_append, if_neg (by omega),
      BitVec.getLsbD_append, if_neg (by omega), decide_eq_true hk, Bool.true_and]
    congr 1
    omega
  · refine BitVec.eq_of_getLsbD_eq fun k hk => ?_
    rw [BitVec.getLsbD_extractLsb', BitVec.getLsbD_append, if_pos (by omega), Nat.zero_add,
      decide_eq_true hk, Bool.true_and]

/-- The page of an entry, in EntryLo0 or EntryLo1 and back. -/
theorem extract_page (lo : Word) :
    ((0#6 ++ lo.extractLsb' 0 26 : BitVec (6 + 26)).extractLsb' 1 25) = lo.extractLsb' 1 25 := by
  refine BitVec.eq_of_getLsbD_eq fun k hk => ?_
  rw [BitVec.getLsbD_extractLsb', BitVec.getLsbD_append, if_pos (by omega),
    BitVec.getLsbD_extractLsb', BitVec.getLsbD_extractLsb', Nat.zero_add,
    decide_eq_true (show 1 + k < 26 by omega), Bool.true_and]

/-- **What is written is read back.** -/
theorem round_trip (m : Mmu) : m.RoundTrip := by
  intro w v cycles r u hw hr hspares hindex
  generalize hn : (m.next w v).run cycles = n at *
  -- the entry as it was written
  have hwritten : m.written w = some m.indexAdr := by
    unfold Mmu.written
    rw [hw]
  obtain ⟨htag, hdat0, hdat1⟩ := run_spares hspares
  rw [hn] at htag hdat0 hdat1
  have htag : n.tag n.indexAdr = m.tlbTagInp := by
    rw [hindex]
    exact htag.trans (if_pos hwritten)
  have hdat0 : n.dat0 n.indexAdr = m.entryLo0.extractLsb' 0 26 := by
    rw [hindex]
    exact hdat0.trans (if_pos hwritten)
  have hdat1 : n.dat1 n.indexAdr = m.entryLo1.extractLsb' 0 26 := by
    rw [hindex]
    exact hdat1.trans (if_pos hwritten)
  -- and as it is read
  have hread : r.tlbRead = true := beq_iff_eq.mpr hr
  have hfields : vpn m.tlbTagInp = vpn m.entryHi ∧ asid m.tlbTagInp = asid m.entryHi :=
    extract_fields (vpn m.entryHi)
      (0#4 ++ BitVec.ofBool (m.entryLo0.getLsbD 0 && m.entryLo1.getLsbD 0)) (asid m.entryHi)
  have hhi : (n.next r u).entryHi = n.tlbEntryhi := by
    show (if r.updates cop0regEntryHi || r.tlbRead then
      if r.tlbRead then n.tlbEntryhi else r.cop0Inp else n.entryHi) = _
    rw [hread, Bool.or_true, if_pos rfl, if_pos rfl]
  have hlo0 : (n.next r u).entryLo0 = n.tlbEntryLo0 := by
    show (if r.updates cop0regEntryLo0 || r.tlbRead then
      if r.tlbRead then n.tlbEntryLo0 else r.cop0Inp else n.entryLo0) = _
    rw [hread, Bool.or_true, if_pos rfl, if_pos rfl]
  have hlo1 : (n.next r u).entryLo1 = n.tlbEntryLo1 := by
    show (if r.updates cop0regEntryLo1 || r.tlbRead then
      if r.tlbRead then n.tlbEntryLo1 else r.cop0Inp else n.entryLo1) = _
    rw [hread, Bool.or_true, if_pos rfl, if_pos rfl]
  have hback := extract_fields (vpn (n.tag n.indexAdr)) 0#5 (asid (n.tag n.indexAdr))
  constructor
  · rw [hhi]
    refine hback.1.trans ?_
    rw [htag, hfields.1]
  · rw [hhi]
    refine hback.2.trans ?_
    rw [htag, hfields.2]
  · rw [hlo0]
    unfold Mmu.tlbEntryLo0
    rw [hdat0]
    exact extract_page m.entryLo0
  · rw [hlo1]
    unfold Mmu.tlbEntryLo1
    rw [hdat1]
    exact extract_page m.entryLo1

/-- **The TLB is right exactly when no probe disturbs the lookup**, for every content with
at most one entry for a page pair. -/
theorem tlb_right_iff (hu : m.Unique) : m.TlbRight a vAddr ↔ m.Undisturbed a vAddr :=
  ⟨fun h => (lookupRight_iff hu).mp h.lookup,
    fun h => ⟨(lookupRight_iff hu).mpr h, probe_right hu, round_trip m⟩⟩

/-- The pages of ROM, of the I/O devices and of RAM that the TLB maps at first. -/
def iniPage : Fin 8 → Word :=
  ![0x00000000, 0x3c000000, 0x00002000, 0x00004000, 0x00080000, 0x00082000, 0x00084000, 0x00086000]

/-- The registers after `rst`: every entry is global, and its pages are writable and valid. -/
def Mmu.reset : Mmu where
  tag i := iniPage i &&& 0xffffe000 ||| 0x00000100
  dat0 i := (iniPage i).extractLsb' 12 20 ++ 0b000111#6
  dat1 i := (iniPage i + 0x1000).extractLsb' 12 20 ++ 0b000111#6
  index := 0
  entryHi := 0
  entryLo0 := 0
  entryLo1 := 0
  index_zeros := by decide

theorem reset_unique : Mmu.reset.Unique := by
  have htags : ∀ i j, vpn (Mmu.reset.tag i) = vpn (Mmu.reset.tag j) → i = j := by decide
  intro page i j hi hj
  exact htags i j (hi.1.trans hj.1.symm)

/-- The theorem for a load from RAM with no probe in MEM. -/
theorem tlb_right_reset : Mmu.reset.TlbRight ⟨.exNOP, 0, 0, 0⟩ 0x00080010 :=
  (tlb_right_iff reset_unique).mpr nofun

/-- With a probe in MEM, and 0 in EntryHi, the same load is looked up in the first page of
ROM. -/
theorem tlb_not_right : ¬∀ (m : Mmu) (a : Access) (vAddr : Word), m.Unique → m.TlbRight a vAddr := by
  intro hall
  have hppn := (hall Mmu.reset ⟨.exTLBP, 0, 0, 0⟩ 0x00080010 reset_unique).lookup.ppn 4 (by decide)
  revert hppn
  decide

end Xinu.Tlb
