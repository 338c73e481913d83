import XinuCMips.Uart.Device
import Mathlib.Data.List.Basic

/-!
# Octets that the CPU reads

The receive interface over a whole run: octets come in from the line, and the CPU reads
the receive register and the status register whenever it likes. Octets are counted in
the order in which they come in.

* `Received`              — no octet is lost without a word, and none is read twice;
* `Careful`               — the reads of one cycle that do no harm;
* `received_without_slip` — **in a run of such cycles nothing is lost silently.**

A read does harm while the octet is still being copied (`rx_bfr_full` is up one cycle
before the register has it), in the cycle in which the next octet is complete and in the
one after it (the overrun bit is not set, or the buffer stays full), and when it clears
an overrun that no read of the status register has shown.
-/

namespace Xinu.Serial

/-- What happens in one cycle: the select lines, the data, the line, and the bits that the
receiver does not look at. -/
structure Cycle extends Inputs where
  sStat : Bool
  sIntrd : Bool
  rxdat : Bool
  cts : Bool
  interr : BitVec 2
  interrTXempty : Bool
  interrRXfull : Bool

/-- `rx_bfr_full`. -/
def RxcpuState.bfrFull : RxcpuState → Bool
  | stIdle => false
  | _ => true

/-- `status`. -/
def Uart.status (i : Cycle) (u : Uart) : Octet :=
  BitVec.ofBool i.cts ++ BitVec.ofBool u.txcpu.bfrEmpt ++ BitVec.ofBool u.rxcpu.bfrFull ++
    BitVec.ofBool i.interrTXempty ++ BitVec.ofBool i.interrRXfull ++
    0#1 ++ BitVec.ofBool u.errFraming ++ BitVec.ofBool u.errOverrun

/-- `d_out`. -/
def Uart.dOut (i : Cycle) (u : Uart) : BitVec 32 :=
  if i.sRx then 0#24 ++ u.received
  else if i.sStat then 0#24 ++ u.status i
  else if i.sIntrd then 0#28 ++ 0#2 ++ i.interr
  else 0#24 ++ u.ctrl

-- ---------------------------------------------------------------------------
-- A run, and what is known of its octets
-- ---------------------------------------------------------------------------

section Runs

variable (ins : Nat → Cycle)

/-- The UART in each cycle after `rst`. -/
def running : Nat → Uart
  | 0 => .reset
  | n + 1 => (running n).step (ins n).toInputs (ins n).rxdat

/-- The octets that were complete before cycle `n`. -/
def octets : Nat → List Octet
  | 0 => []
  | n + 1 => octets n ++ if (running ins n).rx.done then [(running ins n).rxreg] else []

/-- The number of the octet in the receive register. -/
def held : Nat → Option Nat
  | 0 => none
  | n + 1 => if (running ins n).rxcpu.ld then some ((octets ins n).length - 1) else held n

/-- The CPU reads the receive register while the status shows that the buffer is full. -/
def Reads (n : Nat) : Prop :=
  (ins n).sRx = true ∧ ((running ins n).status (ins n)).getLsbD 5 = true

/-- The CPU reads the status register and sees an overrun. -/
def SeesOverrun (n : Nat) : Prop :=
  (ins n).sRx = false ∧ (ins n).sStat = true ∧
    ((running ins n).dOut (ins n)).getLsbD 0 = true

instance (n : Nat) : Decidable (Reads ins n) := by
  unfold Reads
  infer_instance

instance (n : Nat) : Decidable (SeesOverrun ins n) := by
  unfold SeesOverrun
  infer_instance

/-- How often octet `k` was read before cycle `n`. -/
def returns (k : Nat) : Nat → Nat
  | 0 => 0
  | n + 1 => returns k n + if Reads ins n ∧ held ins n = some k then 1 else 0

/-- An octet is complete while the one before it has not been read: it is lost. -/
def Loses (n : Nat) : Prop := (running ins n).rxcpu = .stCheck ∧ (running ins n).rx.done = true

instance (n : Nat) : Decidable (Loses ins n) := by
  unfold Loses
  infer_instance

/-- The overrun was seen since the last octet was lost. -/
def seen : Nat → Bool
  | 0 => false
  | n + 1 => if Loses ins n then false else seen n || decide (SeesOverrun ins n)

/-- Octet `k` is what the next read returns, from this cycle or the next one on. -/
def Waiting (k n : Nat) : Prop :=
  (running ins n).rxcpu = .stCopy ∧ k + 1 = (octets ins n).length ∨
    ((running ins n).rxcpu = .stCheck ∨ (running ins n).rxcpu = .stError) ∧ held ins n = some k

/-- An overrun was seen after octet `k` had come in. -/
def OverrunSeen (k n : Nat) : Prop :=
  ∃ m, m < n ∧ k < (octets ins m).length ∧ SeesOverrun ins m

/-- The overrun bit is set, or will be in the next cycle. -/
def OverrunStands (n : Nat) : Prop :=
  (running ins n).errOverrun = true ∨ (running ins n).rxcpu = .stError

/-- What the receive interface owes to the CPU in the first `n` cycles. -/
structure Received (n : Nat) : Prop where
  /-- a read that finds the buffer full returns an octet that came in -/
  data : ∀ m, m < n → Reads ins m → ∃ k b, held ins m = some k ∧ (octets ins m)[k]? = some b ∧
    (running ins m).dOut (ins m) = 0#24 ++ b
  /-- no octet is returned twice -/
  once : ∀ k, returns ins k n ≤ 1
  /-- each octet was read, waits, or its loss was told or is about to be -/
  kept : ∀ k, k < (octets ins n).length →
    returns ins k n = 1 ∨ Waiting ins k n ∨ OverrunSeen ins k n ∨ OverrunStands ins n

/-- A read of the receive register, if there is one, does no harm. -/
def Careful (n : Nat) : Prop :=
  (ins n).sRx = true →
    (running ins n).rxcpu ≠ .stCopy ∧ (running ins n).rxcpu ≠ .stError ∧ ¬Loses ins n ∧
      ((running ins n).errOverrun = true → seen ins n = true)

instance (n : Nat) : Decidable (Careful ins n) := by
  unfold Careful
  infer_instance

end Runs

-- ---------------------------------------------------------------------------
-- One cycle
-- ---------------------------------------------------------------------------

variable {ins : Nat → Cycle} {n k : Nat}

theorem status_full (i : Cycle) (u : Uart) : (u.status i).getLsbD 5 = u.rxcpu.bfrFull := by
  have hbit : ∀ a b c d e f g : Bool, (BitVec.ofBool a ++ BitVec.ofBool b ++ BitVec.ofBool c ++
      BitVec.ofBool d ++ BitVec.ofBool e ++ 0#1 ++ BitVec.ofBool f ++ BitVec.ofBool g).getLsbD 5 =
        c := by
    decide
  exact hbit ..

theorem rxcpu_succ : (running ins (n + 1)).rxcpu =
    (running ins n).rxcpu.next (running ins n).rx.done (ins n).sRx := rfl

theorem errOverrun_succ : (running ins (n + 1)).errOverrun =
    (((running ins n).rxcpu.overrun || (running ins n).errOverrun) && !(ins n).sRx) := rfl

theorem received_succ : (running ins (n + 1)).received =
    if (running ins n).rxcpu.ld then (running ins n).rxreg else (running ins n).received := rfl

theorem done_iff {s : RxState} : s.done = true ↔ s = .stDone := by
  cases s <;> decide

/-- The octet that is complete stays in the shift register, and the line is idle then. -/
theorem after_done (h : (running ins n).rx.done = true) :
    (running ins (n + 1)).rx = .stIdle ∧ (running ins (n + 1)).rxreg = (running ins n).rxreg := by
  have hrx := done_iff.mp h
  refine ⟨?_, ?_⟩
  · show (running ins n).rx.next _ _ _ = .stIdle
    rw [hrx]
    rfl
  · have hnext : (running ins n).rxNext = false := by
      unfold Uart.rxNext
      rw [hrx]
      rfl
    show (if (running ins n).rxNext then _ else (running ins n).staRecvSto).extractLsb' 1 8 = _
    rw [hnext]
    rfl

theorem octets_of_not_done (h : (running ins n).rx.done = false) :
    octets ins (n + 1) = octets ins n := by
  rw [octets, h]
  exact List.append_nil _

theorem octets_of_done (h : (running ins n).rx.done = true) :
    octets ins (n + 1) = octets ins n ++ [(running ins n).rxreg] := by
  rw [octets, if_pos h]

theorem length_octets_le : (octets ins n).length ≤ (octets ins (n + 1)).length := by
  rw [octets, List.length_append]
  exact Nat.le_add_right _ _

theorem returns_of_not_read (h : ¬Reads ins n) : returns ins k (n + 1) = returns ins k n := by
  rw [returns, if_neg fun hr => h hr.1]
  rfl

/-- What was seen stays seen. -/
theorem OverrunSeen.succ (h : OverrunSeen ins k n) : OverrunSeen ins k (n + 1) := by
  obtain ⟨m, hm, hk, hsees⟩ := h
  exact ⟨m, Nat.lt_succ_of_lt hm, hk, hsees⟩

/-- What a run keeps, as long as its reads do no harm. -/
structure Keeps (ins : Nat → Cycle) (n : Nat) : Prop extends Received ins n where
  /-- octets are far apart -/
  apart : (running ins n).rxcpu = .stCopy ∨ (running ins n).rxcpu = .stError →
    (running ins n).rx = .stIdle
  copied : (running ins n).rxcpu = .stCopy →
    (octets ins n)[(octets ins n).length - 1]? = some (running ins n).rxreg
  holds : (running ins n).rxcpu = .stCheck ∨ (running ins n).rxcpu = .stError →
    ∃ k, held ins n = some k
  holding : ∀ k, held ins n = some k → (octets ins n)[k]? = some (running ins n).received
  waits : ∀ k, Waiting ins k n → returns ins k n = 0
  fresh : ∀ k, (octets ins n).length ≤ k → returns ins k n = 0
  /-- an octet that was lost, and not told of yet -/
  told : ∀ k, k < (octets ins n).length →
    returns ins k n = 1 ∨ Waiting ins k n ∨ OverrunSeen ins k n ∨
      seen ins n = false ∧ OverrunStands ins n

theorem keeps_reset (ins : Nat → Cycle) : Keeps ins 0 where
  data := nofun
  once _ := Nat.zero_le 1
  kept _ hk := absurd hk (Nat.not_lt_zero _)
  apart := fun h => h.elim nofun nofun
  copied := nofun
  holds := fun h => h.elim nofun nofun
  holding := nofun
  waits _ _ := rfl
  fresh _ _ := rfl
  told _ hk := absurd hk (Nat.not_lt_zero _)

/-- A read that finds the buffer full and does no harm is of the octet that waits, and the
last one of it. -/
theorem Keeps.reads (h : Keeps ins n) (hcare : Careful ins n) (hr : Reads ins n) :
    (running ins n).rxcpu = .stCheck ∧ (running ins n).rx.done = false ∧
      (running ins (n + 1)).rxcpu = .stIdle ∧
      ∃ k b, held ins n = some k ∧ (octets ins n)[k]? = some b ∧
        (running ins n).dOut (ins n) = 0#24 ++ b := by
  obtain ⟨hsrx, hfull⟩ := hr
  rw [status_full] at hfull
  obtain ⟨hcopy, herror, hloses, -⟩ := hcare hsrx
  have hcheck : (running ins n).rxcpu = .stCheck := by
    cases hst : (running ins n).rxcpu with
    | stIdle =>
      rw [hst] at hfull
      cases hfull
    | stCopy => exact absurd hst hcopy
    | stCheck => rfl
    | stError => exact absurd hst herror
  have hdone : (running ins n).rx.done = false :=
    Bool.eq_false_iff.mpr fun hd => hloses ⟨hcheck, hd⟩
  refine ⟨hcheck, hdone, ?_, ?_⟩
  · rw [rxcpu_succ, hcheck, hdone, hsrx]
    rfl
  · obtain ⟨k, hk⟩ := h.holds (Or.inl hcheck)
    refine ⟨k, _, hk, h.holding k hk, ?_⟩
    unfold Uart.dOut
    rw [if_pos hsrx]

theorem held_of_copy (h : (running ins n).rxcpu = .stCopy) :
    held ins (n + 1) = some ((octets ins n).length - 1) := by
  rw [held, h]
  rfl

theorem held_of_not_copy (h : (running ins n).rxcpu ≠ .stCopy) :
    held ins (n + 1) = held ins n ∧ (running ins (n + 1)).received = (running ins n).received := by
  have hld : (running ins n).rxcpu.ld = false := by
    cases hst : (running ins n).rxcpu <;> first | rfl | exact absurd hst h
  rw [held, received_succ, hld]
  exact ⟨rfl, rfl⟩

theorem octets_getElem? {b : Octet} (h : (octets ins n)[k]? = some b) :
    (octets ins (n + 1))[k]? = some b := by
  rw [octets, List.getElem?_append_left (List.getElem?_eq_some_iff.mp h).1, h]

/-- What the interface does in a cycle whose read does no harm. -/
inductive Move (ins : Nat → Cycle) (n : Nat) : Prop
  | rests (hst : (running ins n).rxcpu = .stIdle) (hdone : (running ins n).rx.done = false)
      (hnext : (running ins (n + 1)).rxcpu = .stIdle)
  | arrives (hst : (running ins n).rxcpu = .stIdle) (hdone : (running ins n).rx.done = true)
      (hnext : (running ins (n + 1)).rxcpu = .stCopy)
  | copies (hst : (running ins n).rxcpu = .stCopy) (hdone : (running ins n).rx.done = false)
      (hsrx : (ins n).sRx = false) (hnext : (running ins (n + 1)).rxcpu = .stCheck)
  | loses (hst : (running ins n).rxcpu = .stCheck) (hdone : (running ins n).rx.done = true)
      (hsrx : (ins n).sRx = false) (hnext : (running ins (n + 1)).rxcpu = .stError)
  | gives (hst : (running ins n).rxcpu = .stCheck) (hdone : (running ins n).rx.done = false)
      (hsrx : (ins n).sRx = true) (hnext : (running ins (n + 1)).rxcpu = .stIdle)
  | keeps (hst : (running ins n).rxcpu = .stCheck ∨ (running ins n).rxcpu = .stError)
      (hdone : (running ins n).rx.done = false) (hsrx : (ins n).sRx = false)
      (hnext : (running ins (n + 1)).rxcpu = .stCheck)

theorem Keeps.move (h : Keeps ins n) (hcare : Careful ins n) : Move ins n := by
  have hnext := @rxcpu_succ ins n
  -- no octet is complete right after the last one
  have hapart : (running ins n).rxcpu = .stCopy ∨ (running ins n).rxcpu = .stError →
      (running ins n).rx.done = false := fun hst => by
    rw [h.apart hst]
    rfl
  have hquiet : (running ins n).rxcpu = .stCopy ∨ (running ins n).rxcpu = .stError ∨
      Loses ins n → (ins n).sRx = false := by
    intro hst
    refine Bool.eq_false_iff.mpr fun hsrx => ?_
    obtain ⟨hcopy, herror, hloses, -⟩ := hcare hsrx
    rcases hst with hst | hst | hst
    · exact hcopy hst
    · exact herror hst
    · exact hloses hst
  cases hst : (running ins n).rxcpu with
  | stIdle =>
    rw [hst] at hnext
    cases hdone : (running ins n).rx.done with
    | false =>
      rw [hdone] at hnext
      exact .rests hst hdone hnext
    | true =>
      rw [hdone] at hnext
      exact .arrives hst hdone hnext
  | stCopy =>
    rw [hst] at hnext
    exact .copies hst (hapart (Or.inl hst)) (hquiet (Or.inl hst)) hnext
  | stCheck =>
    rw [hst] at hnext
    cases hdone : (running ins n).rx.done with
    | true =>
      rw [hdone] at hnext
      exact .loses hst hdone (hquiet (Or.inr (Or.inr ⟨hst, hdone⟩))) hnext
    | false =>
      rw [hdone] at hnext
      cases hsrx : (ins n).sRx with
      | true =>
        rw [hsrx] at hnext
        exact .gives hst hdone hsrx hnext
      | false =>
        rw [hsrx] at hnext
        exact .keeps (Or.inl hst) hdone hsrx hnext
  | stError =>
    rw [hst] at hnext
    exact .keeps (Or.inr hst) (hapart (Or.inr hst)) (hquiet (Or.inr (Or.inl hst))) hnext

/-- An octet that is read was not read before. -/
theorem Keeps.returns_succ (h : Keeps ins n) (hcare : Careful ins n) (k : Nat) :
    Reads ins n ∧ held ins n = some k ∧ returns ins k n = 0 ∧ returns ins k (n + 1) = 1 ∨
      returns ins k (n + 1) = returns ins k n := by
  by_cases hr : Reads ins n ∧ held ins n = some k
  · have hzero := h.waits k (Or.inr ⟨Or.inl (h.reads hcare hr.1).1, hr.2⟩)
    refine Or.inl ⟨hr.1, hr.2, hzero, ?_⟩
    rw [returns, if_pos hr, hzero]
  · refine Or.inr ?_
    rw [returns, if_neg hr]
    rfl

/-- An octet that waits goes on waiting, or is read. -/
theorem Keeps.waiting_succ (h : Keeps ins n) (hcare : Careful ins n) (hw : Waiting ins k n) :
    returns ins k (n + 1) = 1 ∨ Waiting ins k (n + 1) := by
  rcases hw with ⟨hst, hk⟩ | ⟨hst, hk⟩
  · -- it is copied into the receive register
    have hheld := held_of_copy hst
    cases h.move hcare with
    | copies _ _ _ hnext =>
      refine Or.inr (Or.inr ⟨Or.inl hnext, ?_⟩)
      rw [hheld, ← hk, Nat.add_sub_cancel]
    | _ => simp_all
  · have hheld := (@held_of_not_copy ins n (by rcases hst with h | h <;> simp [h])).1
    cases h.move hcare with
    | loses _ _ _ hnext => exact Or.inr (Or.inr ⟨Or.inr hnext, hheld.trans hk⟩)
    | gives hcheck hdone hsrx =>
      have hr : Reads ins n := ⟨hsrx, by rw [status_full, hcheck]; rfl⟩
      rcases h.returns_succ hcare k with ⟨-, -, -, hone⟩ | heq
      · exact Or.inl hone
      · rw [returns, if_pos ⟨hr, hk⟩] at heq
        omega
    | keeps _ _ _ hnext => exact Or.inr (Or.inr ⟨Or.inl hnext, hheld.trans hk⟩)
    | _ => simp_all

/-- What waits has waited, or has just come in. -/
theorem Keeps.waiting_pred (h : Keeps ins n) (hcare : Careful ins n)
    (hw : Waiting ins k (n + 1)) :
    ¬Reads ins n ∧ (Waiting ins k n ∨ (octets ins n).length = k) := by
  have hr : Reads ins n → False := by
    intro hr
    have hidle := (h.reads hcare hr).2.2.1
    rcases hw with ⟨hst, -⟩ | ⟨hst, -⟩
    · rw [hidle] at hst
      cases hst
    · rw [hidle] at hst
      rcases hst with hst | hst <;> cases hst
  refine ⟨hr, ?_⟩
  rcases hw with ⟨hst, hk⟩ | ⟨hst, hk⟩
  · cases h.move hcare with
    | arrives _ hdone =>
      rw [octets_of_done hdone, List.length_append, List.length_singleton] at hk
      exact Or.inr (Nat.succ.inj hk).symm
    | _ => simp_all
  · cases h.move hcare with
    | copies hcopy hdone =>
      have hlast := h.copied hcopy
      have hlt := (List.getElem?_eq_some_iff.mp hlast).1
      rw [held_of_copy hcopy] at hk
      have hk := Option.some.inj hk
      exact Or.inl (Or.inl ⟨hcopy, by omega⟩)
    | loses hcheck =>
      rw [(held_of_not_copy (by simp [hcheck])).1] at hk
      exact Or.inl (Or.inr ⟨Or.inl hcheck, hk⟩)
    | keeps hbusy =>
      rw [(held_of_not_copy (by rcases hbusy with h | h <;> simp [h])).1] at hk
      exact Or.inl (Or.inr ⟨hbusy, hk⟩)
    | _ => simp_all

/-- The news of a lost octet stay until they are told. -/
theorem told_succ (hcare : Careful ins n)
    (hk : k < (octets ins n).length) (hseen : seen ins n = false) (hs : OverrunStands ins n) :
    OverrunSeen ins k (n + 1) ∨ seen ins (n + 1) = false ∧ OverrunStands ins (n + 1) := by
  by_cases hsees : SeesOverrun ins n
  · exact Or.inl ⟨n, Nat.lt_succ_self n, hk, hsees⟩
  · refine Or.inr ⟨?_, Or.inl ?_⟩
    · rw [seen, hseen, decide_eq_false hsees]
      split <;> rfl
    · -- a read that clears the bit would do harm
      have hsrx : (ins n).sRx = false := by
        refine Bool.eq_false_iff.mpr fun hsrx => ?_
        obtain ⟨-, herror, -, hclear⟩ := hcare hsrx
        rcases hs with hs | hs
        · rw [hclear hs] at hseen
          cases hseen
        · exact herror hs
      rw [errOverrun_succ, hsrx]
      rcases hs with hs | hs
      · rw [hs, Bool.or_true]
        rfl
      · rw [hs]
        rfl

/-- An octet that comes in waits, or is lost, and then the overrun is to be told. -/
theorem Keeps.told_new (h : Keeps ins n) (hcare : Careful ins n)
    (hk : k < (octets ins (n + 1)).length) (hnew : (octets ins n).length ≤ k) :
    Waiting ins k (n + 1) ∨ seen ins (n + 1) = false ∧ OverrunStands ins (n + 1) := by
  have hdone : (running ins n).rx.done = true := by
    refine Bool.not_eq_false _ ▸ fun hdone => ?_
    rw [octets_of_not_done hdone] at hk
    omega
  cases h.move hcare with
  | arrives _ _ hnext =>
    refine Or.inl (Or.inl ⟨hnext, ?_⟩)
    rw [octets_of_done hdone, List.length_append, List.length_singleton] at hk ⊢
    omega
  | loses hst _ _ hnext =>
    refine Or.inr ⟨?_, Or.inr hnext⟩
    rw [seen, if_pos ⟨hst, hdone⟩]
  | _ => simp_all

/-- The receive register holds the octet it is said to hold. -/
theorem Keeps.holding_succ (h : Keeps ins n) (hk : held ins (n + 1) = some k) :
    (octets ins (n + 1))[k]? = some (running ins (n + 1)).received := by
  by_cases hst : (running ins n).rxcpu = .stCopy
  · rw [held_of_copy hst] at hk
    have hrec : (running ins (n + 1)).received = (running ins n).rxreg := by
      rw [received_succ, hst]
      rfl
    rw [hrec, ← Option.some.inj hk]
    exact octets_getElem? (h.copied hst)
  · obtain ⟨hheld, hrec⟩ := held_of_not_copy hst
    rw [hrec]
    exact octets_getElem? (h.holding k (hheld ▸ hk))

/-- Whatever the interface goes to with an octet, the octet is there. -/
theorem Keeps.buffer_succ (h : Keeps ins n) (hcare : Careful ins n) :
    ((running ins (n + 1)).rxcpu = .stCopy ∨ (running ins (n + 1)).rxcpu = .stError →
      (running ins (n + 1)).rx = .stIdle) ∧
    ((running ins (n + 1)).rxcpu = .stCopy →
      (octets ins (n + 1))[(octets ins (n + 1)).length - 1]? = some (running ins (n + 1)).rxreg) ∧
    ((running ins (n + 1)).rxcpu = .stCheck ∨ (running ins (n + 1)).rxcpu = .stError →
      ∃ k, held ins (n + 1) = some k) := by
  cases h.move hcare with
  | rests _ _ hnext | gives _ _ _ hnext =>
    rw [hnext]
    exact ⟨fun h => h.elim nofun nofun, nofun, fun h => h.elim nofun nofun⟩
  | arrives _ hdone hnext =>
    obtain ⟨hidle, hreg⟩ := after_done hdone
    refine ⟨fun _ => hidle, fun _ => ?_, ?_⟩
    · rw [hreg, octets_of_done hdone, List.length_append, List.length_singleton,
        Nat.add_sub_cancel, List.getElem?_concat_length]
    · rw [hnext]
      exact fun h => h.elim nofun nofun
  | copies hst _ _ hnext =>
    rw [hnext]
    exact ⟨fun h => h.elim nofun nofun, nofun, fun _ => ⟨_, held_of_copy hst⟩⟩
  | loses hst hdone _ hnext =>
    refine ⟨fun _ => (after_done hdone).1, ?_, fun _ => ?_⟩
    · rw [hnext]
      exact nofun
    · rw [(held_of_not_copy (by simp [hst])).1]
      exact h.holds (Or.inl hst)
  | keeps hst _ _ hnext =>
    refine ⟨?_, ?_, fun _ => ?_⟩
    · rw [hnext]
      exact fun h => h.elim nofun nofun
    · rw [hnext]
      exact nofun
    · rw [(held_of_not_copy (by rcases hst with h | h <;> simp [h])).1]
      exact h.holds hst

/-- **One cycle keeps it** if its read does no harm. -/
theorem Keeps.step (h : Keeps ins n) (hcare : Careful ins n) : Keeps ins (n + 1) := by
  obtain ⟨hapart, hcopied, hholds⟩ := h.buffer_succ hcare
  have htold : ∀ k, k < (octets ins (n + 1)).length →
      returns ins k (n + 1) = 1 ∨ Waiting ins k (n + 1) ∨ OverrunSeen ins k (n + 1) ∨
        seen ins (n + 1) = false ∧ OverrunStands ins (n + 1) := by
    intro k hk
    rcases Nat.lt_or_ge k (octets ins n).length with hlt | hge
    · rcases h.told k hlt with hret | hw | hseen | ⟨hseen, hs⟩
      · rcases h.returns_succ hcare k with ⟨-, -, hzero, -⟩ | heq
        · omega
        · exact Or.inl (heq.trans hret)
      · exact (h.waiting_succ hcare hw).imp_right Or.inl
      · exact Or.inr (Or.inr (Or.inl hseen.succ))
      · exact Or.inr (Or.inr (told_succ hcare hlt hseen hs))
    · rcases h.told_new hcare hk hge with hw | hs
      · exact Or.inr (Or.inl hw)
      · exact Or.inr (Or.inr (Or.inr hs))
  refine ⟨⟨fun m hm hr => ?_, fun k => ?_, fun k hk => ?_⟩, hapart, hcopied, hholds,
    fun k hk => h.holding_succ hk, fun k hw => ?_, fun k hk => ?_, htold⟩
  · -- what this cycle's read returns
    rcases Nat.lt_succ_iff_lt_or_eq.mp hm with hm | rfl
    · exact h.data m hm hr
    · exact (h.reads hcare hr).2.2.2
  · rcases h.returns_succ hcare k with ⟨-, -, -, hone⟩ | heq
    · exact Nat.le_of_eq hone
    · rw [heq]
      exact h.once k
  · exact (htold k hk).imp_right (Or.imp_right (Or.imp_right And.right))
  · obtain ⟨hr, hw⟩ := h.waiting_pred hcare hw
    rw [returns_of_not_read hr]
    rcases hw with hw | hnew
    · exact h.waits k hw
    · exact h.fresh k (Nat.le_of_eq hnew)
  · have hle := Nat.le_trans (@length_octets_le ins n) hk
    rcases h.returns_succ hcare k with ⟨-, hheld, -, -⟩ | heq
    · have := (List.getElem?_eq_some_iff.mp (h.holding k hheld)).1
      omega
    · rw [heq]
      exact h.fresh k hle

/-- **Nothing is lost silently** in a run whose reads do no harm: every octet that came in
was returned by one read with the buffer full, or waits for it, or an overrun was seen
after it or is about to be; and no octet is returned twice. -/
theorem received_without_slip (h : ∀ m, m < n → Careful ins m) : Received ins n := by
  have hkeeps : ∀ m, m ≤ n → Keeps ins m := by
    intro m
    induction m with
    | zero => exact fun _ => keeps_reset ins
    | succ m ih => exact fun hm => (ih (Nat.le_of_succ_le hm)).step (h m hm)
  exact (hkeeps n (Nat.le_refl n)).toReceived

/-- With nothing in the interface and no overrun to tell, each octet was read exactly once,
or an overrun was seen after it. -/
theorem Received.settled (h : Received ins n) (hst : (running ins n).rxcpu = .stIdle)
    (herr : (running ins n).errOverrun = false) (hk : k < (octets ins n).length) :
    returns ins k n = 1 ∨ OverrunSeen ins k n := by
  rcases h.kept k hk with hret | hw | hseen | hs
  · exact Or.inl hret
  · rcases hw with ⟨hcopy, -⟩ | ⟨hfull, -⟩ <;> simp_all
  · exact Or.inr hseen
  · rcases hs with hs | hs <;> simp_all

/-- The line with these octets on it, eleven symbols of eight cycles for each. -/
def lineOf (l : List Octet) (n : Nat) : Bool :=
  match l[n / 88]? with
  | none => true
  | some b => (3#2 ++ b ++ 0#1).getLsbD (n % 88 / 8)

/-- Two octets come in from cycle 4 on. The receive register is read in cycle `r`, and the
status register in all the others. -/
def readIn (r n : Nat) : Cycle :=
  { sCtrlwr := n == 0, sTx := false, sRx := n == r, dInp := 1, sStat := true, sIntrd := false,
    rxdat := n < 4 || lineOf [0x41, 0x42] (n - 4), cts := true, interr := 0,
    interrTXempty := false, interrRXfull := false }

/-- The theorem for the first octet, read three cycles after it was complete. -/
theorem received_first : Received (readIn 90) 92 ∧ returns (readIn 90) 0 92 = 1 :=
  ⟨received_without_slip (by decide +kernel), by decide +kernel⟩

/-- The second octet is complete in cycle 175, with the first one not read. The read of the
first one in cycle 176 clears the overrun before it is set: the octet is lost, and no read
of the status register shows it. -/
theorem not_received : ¬∀ (ins : Nat → Cycle) (n : Nat), Received ins n := by
  intro hall
  have hkept := (hall (readIn 176) 178).kept 1
  revert hkept
  unfold Waiting OverrunSeen OverrunStands
  decide +kernel

end Xinu.Serial
