import XinuCMips.Uart.Device
import Mathlib.Data.List.Infix

/-!
# Frames on the line

How the transmitter puts an octet on the line and how the receiver takes it off, each
with its own baud-rate counter. The divider is `2 * h`: a bit lasts `4 * h` cycles.

* `Ticks`     — where in a bit the counter and its clock stand;
* `Sending`   — the transmitter is `p` cycles into symbol `s` of a frame;
* `Receiving` — the receiver is `q` cycles into its state `j`, and has sampled a part of
  the frame.
-/

namespace Xinu.Serial

-- ---------------------------------------------------------------------------
-- The bits of a frame
-- ---------------------------------------------------------------------------

/-- The start bit, the octet, and stop bits for ever. -/
def framed (b : Octet) (k : Nat) : Bool := (1#1 ++ b ++ 0#1 : BitVec 10).getLsbD k || decide (10 ≤ k)

theorem framed_start (b : Octet) : framed b 0 = false := by
  rw [framed, BitVec.getLsbD_append]
  rfl

theorem framed_stop (b : Octet) {k : Nat} (h : 9 ≤ k) : framed b k = true := by
  rcases Nat.lt_or_ge k 10 with hk | hk
  · have hk9 : k = 9 := by omega
    subst hk9
    rw [framed, BitVec.getLsbD_append, BitVec.getLsbD_append]
    rfl
  · rw [framed, decide_eq_true hk, Bool.or_true]

theorem getLsbD_shiftIn (c : Bool) (w : BitVec 10) (k : Nat) :
    (shiftIn c w).getLsbD k = if k < 9 then w.getLsbD (k + 1) else decide (k = 9) && c := by
  simp only [shiftIn, BitVec.getLsbD_append, BitVec.getLsbD_extractLsb', BitVec.getLsbD_ofBool]
  by_cases hk : k < 9
  · rw [if_pos hk, if_pos hk, decide_eq_true hk, Bool.true_and, Nat.add_comm]
  · rw [if_neg hk, if_neg hk]
    congr 1
    rw [decide_eq_decide]
    omega

/-- The octet of a complete frame. -/
theorem extract_framed {b : Octet} {w : BitVec 10} (h : ∀ k < 10, w.getLsbD k = framed b k) :
    w.extractLsb' 1 8 = b := by
  refine BitVec.eq_of_getLsbD_eq fun k hk => ?_
  rw [BitVec.getLsbD_extractLsb', decide_eq_true hk, Bool.true_and, h _ (by omega), framed,
    decide_eq_false (by omega), Bool.or_false, BitVec.getLsbD_append, BitVec.getLsbD_append]
  rw [if_neg (by omega), if_pos (by omega)]
  congr 1
  omega

-- ---------------------------------------------------------------------------
-- Baud-rate counters
-- ---------------------------------------------------------------------------

/-- The counter is `p` cycles into a bit, whose first half has the clock at `level`. A
bit begins one cycle after the edge that starts it. -/
structure Ticks (h : Nat) (level clk : Bool) (cnt p : Nat) : Prop where
  inside : p < 4 * h
  phase : (clk = level ∧ cnt = p + 2 ∧ cnt ≤ 2 * h) ∨
    (clk = !level ∧ cnt + 2 * h = p + 2 ∧ 1 ≤ cnt ∧ cnt ≤ 2 * h) ∨
    (clk = level ∧ cnt = 1 ∧ p + 1 = 4 * h)

namespace Ticks

variable {h cnt p : Nat} {level clk : Bool}

/-- The counter reaches the divider twice in a bit. -/
theorem ends_iff (t : Ticks h level clk cnt p) :
    cnt = 2 * h ↔ (p + 2 = 2 * h ∧ clk = level) ∨ (p + 2 = 4 * h ∧ clk = !level) := by
  have hp := t.inside
  have hne : ∀ b : Bool, b ≠ !b := by decide
  rcases t.phase with ⟨rfl, hc, hle⟩ | ⟨rfl, hc, h1, hle⟩ | ⟨rfl, hc, hp1⟩
  · have := hne clk
    simp only [and_true, this, and_false, or_false]
    omega
  · have := (hne level).symm
    simp only [and_true, this, and_false, false_or]
    omega
  · have := hne clk
    simp only [and_true, this, and_false, or_false]
    omega

/-- Elsewhere no edge follows. -/
theorem not_ends (t : Ticks h level clk cnt p) (he : cnt ≠ 2 * h) :
    p + 2 ≠ 2 * h ∧ p + 2 ≠ 4 * h := by
  have hp := t.inside
  rcases t.phase with ⟨_, hc, hle⟩ | ⟨_, hc, h1, hle⟩ | ⟨_, hc, hp1⟩ <;> omega

/-- One cycle of the counter. -/
theorem next (hh : 2 ≤ h) (t : Ticks h level clk cnt p) :
    Ticks h level (if cnt = 2 * h then !clk else clk) (if cnt = 2 * h then 1 else cnt + 1)
      (if p + 1 = 4 * h then 0 else p + 1) := by
  have hends := t.ends_iff
  obtain ⟨hp, hphase⟩ := t
  refine ⟨by split <;> omega, ?_⟩
  rcases hphase with ⟨rfl, hc, hle⟩ | ⟨rfl, hc, h1, hle⟩ | ⟨rfl, hc, hp1⟩
  · -- in the first half
    rw [if_neg (by omega : p + 1 ≠ 4 * h)]
    by_cases he : cnt = 2 * h
    · rw [if_pos he, if_pos he]
      exact Or.inr (Or.inl ⟨rfl, by omega, by omega, by omega⟩)
    · rw [if_neg he, if_neg he]
      exact Or.inl ⟨rfl, by omega, by omega⟩
  · -- in the second half
    rw [if_neg (by omega : p + 1 ≠ 4 * h)]
    by_cases he : cnt = 2 * h
    · rw [if_pos he, if_pos he, Bool.not_not]
      exact Or.inr (Or.inr ⟨rfl, rfl, by omega⟩)
    · rw [if_neg he, if_neg he]
      exact Or.inr (Or.inl ⟨rfl, by omega, by omega, by omega⟩)
  · -- the next bit begins
    rw [if_pos hp1, if_neg (by omega : cnt ≠ 2 * h), if_neg (by omega : cnt ≠ 2 * h)]
    exact Or.inl ⟨rfl, by omega, by omega⟩

end Ticks

-- ---------------------------------------------------------------------------
-- The transmitter
-- ---------------------------------------------------------------------------

/-- The state of the transmitter in symbol `s`: before the start bit, the start bit,
the octet and the stop bit. -/
def txAt : Nat → TxState
  | 0 => .stStart
  | 1 => .stB0
  | 2 => .stB1
  | 3 => .stB2
  | 4 => .stB3
  | 5 => .stB4
  | 6 => .stB5
  | 7 => .stB6
  | 8 => .stB7
  | 9 => .stStop
  | _ => .stEnd

/-- The transmitter is `p` cycles into symbol `s` of the frame of `b`. -/
structure Sending (h : Nat) (b : Octet) (s p : Nat) (u : Uart) : Prop where
  index : s ≤ 10
  begun : s = 0 → 2 * h ≤ p + 1
  state : u.tx = if s = 0 ∧ p + 1 = 2 * h then .stCheck else txAt s
  ticks : Ticks h true u.txclk u.txBaudCnt p
  rise : u.txclkRise = decide (p + 1 = 4 * h)
  word : ∀ k < 10, u.transmit.getLsbD k = framed b (s + k)
  line : u.txdat = if s = 0 then true else framed b (s - 1)

variable {h : Nat} {b : Octet} {s p j q : Nat} {u : Uart} {i : Inputs} {d : Bool}

theorem txAt_busy (s : Nat) : (txAt s).shift = true ∧ (txAt s).enClk = true ∧ txAt s ≠ .stIdle := by
  unfold txAt
  split <;> exact ⟨rfl, rfl, nofun⟩

theorem txAt_next : ∀ s < 10, (txAt s).next false true = txAt (s + 1) := by
  decide

theorem txAt_wait (s : Nat) : (txAt s).next false false = txAt s := by
  unfold txAt
  split <;> rfl

theorem Sending.enClk (hs : Sending h b s p u) : u.tx.enClk = true := by
  rw [hs.state]
  split
  · rfl
  · exact (txAt_busy s).2.1

theorem Sending.tx_ne_idle (hs : Sending h b s p u) : u.tx ≠ .stIdle := by
  rw [hs.state]
  split
  · exact nofun
  · exact (txAt_busy s).2.2

/-- The octet goes to the shift register. -/
theorem sending_load (hh : 2 ≤ h) (htx : u.tx = .stIdle) (hcpu : u.txcpu = .stDone)
    (hline : u.txdat = true) : Sending h u.txreg 0 (2 * h - 1) (u.step i d) := by
  have hld : u.txcpu.ld = true := by rw [hcpu]; rfl
  refine
    { index := by omega, begun := fun _ => by omega, state := ?_, ticks := ?_, rise := ?_,
      word := fun k hk => ?_, line := ?_ }
  · rw [if_pos ⟨rfl, by omega⟩]
    simp only [Uart.step, htx, hld, TxState.next, if_true]
  · simp only [Uart.step, hld, if_true]
    exact ⟨by omega, Or.inr (Or.inl ⟨rfl, by omega, by omega, by omega⟩)⟩
  · simp only [Uart.step, hld, if_true]
    rw [decide_eq_false (by omega)]
  · simp only [Uart.step, hld, if_true, Uart.staXmitSto]
    rw [framed, Nat.zero_add, decide_eq_false (by omega), Bool.or_false]
  · simp only [Uart.step, hld, Bool.not_true, Bool.false_and, if_true]
    exact hline

/-- The transmitter's counter in one cycle of a frame. -/
theorem Sending.ticks_step (hh : 2 ≤ h) (hdiv : u.baudDiv = 2 * h) (hld : u.txcpu.ld = false)
    (hs : Sending h b s p u) :
    Ticks h true (u.step i d).txclk (u.step i d).txBaudCnt
        (if p + 1 = 4 * h then 0 else p + 1) ∧
      (u.step i d).txclkRise = decide ((if p + 1 = 4 * h then 0 else p + 1) + 1 = 4 * h) := by
  have hends := hs.ticks.ends_iff
  have hnext := hs.ticks.next hh
  simp only [Uart.step, hld, hs.enClk, hdiv, Bool.true_and, beq_iff_eq, Bool.false_eq_true, if_false,
    if_true]
  refine ⟨hnext, ?_⟩
  by_cases he : u.txBaudCnt = 2 * h
  · rw [if_pos he]
    rcases hends.mp he with ⟨hp, hclk⟩ | ⟨hp, hclk⟩
    · rw [hclk, if_neg (by omega), decide_eq_false (by omega)]
      rfl
    · rw [hclk, if_neg (by omega), decide_eq_true (by omega)]
      rfl
  · rw [if_neg he]
    have hends' := hs.ticks.not_ends he
    refine (decide_eq_false ?_).symm
    split <;> omega

/-- The symbol stays on the line. -/
theorem Sending.wait (hh : 2 ≤ h) (hdiv : u.baudDiv = 2 * h) (hld : u.txcpu.ld = false)
    (hs : Sending h b s p u) (hp : p + 1 ≠ 4 * h) : Sending h b s (p + 1) (u.step i d) := by
  obtain ⟨hticks, hrise⟩ := hs.ticks_step (i := i) (d := d) hh hdiv hld
  rw [if_neg hp] at hticks hrise
  have hnorise : u.txclkRise = false := by rw [hs.rise, decide_eq_false hp]
  have hnoshift : u.txNext = false := by rw [Uart.txNext, hnorise, Bool.false_and]
  refine
    { index := hs.index, begun := fun h0 => by have := hs.begun h0; omega, state := ?_,
      ticks := hticks, rise := hrise, word := fun k hk => ?_, line := ?_ }
  · have hno : ¬(s = 0 ∧ p + 1 + 1 = 2 * h) := by
      rintro ⟨h0, hp'⟩
      have := hs.begun h0
      omega
    rw [if_neg hno]
    show u.tx.next u.txcpu.ld u.txclkRise = txAt s
    rw [hld, hnorise, hs.state]
    split
    · rw [(‹s = 0 ∧ _›).1]
      rfl
    · exact txAt_wait s
  · simp only [Uart.step, hld, hnoshift, Bool.false_eq_true, if_false]
    exact hs.word k hk
  · simp only [Uart.step, hnoshift, Bool.and_false, Bool.false_eq_true, if_false]
    exact hs.line

/-- What the edge after `txclk_rise` does, in any symbol. -/
theorem Sending.shifts (hld : u.txcpu.ld = false) (hs : Sending h b s p u)
    (hp : p + 1 = 4 * h) :
    (u.step i d).tx = (txAt s).next false true ∧ (u.step i d).txdat = framed b s ∧
      ∀ k < 10, (u.step i d).transmit.getLsbD k = framed b (s + 1 + k) := by
  have hrise : u.txclkRise = true := by rw [hs.rise, decide_eq_true hp]
  have hstate : u.tx = txAt s := by rw [hs.state, if_neg (by omega)]
  have hshift : u.txNext = true := by rw [Uart.txNext, hrise, hstate, (txAt_busy s).1]; rfl
  refine ⟨?_, ?_, fun k hk => ?_⟩
  · show u.tx.next u.txcpu.ld u.txclkRise = _
    rw [hld, hrise, hstate]
  · simp only [Uart.step, hld, hshift, Bool.not_false, Bool.and_true, if_true]
    exact hs.word 0 (by decide)
  · simp only [Uart.step, hld, hshift, Bool.false_eq_true, if_false, if_true]
    rw [getLsbD_shiftIn]
    by_cases hk9 : k < 9
    · rw [if_pos hk9, hs.word _ (by omega)]
      congr 1
      omega
    · rw [if_neg hk9, decide_eq_true (by omega), framed_stop b (by omega)]
      rfl

/-- The next symbol goes to the line. -/
theorem Sending.advance (hh : 2 ≤ h) (hdiv : u.baudDiv = 2 * h) (hld : u.txcpu.ld = false)
    (hs : Sending h b s p u) (hp : p + 1 = 4 * h) (hlt : s < 10) :
    Sending h b (s + 1) 0 (u.step i d) := by
  obtain ⟨hticks, hrise⟩ := hs.ticks_step (i := i) (d := d) hh hdiv hld
  obtain ⟨hstate, hline, hword⟩ := hs.shifts (i := i) (d := d) hld hp
  rw [if_pos hp] at hticks hrise
  refine
    { index := hlt, begun := fun h0 => by omega, state := ?_, ticks := hticks, rise := hrise,
      word := hword, line := ?_ }
  · rw [if_neg (by omega), hstate, txAt_next s hlt]
  · rw [if_neg (by omega), hline, Nat.add_sub_cancel]

/-- The stop bit ends, and the line stays high. -/
theorem Sending.finish (hld : u.txcpu.ld = false) (hs : Sending h b 10 p u)
    (hp : p + 1 = 4 * h) : (u.step i d).tx = .stDone ∧ (u.step i d).txdat = true := by
  obtain ⟨hstate, hline, _⟩ := hs.shifts (i := i) (d := d) hld hp
  exact ⟨hstate, hline.trans (framed_stop b (by decide))⟩

-- ---------------------------------------------------------------------------
-- The receiver
-- ---------------------------------------------------------------------------

/-- The state of the receiver after `j` falling edges of its clock. -/
def rxAt : Nat → RxState
  | 0 => .stStart
  | 1 => .stB0
  | 2 => .stB1
  | 3 => .stB2
  | 4 => .stB3
  | 5 => .stB4
  | 6 => .stB5
  | 7 => .stB6
  | 8 => .stB7
  | _ => .stStop

/-- The samples taken: one in the middle of each state. -/
def samples (h j q : Nat) : Nat := if q < 2 * h then j else j + 1

/-- The receiver is `q` cycles into its state `j`, with the first samples of the frame
of `b` in the upper bits of its shift register. -/
structure Receiving (h : Nat) (b : Octet) (j q : Nat) (u : Uart) : Prop where
  index : j ≤ 9
  state : u.rx = rxAt j
  ticks : Ticks h false u.rxclk u.rxBaudCnt q
  rise : u.rxclkRise = decide (q + 1 = 2 * h)
  fall : u.rxclkFall = decide (q + 1 = 4 * h)
  word : ∀ k < samples h j q, u.staRecvSto.getLsbD (10 - samples h j q + k) = framed b k

theorem rxAt_busy (j : Nat) :
    (rxAt j).shift = true ∧ (rxAt j).enClk = true ∧ (rxAt j).resetRxck = false ∧
      (rxAt j).done = false := by
  unfold rxAt
  split <;> exact ⟨rfl, rfl, rfl, rfl⟩

theorem rxAt_next : ∀ j < 9, ∀ a c, (rxAt j).next true a c = rxAt (j + 1) := by
  decide

theorem rxAt_wait (j : Nat) (a c : Bool) : (rxAt j).next false a c = rxAt j := by
  unfold rxAt
  split <;> rfl

/-- The start bit is confirmed. -/
theorem receiving_start (hh : 2 ≤ h) (hdiv : u.baudDiv = 2 * h) (hrx : u.rx = .stCheck) :
    Receiving h b 0 (h - 2) (u.step i false) := by
  have hs : samples h 0 (h - 2) = 0 := if_pos (by omega)
  refine
    { index := by omega, state := ?_, ticks := ?_, rise := ?_, fall := ?_,
      word := fun k hk => by rw [hs] at hk; omega }
  · simp only [Uart.step, hrx]
    rfl
  · simp only [Uart.step, hrx, RxState.resetRxck, if_true, hdiv]
    exact ⟨by omega, Or.inl ⟨rfl, by omega, by omega⟩⟩
  · simp only [Uart.step, hrx, RxState.resetRxck, if_true]
    rw [decide_eq_false (by omega)]
  · simp only [Uart.step, hrx, RxState.resetRxck, if_true]
    rw [decide_eq_false (by omega)]

/-- The receiver's counter in one cycle of a frame. -/
theorem Receiving.ticks_step (hh : 2 ≤ h) (hdiv : u.baudDiv = 2 * h) (hr : Receiving h b j q u) :
    Ticks h false (u.step i d).rxclk (u.step i d).rxBaudCnt
        (if q + 1 = 4 * h then 0 else q + 1) ∧
      (u.step i d).rxclkRise = decide ((if q + 1 = 4 * h then 0 else q + 1) + 1 = 2 * h) ∧
      (u.step i d).rxclkFall = decide ((if q + 1 = 4 * h then 0 else q + 1) + 1 = 4 * h) := by
  have hends := hr.ticks.ends_iff
  have hnext := hr.ticks.next hh
  obtain ⟨_, hen, hreset, _⟩ := rxAt_busy j
  rw [← hr.state] at hen hreset
  simp only [Uart.step, hen, hreset, hdiv, Bool.true_and, beq_iff_eq, Bool.false_eq_true, if_false,
    if_true]
  refine ⟨hnext, ?_⟩
  by_cases he : u.rxBaudCnt = 2 * h
  · rw [if_pos he, if_pos he]
    rcases hends.mp he with ⟨hq, hclk⟩ | ⟨hq, hclk⟩
    · rw [hclk, if_neg (by omega), decide_eq_true (by omega), decide_eq_false (by omega)]
      exact ⟨rfl, rfl⟩
    · rw [hclk, hr.rise, if_neg (by omega), decide_eq_false (by omega), decide_eq_false (by omega),
        decide_eq_true (by omega)]
      exact ⟨rfl, rfl⟩
  · rw [if_neg he, if_neg he]
    have hends' := hr.ticks.not_ends he
    refine ⟨(decide_eq_false ?_).symm, (decide_eq_false ?_).symm⟩ <;> split <;> omega

/-- The shift register in one cycle of a frame. -/
theorem Receiving.word_step (hr : Receiving h b j q u)
    (hline : q + 1 = 2 * h → d = framed b j) :
    ∀ k < samples h j (q + 1),
      (u.step i d).staRecvSto.getLsbD (10 - samples h j (q + 1) + k) = framed b k := by
  have hj := hr.index
  have hnext : u.rxNext = decide (q + 1 = 2 * h) := by
    rw [Uart.rxNext, hr.state, (rxAt_busy j).1, Bool.true_and, hr.rise]
  by_cases hq : q + 1 = 2 * h
  · -- the sample of this state
    have hold : samples h j q = j := if_pos (by omega)
    have hnew : samples h j (q + 1) = j + 1 := if_neg (by omega)
    have hword := hr.word
    rw [hold] at hword
    rw [hnew]
    intro k hk
    simp only [Uart.step, hnext, decide_eq_true hq, if_true]
    rw [getLsbD_shiftIn]
    by_cases hlt : k < j
    · rw [if_pos (by omega), ← hword k hlt]
      congr 1
      omega
    · have hkj : k = j := by omega
      subst hkj
      rw [if_neg (by omega), decide_eq_true (by omega), hline hq]
      rfl
  · have hsame : samples h j (q + 1) = samples h j q := by
      unfold samples
      split <;> split <;> omega
    rw [hsame]
    intro k hk
    simp only [Uart.step, hnext, decide_eq_false hq, Bool.false_eq_true, if_false]
    exact hr.word k hk

/-- The receiver stays in its state. -/
theorem Receiving.wait (hh : 2 ≤ h) (hdiv : u.baudDiv = 2 * h) (hr : Receiving h b j q u)
    (hline : q + 1 = 2 * h → d = framed b j) (hq : q + 1 ≠ 4 * h) :
    Receiving h b j (q + 1) (u.step i d) := by
  obtain ⟨hticks, hrise, hfall⟩ := hr.ticks_step (i := i) (d := d) hh hdiv
  rw [if_neg hq] at hticks hrise hfall
  refine
    { index := hr.index, state := ?_, ticks := hticks, rise := hrise, fall := hfall,
      word := hr.word_step hline }
  show u.rx.next u.rxclkFall _ _ = rxAt j
  rw [hr.fall, decide_eq_false hq, hr.state, rxAt_wait]

/-- The receiver goes to its next state. -/
theorem Receiving.advance (hh : 2 ≤ h) (hdiv : u.baudDiv = 2 * h) (hr : Receiving h b j q u)
    (hq : q + 1 = 4 * h) (hj : j < 9) : Receiving h b (j + 1) 0 (u.step i d) := by
  obtain ⟨hticks, hrise, hfall⟩ := hr.ticks_step (i := i) (d := d) hh hdiv
  rw [if_pos hq] at hticks hrise hfall
  have hword := hr.word_step (i := i) (d := d) fun h2 => by omega
  rw [show samples h j (q + 1) = samples h (j + 1) 0 from
    (if_neg (by omega)).trans (if_pos (by omega)).symm] at hword
  refine
    { index := hj, state := ?_, ticks := hticks, rise := hrise, fall := hfall, word := hword }
  show u.rx.next u.rxclkFall _ _ = rxAt (j + 1)
  rw [hr.fall, decide_eq_true hq, hr.state, rxAt_next j hj]

/-- The frame is complete. -/
theorem Receiving.finish (hr : Receiving h b 9 q u) (hq : q + 1 = 4 * h) :
    (u.step i d).rx = .stDone ∧
      ∀ k < 10, (u.step i d).staRecvSto.getLsbD k = framed b k := by
  have hword := hr.word_step (i := i) (d := d) fun h2 => by omega
  rw [show samples h 9 (q + 1) = 10 from if_neg (by omega)] at hword
  refine ⟨?_, fun k hk => ?_⟩
  · show u.rx.next u.rxclkFall _ _ = .stDone
    rw [hr.fall, decide_eq_true hq, hr.state]
    rfl
  · have hk' := hword k hk
    rwa [Nat.sub_self, Nat.zero_add] at hk'

end Xinu.Serial
