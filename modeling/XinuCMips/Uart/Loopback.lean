import XinuCMips.Uart.Frames

/-!
# The UART in loop-back

With `txdat` connected to `rxdat`, and every divider but the smallest, the samples of
the receiver fall into the symbols of the transmitter, from the start bit to the stop
bit. The octets written pass through the transmit register, the frame on the line and
the receive register.

* `Flight`           — the octets between the two registers, by where they are;
* `Flight.step`      — one cycle in loop-back;
* `octets_delivered` — **every octet written is received, in order and well framed.**
-/

namespace Xinu.Serial

-- ---------------------------------------------------------------------------
-- Where the octets are
-- ---------------------------------------------------------------------------

variable {h : Nat}

/-- The line is high and no symbol of the next frame is on it, up to `n` cycles into the
wait for the start bit; `l` is the octet that waits, and `t` bounds the time to its start
bit, counting from where the next octet would be loaded when none waits. -/
inductive Clear (h : Nat) (u : Uart) (n : Nat) : List Octet → Nat → Prop
  | rest (htx : u.tx = .stIdle ∨ u.tx = .stDone) (hline : u.txdat = true) :
      Clear h u n []
        (2 * h + 2 + if u.tx = .stDone then 2 else if u.txcpu = .stDone then 0 else 1)
  | ending {b : Octet} {p : Nat} (hs : Sending h b 10 p u) : Clear h u n [] (2 * h + 4 + (4 * h - p))
  | waiting {b : Octet} {p : Nat} (hs : Sending h b 0 p u) (hn : p ≤ n)
      (hnew : u.rxdatNew = true) (hint : 2 * h ≤ p → u.rxdatInt = true)
      (hold : 2 * h + 1 ≤ p → u.rxdatOld = true) : Clear h u n [b] (4 * h - p)

/-- Symbol and cycle of the transmitter against state and cycle of the receiver. -/
def Aligned (h s p j q : Nat) : Prop :=
  (s = j + 1 ∧ p + h = q + 5) ∨ (s = j + 2 ∧ p + 5 * h = q + 5) ∨ (s = j ∧ p + h = q + 5 + 4 * h)

/-- The cycles left in the receiver's states from `q` cycles into state `j`. -/
def remaining (h j q : Nat) : Nat := 4 * h * (9 - j) + (4 * h - q)

/-- The octets that have left the transmit register and are not in the receiver's CPU
interface, with the number of cycles to the end of the first frame. -/
inductive Flight (h : Nat) (u : Uart) : List Octet → Nat → Prop
  | clear {l : List Octet} {t : Nat} (hrx : u.rx = .stIdle) (hc : Clear h u (4 * h) l t)
      (hquiet : u.rxdatNew = true ∨ u.rxdatOld = false) : Flight h u l (t + remaining h 0 0 + 4)
  | falling {b : Octet} {p : Nat} (hrx : u.rx = .stIdle) (hs : Sending h b 1 p u) (hp : p ≤ 1)
      (hnew : u.rxdatNew = decide (p = 0)) (hint : p = 0 → u.rxdatInt = true)
      (hold : u.rxdatOld = true) : Flight h u [b] (remaining h 0 0 + 4 - p)
  | check {b : Octet} (hrx : u.rx = .stCheck) (hs : Sending h b 1 2 u) :
      Flight h u [b] (remaining h 0 0 + 2)
  | locked {b : Octet} {s p j q : Nat} (hr : Receiving h b j q u) (hs : Sending h b s p u)
      (ha : Aligned h s p j q) : Flight h u [b] (remaining h j q + 1)
  -- the transmitter has finished, `a` cycles ago
  | tail {b : Octet} {a q : Nat} (hr : Receiving h b 9 q u) (ha : a + 5 * h = q + 5)
      (htx : (a = 0 ∧ u.tx = .stDone) ∨ (1 ≤ a ∧ u.tx = .stIdle)) (hcpu : a = 1 → u.txcpu ≠ .stDone)
      (hline : u.txdat = true) : Flight h u [b] (remaining h 9 q + 1)
  | done {b : Octet} {l : List Octet} {t : Nat} (hrx : u.rx = .stDone)
      (hword : ∀ k < 10, u.staRecvSto.getLsbD k = framed b k) (hc : Clear h u (2 * h - 1) l t) :
      Flight h u (b :: l) 1

/-- What goes from the transmit register to the shift register in this cycle. -/
def moved (u : Uart) : List Octet := if u.txcpu.ld then [u.txreg] else []

/-- What waits in the transmit register. -/
def buffered (u : Uart) : List Octet := if u.txcpu.bfrEmpt then [] else [u.txreg]

/-- What the receive register loads in this cycle. -/
def landed (u : Uart) : List Octet := if u.rxcpu.ld then [u.rxreg] else []

-- ---------------------------------------------------------------------------
-- The CPU interfaces
-- ---------------------------------------------------------------------------

variable {u : Uart} {i : Inputs} {b : Octet} {l : List Octet} {n t s p j q : Nat}

/-- The transmit register takes an octet when it is empty, and gives it away once. -/
theorem buffered_step (hempty : i.sTx = true → u.txcpu.bfrEmpt = true) :
    buffered u ++ (if i.sTx then [i.dInp] else []) = moved u ++ buffered (u.step i u.txdat) := by
  have hbusy : ∀ {x : TxcpuState}, u.txcpu = x → x ≠ .stIdle → i.sTx = false := by
    intro x hx hne
    by_contra hs
    have := hempty (by simpa using hs)
    rw [hx] at this
    cases x <;> first | exact hne rfl | cases this
  cases hx : u.txcpu with
  | stIdle =>
    cases hs : i.sTx <;>
      simp [buffered, moved, Uart.step, hx, hs, TxcpuState.next, TxcpuState.ld, TxcpuState.bfrEmpt]
  | stCheck =>
    have hs := hbusy hx fun hc => by cases hc
    cases hf : u.tx.shrFull <;>
      simp [buffered, moved, Uart.step, hx, hs, hf, TxcpuState.next, TxcpuState.ld,
        TxcpuState.bfrEmpt]
  | stDone =>
    have hs := hbusy hx fun hc => by cases hc
    simp [buffered, moved, Uart.step, hx, hs, TxcpuState.next, TxcpuState.ld, TxcpuState.bfrEmpt]

/-- The transmit register is given away only to an idle transmitter. -/
theorem txcpu_done_step :
    (u.step i u.txdat).txcpu = .stDone → (u.step i u.txdat).tx = .stIdle := by
  intro hx
  have hcheck : u.txcpu = .stCheck ∧ u.tx.shrFull = false := by
    simp only [Uart.step] at hx
    cases hc : u.txcpu <;> rw [hc] at hx <;> simp only [TxcpuState.next] at hx
    · split at hx <;> cases hx
    · split at hx
      · cases hx
      · rename_i hfull
        exact ⟨rfl, eq_false_of_ne_true hfull⟩
    · cases hx
  have hidle : u.tx = .stIdle := by
    have hfull := hcheck.2
    cases htx : u.tx <;> rw [htx] at hfull <;> first | rfl | cases hfull
  simp only [Uart.step, hcheck.1, hidle]
  rfl

theorem moved_nil (hcpu : u.txcpu = .stDone → u.tx = .stIdle) (htx : u.tx ≠ .stIdle) :
    u.txcpu.ld = false ∧ moved u = [] := by
  have hld : u.txcpu.ld = false := by
    cases hx : u.txcpu
    · rfl
    · rfl
    · exact absurd (hcpu hx) htx
  exact ⟨hld, by rw [moved, hld]; rfl⟩

/-- Without a complete frame nothing lands. -/
theorem not_copy_step (hrx : u.rx.done = false) : (u.step i u.txdat).rxcpu ≠ .stCopy := by
  simp only [Uart.step, hrx]
  cases u.rxcpu with
  | stIdle => exact fun hc => by cases hc
  | stCopy => exact fun hc => by cases hc
  | stCheck =>
    cases i.sRx
    · exact fun hc => by cases hc
    · exact fun hc => by cases hc
  | stError => exact fun hc => by cases hc

theorem landed_nil (h : u.rxcpu ≠ .stCopy) : landed u = [] ∧ u.aFraming = false := by
  have hld : u.rxcpu.ld = false := by
    cases hx : u.rxcpu <;> first | rfl | exact absurd hx h
  exact ⟨by rw [landed, hld]; rfl, by rw [Uart.aFraming, hld]; rfl⟩

-- ---------------------------------------------------------------------------
-- One cycle
-- ---------------------------------------------------------------------------

theorem Clear.line (hc : Clear h u n l t) : u.txdat = true := by
  cases hc with
  | rest htx hline => exact hline
  | ending hs =>
    have hline := hs.line
    rwa [if_neg (by decide), framed_stop _ (by decide)] at hline
  | waiting hs hn hnew hint hold => exact hs.line

theorem Clear.mono {n' : Nat} (hle : n ≤ n') (hc : Clear h u n l t) : Clear h u n' l t := by
  cases hc with
  | rest htx hline => exact .rest htx hline
  | ending hs => exact .ending hs
  | waiting hs hn hnew hint hold => exact .waiting hs (Nat.le_trans hn hle) hnew hint hold

theorem Clear.any (hc : Clear h u n l t) : Clear h u (4 * h) l t := by
  cases hc with
  | rest htx hline => exact .rest htx hline
  | ending hs => exact .ending hs
  | waiting hs hn hnew hint hold =>
    exact .waiting hs (Nat.le_of_lt hs.ticks.inside) hnew hint hold

/-- A transmitter without an octet is idle, and the line stays high. -/
theorem rest_step (htx : u.tx = .stIdle ∨ u.tx = .stDone) (hld : u.txcpu.ld = false)
    (hline : u.txdat = true) :
    (u.step i u.txdat).tx = .stIdle ∧ (u.step i u.txdat).txdat = true := by
  have hnext : u.txNext = false := by
    rw [Uart.txNext]
    rcases htx with hx | hx <;> rw [hx] <;> exact Bool.and_false _
  constructor
  · simp only [Uart.step, hld]
    rcases htx with hx | hx <;> rw [hx] <;> rfl
  · simp only [Uart.step, hnext, Bool.and_false, Bool.false_eq_true, if_false]
    exact hline

theorem ld_false (hno : u.txcpu ≠ .stDone) : u.txcpu.ld = false := by
  cases hx : u.txcpu <;> first | rfl | exact absurd hx hno

/-- A transmitter without an octet rests, or loads the next one. -/
theorem clear_of_rest (hh : 2 ≤ h) (hcpu : u.txcpu = .stDone → u.tx = .stIdle)
    (htx : u.tx = .stIdle ∨ u.tx = .stDone) (hline : u.txdat = true) :
    ∃ t', Clear h (u.step i u.txdat) (2 * h - 1) (moved u) t' ∧
      (buffered u ≠ [] → t' < 2 * h + 2 +
        if u.tx = .stDone then 2 else if u.txcpu = .stDone then 0 else 1) := by
  have hnew : (u.step i u.txdat).rxdatNew = true := hline
  by_cases hld : u.txcpu = .stDone
  · have hs := sending_load (i := i) (d := u.txdat) hh (hcpu hld) hld hline
    have hmoved : moved u = [u.txreg] := by rw [moved, hld]; rfl
    refine ⟨4 * h - (2 * h - 1), ?_, fun _ => ?_⟩
    · rw [hmoved]
      exact .waiting hs (Nat.le_refl _) hnew (fun hp => by omega) (fun hp => by omega)
    · rw [hcpu hld, if_neg nofun, if_pos hld]
      omega
  · have hno := ld_false hld
    have hmoved : moved u = [] := by rw [moved, hno]; rfl
    obtain ⟨htx', hline'⟩ := rest_step (i := i) htx hno hline
    rw [hmoved]
    refine ⟨_, Clear.rest (Or.inl htx') hline', fun hb => ?_⟩
    rw [htx', if_neg nofun]
    -- an octet that waits is given away once the transmitter is idle
    have hcheck : u.txcpu = .stCheck := by
      cases hx : u.txcpu
      · exact absurd (by rw [buffered, hx]; rfl) hb
      · rfl
      · exact absurd hx hld
    rcases htx with hx | hx
    · have hdone : (u.step i u.txdat).txcpu = .stDone := by
        simp only [Uart.step, hcheck, hx]
        rfl
      rw [if_pos hdone, hx, if_neg nofun, if_neg hld]
      omega
    · rw [hx, if_pos rfl]
      split <;> omega

/-- The start bit goes to the line, after three cycles of a high line. -/
structure Falls (h : Nat) (u : Uart) (b : Octet) : Prop where
  sending : Sending h b 1 0 u
  new : u.rxdatNew = true
  int : u.rxdatInt = true
  old : u.rxdatOld = true

/-- A clear line stays clear, or the start bit that waited goes to it. -/
theorem Clear.step (hh : 2 ≤ h) (hdiv : u.baudDiv = 2 * h) (hcpu : u.txcpu = .stDone → u.tx = .stIdle)
    (hn : 2 * h ≤ n + 1) (hc : Clear h u n l t) :
    (∃ t', Clear h (u.step i u.txdat) (n + 1) (l ++ moved u) t' ∧
        (l ++ buffered u ≠ [] → t' < t)) ∨
      ∃ b, l = [b] ∧ moved u = [] ∧ t = 1 ∧ 4 * h ≤ n + 1 ∧ Falls h (u.step i u.txdat) b := by
  have hnew : (u.step i u.txdat).rxdatNew = true := hc.line
  cases hc with
  | rest htx hline =>
    obtain ⟨t', hc', ht'⟩ := clear_of_rest (i := i) hh hcpu htx hline
    exact Or.inl ⟨t', hc'.mono (by omega), ht'⟩
  | @ending b p hs =>
    obtain ⟨hld, hmoved⟩ := moved_nil hcpu hs.tx_ne_idle
    have hp := hs.ticks.inside
    rw [hmoved]
    left
    by_cases hp1 : p + 1 = 4 * h
    · obtain ⟨htx, hline⟩ := hs.finish (i := i) (d := u.txdat) hld hp1
      refine ⟨_, Clear.rest (Or.inr htx) hline, fun _ => ?_⟩
      rw [if_pos htx]
      omega
    · exact ⟨_, Clear.ending (hs.wait hh hdiv hld hp1), fun _ => by omega⟩
  | @waiting b p hs hpn hnew0 hint hold =>
    obtain ⟨hld, hmoved⟩ := moved_nil hcpu hs.tx_ne_idle
    have hp := hs.ticks.inside
    have hbegun := hs.begun rfl
    rw [hmoved]
    by_cases hp1 : p + 1 = 4 * h
    · right
      refine ⟨b, rfl, rfl, by omega, by omega, ⟨?_, hnew, hnew0, hint (by omega)⟩⟩
      exact hs.advance hh hdiv hld hp1 (by decide)
    · left
      refine ⟨4 * h - (p + 1), ?_, fun _ => by omega⟩
      exact Clear.waiting (hs.wait hh hdiv hld hp1) (by omega) hnew (fun _ => hnew0)
        (fun hp' => hint (by omega))

/-- In the middle of a receiver's state its symbol is on the line. -/
theorem Aligned.sampled (hh : 2 ≤ h) (ha : Aligned h s p j q) (hs : Sending h b s p u)
    (hq : q + 1 = 2 * h) : u.txdat = framed b j := by
  have hp := hs.ticks.inside
  have hsj : s = j + 1 := by
    rcases ha with ⟨hs', _⟩ | ⟨_, ha⟩ | ⟨_, ha⟩
    · exact hs'
    · omega
    · omega
  rw [hs.line, if_neg (by omega), hsj, Nat.add_sub_cancel]

theorem remaining_wait (hq : q < 4 * h) : remaining h j q = remaining h j (q + 1) + 1 := by
  unfold remaining
  omega

theorem remaining_advance (hj : j < 9) (hq : q + 1 = 4 * h) :
    remaining h j q = remaining h (j + 1) 0 + 1 := by
  have hj' : 9 - j = 9 - (j + 1) + 1 := by omega
  unfold remaining
  rw [hj', Nat.mul_succ]
  omega

/-- The transmitter in one cycle of a frame: to the next cycle or the next symbol. -/
theorem Sending.step (hh : 2 ≤ h) (hdiv : u.baudDiv = 2 * h) (hld : u.txcpu.ld = false)
    (hs : Sending h b s p u) (hlast : s = 10 → p + 1 ≠ 4 * h) :
    (p + 1 ≠ 4 * h ∧ Sending h b s (p + 1) (u.step i u.txdat)) ∨
      (p + 1 = 4 * h ∧ Sending h b (s + 1) 0 (u.step i u.txdat)) := by
  by_cases hp : p + 1 = 4 * h
  · have := hs.index
    exact Or.inr ⟨hp, hs.advance hh hdiv hld hp (by omega)⟩
  · exact Or.inl ⟨hp, hs.wait hh hdiv hld hp⟩

/-- The receiver in one cycle of a frame that is not the last. -/
theorem Receiving.step (hh : 2 ≤ h) (hdiv : u.baudDiv = 2 * h) (hr : Receiving h b j q u)
    (hline : q + 1 = 2 * h → u.txdat = framed b j) (hlast : j = 9 → q + 1 ≠ 4 * h) :
    ∃ j' q', Receiving h b j' q' (u.step i u.txdat) ∧ remaining h j q = remaining h j' q' + 1 ∧
      ((q + 1 ≠ 4 * h ∧ j' = j ∧ q' = q + 1) ∨ (q + 1 = 4 * h ∧ j' = j + 1 ∧ q' = 0)) := by
  have hj := hr.index
  by_cases hq : q + 1 = 4 * h
  · exact ⟨j + 1, 0, hr.advance hh hdiv hq (by omega), remaining_advance (by omega) hq,
      Or.inr ⟨hq, rfl, rfl⟩⟩
  · exact ⟨j, q + 1, hr.wait hh hdiv hline hq, remaining_wait hr.ticks.inside,
      Or.inl ⟨hq, rfl, rfl⟩⟩

/-- A receiver in the middle of a frame, in one cycle: both sides go on, or the
transmitter finishes first, or the frame is complete. -/
theorem locked_step (hh : 2 ≤ h) (hdiv : u.baudDiv = 2 * h) (hld : u.txcpu.ld = false)
    (hr : Receiving h b j q u) (hs : Sending h b s p u) (ha : Aligned h s p j q) :
    ∃ t', Flight h (u.step i u.txdat) [b] t' ∧ t' < remaining h j q + 1 := by
  have hj := hr.index
  have hsi := hs.index
  have hp := hs.ticks.inside
  have hq := hr.ticks.inside
  by_cases hcomplete : j = 9 ∧ q + 1 = 4 * h
  · obtain ⟨rfl, hq4⟩ := hcomplete
    obtain ⟨hrx, hword⟩ := hr.finish (i := i) (d := u.txdat) hq4
    refine ⟨1, ?_, by unfold remaining; omega⟩
    -- the stop bit is on the line
    have hs10 : s = 10 := by
      rcases ha with ⟨_, ha⟩ | ⟨_, ha⟩ | ⟨_, ha⟩ <;> omega
    subst hs10
    by_cases hp4 : p + 1 = 4 * h
    · obtain ⟨htx, hline⟩ := hs.finish (i := i) (d := u.txdat) hld hp4
      exact .done hrx hword (.rest (Or.inr htx) hline)
    · exact .done hrx hword (.ending (hs.wait hh hdiv hld hp4))
  · obtain ⟨j', q', hr', hrem, hcase⟩ := hr.step (i := i) hh hdiv (fun hq2 => ha.sampled hh hs hq2)
      (fun h9 hq4 => hcomplete ⟨h9, hq4⟩)
    by_cases hfinish : s = 10 ∧ p + 1 = 4 * h
    · obtain ⟨rfl, hp4⟩ := hfinish
      obtain ⟨htx, hline⟩ := hs.finish (i := i) (d := u.txdat) hld hp4
      have hj9 : j = 9 ∧ q + 6 = 5 * h := by
        rcases ha with ⟨_, ha⟩ | ⟨_, ha⟩ | ⟨_, ha⟩ <;> omega
      have hj' : j' = 9 ∧ q' = q + 1 := by omega
      obtain ⟨rfl, rfl⟩ := hj'
      exact ⟨_, .tail (a := 0) hr' (by omega) (Or.inl ⟨rfl, htx⟩) (fun h1 => by cases h1) hline,
        by omega⟩
    · rcases hs.step (i := i) hh hdiv hld (fun h10 hp4 => hfinish ⟨h10, hp4⟩) with
        ⟨hp4, hs'⟩ | ⟨hp4, hs'⟩
      · refine ⟨_, .locked hr' hs' ?_, by omega⟩
        unfold Aligned at ha ⊢
        omega
      · refine ⟨_, .locked hr' hs' ?_, by omega⟩
        unfold Aligned at ha ⊢
        omega

/-- The rest of a frame after the transmitter has finished. -/
theorem tail_step {a : Nat} (hh : 2 ≤ h) (hdiv : u.baudDiv = 2 * h)
    (hcpu : u.txcpu = .stDone → u.tx = .stIdle) (hr : Receiving h b 9 q u) (ha : a + 5 * h = q + 5)
    (htx : (a = 0 ∧ u.tx = .stDone) ∨ (1 ≤ a ∧ u.tx = .stIdle)) (hfirst : a = 1 → u.txcpu ≠ .stDone)
    (hline : u.txdat = true) :
    ∃ l' t', Flight h (u.step i u.txdat) l' t' ∧ b :: moved u = l' ∧ t' < remaining h 9 q + 1 := by
  have hq := hr.ticks.inside
  have hrest : u.tx = .stIdle ∨ u.tx = .stDone := htx.elim (fun h => Or.inr h.2) fun h => Or.inl h.2
  by_cases hq4 : q + 1 = 4 * h
  · obtain ⟨hrx, hword⟩ := hr.finish (i := i) (d := u.txdat) hq4
    obtain ⟨t', hc, _⟩ := clear_of_rest (i := i) hh hcpu hrest hline
    exact ⟨_, 1, .done hrx hword hc, rfl, by unfold remaining; omega⟩
  · have hr' := hr.wait (i := i) (d := u.txdat) hh hdiv (fun hq2 => by omega) hq4
    -- too early for the next octet
    have ha1 : a ≤ 1 := by omega
    have hno : u.txcpu ≠ .stDone := by
      rcases htx with ⟨_, htx⟩ | ⟨h1, _⟩
      · intro hd
        rw [hcpu hd] at htx
        cases htx
      · exact hfirst (by omega)
    have hld := ld_false hno
    have hmoved : moved u = [] := by rw [moved, hld]; rfl
    obtain ⟨htx', hline'⟩ := rest_step (i := i) hrest hld hline
    rw [hmoved]
    refine ⟨_, _, .tail (a := a + 1) hr' (by omega) (Or.inr ⟨by omega, htx'⟩) (fun h1 hd => ?_) hline',
      rfl, ?_⟩
    · -- in `st_done` the shift register counts as full
      have hfull : u.tx.shrFull = true := by
        rcases htx with ⟨_, hx⟩ | ⟨h1', _⟩
        · rw [hx]
          rfl
        · omega
      simp only [Uart.step, hfull] at hd
      cases hx : u.txcpu <;> rw [hx] at hd
      · cases hs : i.sTx <;> rw [hs] at hd <;> cases hd
      · cases hd
      · cases hd
    · have := remaining_wait (j := 9) hq
      omega

/-- One cycle of the octets in flight, while the receiver has no complete frame. -/
theorem Flight.step_busy (hh : 2 ≤ h) (hdiv : u.baudDiv = 2 * h)
    (hcpu : u.txcpu = .stDone → u.tx = .stIdle) (hrx : u.rx ≠ .stDone) (hf : Flight h u l t) :
    ∃ t', Flight h (u.step i u.txdat) (l ++ moved u) t' ∧ (l ++ buffered u ≠ [] → t' < t) := by
  cases hf with
  | @clear l t hidle hc hquiet =>
    have hrx' : (u.step i u.txdat).rx = .stIdle := by
      have hfall : u.rxdat1to0 = false := by
        rw [Uart.rxdat1to0]
        rcases hquiet with hx | hx <;> rw [hx]
        · exact Bool.and_false _
        · rfl
      simp only [Uart.step, hidle, hfall]
      rfl
    rcases hc.step (i := i) hh hdiv hcpu (by omega) with
      ⟨t', hc', ht⟩ | ⟨b, rfl, hmoved, rfl, _, hfalls⟩
    · exact ⟨_, .clear hrx' hc'.any (Or.inl hc.line), fun hne => by have := ht hne; omega⟩
    · rw [hmoved]
      exact ⟨_, .falling hrx' hfalls.sending (Nat.zero_le _) hfalls.new (fun _ => hfalls.int)
        hfalls.old, fun _ => by omega⟩
  | @falling b p hidle hs hp hnew hint hold =>
    obtain ⟨hld, hmoved⟩ := moved_nil hcpu hs.tx_ne_idle
    have hs' := hs.wait (i := i) (d := u.txdat) hh hdiv hld (by omega)
    have hlow : u.txdat = false := by rw [hs.line]; exact framed_start b
    rw [hmoved]
    by_cases hp0 : p = 0
    · subst hp0
      have hrx' : (u.step i u.txdat).rx = .stIdle := by
        have hhigh : u.rxdatNew = true := hnew
        simp only [Uart.step, hidle, Uart.rxdat1to0, hhigh, Bool.not_true, Bool.and_false]
        rfl
      exact ⟨_, .falling hrx' hs' (Nat.le_refl _) hlow (fun h0 => by cases h0) (hint rfl),
        fun _ => by omega⟩
    · have hp1 : p = 1 := by omega
      subst hp1
      have hrx' : (u.step i u.txdat).rx = .stCheck := by
        simp only [Uart.step, hidle, Uart.rxdat1to0, hnew, hold]
        rfl
      exact ⟨_, .check hrx' hs', fun _ => by omega⟩
  | @check b hcheck hs =>
    obtain ⟨hld, hmoved⟩ := moved_nil hcpu hs.tx_ne_idle
    have hlow : u.txdat = false := by rw [hs.line]; exact framed_start b
    have hs' := hs.wait (i := i) (d := u.txdat) hh hdiv hld (by omega)
    have hr' := receiving_start (b := b) (i := i) hh hdiv hcheck
    rw [hmoved]
    rw [hlow] at hs' ⊢
    refine ⟨_, .locked hr' hs' (Or.inl ⟨rfl, by omega⟩), fun _ => ?_⟩
    unfold remaining
    omega
  | @locked b s p j q hr hs ha =>
    obtain ⟨hld, hmoved⟩ := moved_nil hcpu hs.tx_ne_idle
    obtain ⟨t', hf', ht'⟩ := locked_step (i := i) hh hdiv hld hr hs ha
    rw [hmoved]
    exact ⟨t', hf', fun _ => ht'⟩
  | @tail b a q hr ha htx hfirst hline =>
    obtain ⟨l', t', hf', rfl, ht'⟩ := tail_step (i := i) hh hdiv hcpu hr ha htx hfirst hline
    exact ⟨t', hf', fun _ => ht'⟩
  | done hdone hword hc => exact absurd hdone hrx

/-- A complete frame goes to the idle CPU interface. -/
theorem Flight.step_done (hh : 2 ≤ h) (hdiv : u.baudDiv = 2 * h)
    (hcpu : u.txcpu = .stDone → u.tx = .stIdle) (hrx : u.rx = .stDone) (hidle : u.rxcpu = .stIdle)
    (hf : Flight h u l t) :
    ∃ l' t', Flight h (u.step i u.txdat) l' t' ∧ l ++ moved u = landed (u.step i u.txdat) ++ l' ∧
      (u.step i u.txdat).aFraming = false ∧ (u.step i u.txdat).rxcpu = .stCopy := by
  have hnot : ∀ {x : RxState}, u.rx = x → x ≠ .stDone → False := by
    rintro x rfl hx
    exact hx hrx
  cases hf with
  | clear hx => exact (hnot hx nofun).elim
  | falling hx => exact (hnot hx nofun).elim
  | check hx => exact (hnot hx nofun).elim
  | @locked b s p j q hr =>
    have hbusy := (rxAt_busy j).2.2.2
    rw [← hr.state, hrx] at hbusy
    cases hbusy
  | @tail b a q hr =>
    have hbusy := (rxAt_busy 9).2.2.2
    rw [← hr.state, hrx] at hbusy
    cases hbusy
  | @done b l t _ hword hc =>
    have hcopy : (u.step i u.txdat).rxcpu = .stCopy := by
      simp only [Uart.step, hidle, hrx]
      rfl
    have hsto : (u.step i u.txdat).staRecvSto = u.staRecvSto := by
      have hnext : u.rxNext = false := by rw [Uart.rxNext, hrx]; rfl
      simp only [Uart.step, hnext, Bool.false_eq_true, if_false]
    have hrx' : (u.step i u.txdat).rx = .stIdle := by
      simp only [Uart.step, hrx]
      rfl
    rcases hc.step (i := i) hh hdiv hcpu (by omega) with ⟨t', hc', _⟩ | ⟨_, _, _, _, hlate, _⟩
    · refine ⟨_, _, .clear hrx' hc'.any (Or.inl hc.line), ?_, ?_, hcopy⟩
      · rw [landed, hcopy, Uart.rxreg, hsto, extract_framed hword]
        rfl
      · rw [Uart.aFraming, hcopy, hsto, hword 9 (by decide), hword 0 (by decide), framed_start,
          framed_stop b (Nat.le_refl _)]
        rfl
    · omega

end Xinu.Serial
