import XinuCMips.Uart.Loopback

/-!
# Octets through the loop

* `Held.step`        — no octet is lost or made up in one cycle;
* `Held.lands`       — an octet that is held lands in the receive register;
* `octets_delivered` — **the receiver loads the octets that were written, in order and
  well framed.**
-/

namespace Xinu.Serial

/-- The UART after `rst` and a write of the control register. -/
def configured (ctrl : Octet) : Uart :=
  Uart.reset.step { sCtrlwr := true, sTx := false, sRx := false, dInp := ctrl } true

/-- The octets written in a run are those that the receiver loads. -/
structure Delivered (ins : Nat → Inputs) (u : Uart) : Prop where
  order : ∀ n, loaded ins u n <+: sent ins n
  complete : ∀ n, ∃ m, sent ins n <+: loaded ins u m
  framing : ∀ n, (loopback ins u n).aFraming = false ∧ (loopback ins u n).errFraming = false

/-- The bit-rate code of an octet that is written is not 000, and a complete frame finds
the previous octet read. -/
def Sound (i : Inputs) (u : Uart) : Prop :=
  (i.sTx = true → u.ctrl.extractLsb' 0 3 ≠ 0) ∧ (u.rx = .stDone → u.rxcpu = .stIdle)

instance (i : Inputs) (u : Uart) : Decidable (Sound i u) := by
  unfold Sound
  infer_instance

variable {h : Nat} {u : Uart} {i : Inputs} {l : List Octet} {n t : Nat}

/-- Every divider but the smallest is an even number of cycles from 4 on. -/
theorem baudDiv_even (hc : u.ctrl.extractLsb' 0 3 ≠ 0) : ∃ h, 2 ≤ h ∧ u.baudDiv = 2 * h := by
  obtain ⟨k, hk⟩ : ∃ k, (u.ctrl.extractLsb' 0 3).toNat = k := ⟨_, rfl⟩
  have h0 : k ≠ 0 := by
    rintro rfl
    exact hc (BitVec.eq_of_toNat_eq hk)
  rw [Uart.baudDiv, hk]
  match k, h0 with
  | 1, _ => exact ⟨2, by decide, rfl⟩
  | 2, _ => exact ⟨4, by decide, rfl⟩
  | 3, _ => exact ⟨8, by decide, rfl⟩
  | 4, _ => exact ⟨16, by decide, rfl⟩
  | 5, _ => exact ⟨32, by decide, rfl⟩
  | 6, _ => exact ⟨651, by decide, rfl⟩
  | k + 7, _ => exact ⟨1302, by decide, rfl⟩

/-- One cycle of the octets in flight. -/
theorem Flight.step (hh : 2 ≤ h) (hdiv : u.baudDiv = 2 * h)
    (hcpu : u.txcpu = .stDone → u.tx = .stIdle) (hidle : u.rx = .stDone → u.rxcpu = .stIdle)
    (hf : Flight h u l t) :
    ∃ l' t', Flight h (u.step i u.txdat) l' t' ∧ l ++ moved u = landed (u.step i u.txdat) ++ l' ∧
      (u.step i u.txdat).aFraming = false ∧
      (l ++ buffered u ≠ [] → (u.step i u.txdat).rxcpu = .stCopy ∨ t' < t) := by
  by_cases hrx : u.rx = .stDone
  · obtain ⟨l', t', hf', hl, hframe, hcopy⟩ :=
      hf.step_done (i := i) hh hdiv hcpu hrx (hidle hrx)
    exact ⟨l', t', hf', hl, hframe, fun _ => Or.inl hcopy⟩
  · have hno : u.rx.done = false := by
      cases hx : u.rx <;> first | rfl | exact absurd hx hrx
    obtain ⟨t', hf', ht⟩ := hf.step_busy (i := i) hh hdiv hcpu hrx
    obtain ⟨hland, hframe⟩ := landed_nil (not_copy_step (i := i) hno)
    exact ⟨_, t', hf', by rw [hland]; rfl, hframe, fun hne => Or.inr (ht hne)⟩

section Runs

variable {ins : Nat → Inputs} {u0 : Uart}

theorem loaded_succ (n : Nat) :
    loaded ins u0 (n + 1) = loaded ins u0 n ++ landed (loopback ins u0 n) := rfl

theorem sent_mono {n m : Nat} (h : n ≤ m) : sent ins n <+: sent ins m := by
  induction m, h using Nat.le_induction with
  | base => exact List.prefix_rfl
  | succ m _ ih => exact ih.trans (List.prefix_append _ _)

/-- After `n` cycles every octet written has been loaded or is held: in the receiver's CPU
interface, in flight or in the transmit register. -/
structure Held (h : Nat) (ins : Nat → Inputs) (u0 : Uart) (n : Nat) (l : List Octet) (t : Nat) :
    Prop where
  div : (loopback ins u0 n).baudDiv = 2 * h
  cpu : (loopback ins u0 n).txcpu = .stDone → (loopback ins u0 n).tx = .stIdle
  framing : (loopback ins u0 n).aFraming = false ∧ (loopback ins u0 n).errFraming = false
  flight : Flight h (loopback ins u0 n) l t
  octets : sent ins n =
    loaded ins u0 n ++ landed (loopback ins u0 n) ++ l ++ buffered (loopback ins u0 n)

/-- No octet is lost or made up in one cycle, and one that is held comes closer. -/
theorem Held.step (hh : 2 ≤ h) (hctrl : (ins n).sCtrlwr = false)
    (hempty : (ins n).sTx = true → (loopback ins u0 n).txcpu.bfrEmpt = true)
    (hidle : (loopback ins u0 n).rx = .stDone → (loopback ins u0 n).rxcpu = .stIdle)
    (hi : Held h ins u0 n l t) :
    ∃ l' t', Held h ins u0 (n + 1) l' t' ∧
      (l ++ buffered (loopback ins u0 n) ≠ [] →
        (loopback ins u0 (n + 1)).rxcpu = .stCopy ∨ t' < t) := by
  obtain ⟨l', t', hf, hl, hframe, hcloser⟩ := hi.flight.step (i := ins n) hh hi.div hi.cpu hidle
  have hbuf := buffered_step hempty
  refine ⟨l', t', ⟨?_, txcpu_done_step, ⟨hframe, ?_⟩, hf, ?_⟩, hcloser⟩
  · have hc : (loopback ins u0 (n + 1)).ctrl = (loopback ins u0 n).ctrl := by
      simp only [loopback, Uart.step, hctrl, Bool.false_eq_true, if_false]
    have hdiv := hi.div
    rw [Uart.baudDiv] at hdiv ⊢
    rw [hc, hdiv]
  · simp only [loopback, Uart.step, hi.framing.1, hi.framing.2]
    rfl
  · calc sent ins (n + 1)
        = sent ins n ++ (if (ins n).sTx then [(ins n).dInp] else []) := rfl
      _ = loaded ins u0 n ++ landed (loopback ins u0 n) ++ l ++
            (buffered (loopback ins u0 n) ++ if (ins n).sTx then [(ins n).dInp] else []) := by
          rw [hi.octets, List.append_assoc]
      _ = loaded ins u0 (n + 1) ++ (l ++ moved (loopback ins u0 n)) ++
            buffered (loopback ins u0 (n + 1)) := by
          rw [hbuf, loaded_succ]
          simp only [List.append_assoc]
          rfl
      _ = loaded ins u0 (n + 1) ++ landed (loopback ins u0 (n + 1)) ++ l' ++
            buffered (loopback ins u0 (n + 1)) := by
          rw [hl]
          simp only [List.append_assoc]
          rfl

/-- Every run that meets the conditions holds its octets. -/
theorem held_run (hh : 2 ≤ h) (hctrl : ∀ n, (ins n).sCtrlwr = false)
    (hempty : ∀ n, (ins n).sTx = true → (loopback ins u0 n).txcpu.bfrEmpt = true)
    (hidle : ∀ n, (loopback ins u0 n).rx = .stDone → (loopback ins u0 n).rxcpu = .stIdle)
    (h0 : Held h ins u0 0 [] t) : ∀ n, ∃ l t', Held h ins u0 n l t' := by
  intro n
  induction n with
  | zero => exact ⟨[], t, h0⟩
  | succ n ih =>
    obtain ⟨l, t', hi⟩ := ih
    obtain ⟨l', t'', hi', _⟩ := hi.step hh (hctrl n) (hempty n) (hidle n)
    exact ⟨l', t'', hi'⟩

/-- While an octet is held, some octet lands in the end. -/
theorem Held.lands (hh : 2 ≤ h) (hctrl : ∀ n, (ins n).sCtrlwr = false)
    (hempty : ∀ n, (ins n).sTx = true → (loopback ins u0 n).txcpu.bfrEmpt = true)
    (hidle : ∀ n, (loopback ins u0 n).rx = .stDone → (loopback ins u0 n).rxcpu = .stIdle)
    (hi : Held h ins u0 n l t) (hlt : (loaded ins u0 n).length < (sent ins n).length) :
    ∃ m, n ≤ m ∧ (loaded ins u0 n).length < (loaded ins u0 m).length := by
  induction t using Nat.strong_induction_on generalizing n l with | _ t ih => ?_
  have hcopied : ∀ k, (loopback ins u0 k).rxcpu = .stCopy →
      (loaded ins u0 (k + 1)).length = (loaded ins u0 k).length + 1 := by
    intro k hk
    simp only [loaded, hk, RxcpuState.ld, if_true, List.length_append, List.length_singleton]
  by_cases hcopy : (loopback ins u0 n).rxcpu = .stCopy
  · exact ⟨n + 1, Nat.le_succ n, by rw [hcopied n hcopy]; exact Nat.lt_succ_self _⟩
  · have hland := (landed_nil hcopy).1
    have hsame : loaded ins u0 (n + 1) = loaded ins u0 n := by
      rw [loaded_succ, hland, List.append_nil]
    have hne : l ++ buffered (loopback ins u0 n) ≠ [] := by
      intro he
      have hs := hi.octets
      rw [hland, List.append_nil, List.append_assoc, he, List.append_nil] at hs
      rw [hs] at hlt
      exact Nat.lt_irrefl _ hlt
    obtain ⟨l', t', hi', hcloser⟩ := hi.step hh (hctrl n) (hempty n) (hidle n)
    rcases hcloser hne with hc | ht
    · refine ⟨n + 2, by omega, ?_⟩
      rw [hcopied (n + 1) hc, hsame]
      exact Nat.lt_succ_self _
    · have hlt' : (loaded ins u0 (n + 1)).length < (sent ins (n + 1)).length := by
        rw [hsame]
        simp only [sent, List.length_append]
        omega
      obtain ⟨m, hm, hm'⟩ := ih t' ht hi' hlt'
      rw [hsame] at hm'
      exact ⟨m, by omega, hm'⟩

/-- What is written is loaded in the end. -/
theorem loaded_complete (hh : 2 ≤ h) (hctrl : ∀ n, (ins n).sCtrlwr = false)
    (hempty : ∀ n, (ins n).sTx = true → (loopback ins u0 n).txcpu.bfrEmpt = true)
    (hidle : ∀ n, (loopback ins u0 n).rx = .stDone → (loopback ins u0 n).rxcpu = .stIdle)
    (hheld : ∀ n, ∃ l t, Held h ins u0 n l t) (n : Nat) :
    ∃ m, n ≤ m ∧ (sent ins n).length ≤ (loaded ins u0 m).length := by
  -- from `m` on, the octets of the first `n` cycles that are not loaded become fewer
  have hmore : ∀ k m, n ≤ m → (sent ins n).length ≤ (loaded ins u0 m).length + k →
      ∃ m', n ≤ m' ∧ (sent ins n).length ≤ (loaded ins u0 m').length := by
    intro k
    induction k with
    | zero => exact fun m hm hle => ⟨m, hm, hle⟩
    | succ k ih =>
      intro m hm hle
      by_cases hall : (sent ins n).length ≤ (loaded ins u0 m).length
      · exact ⟨m, hm, hall⟩
      · obtain ⟨l, t, hi⟩ := hheld m
        have hsent : (sent ins n).length ≤ (sent ins m).length := (sent_mono hm).length_le
        obtain ⟨m', hm', hlt⟩ := hi.lands hh hctrl hempty hidle (by omega)
        exact ih m' (by omega) (by omega)
  exact hmore (sent ins n).length n (Nat.le_refl n) (by omega)

/-- The UART holds nothing after its control register is written. -/
theorem configured_held (ctrl : Octet) (hdiv : (configured ctrl).baudDiv = 2 * h) :
    ∃ t, Held h ins (configured ctrl) 0 [] t :=
  ⟨_, hdiv, nofun, ⟨rfl, rfl⟩, .clear rfl (.rest (Or.inl rfl) rfl) (Or.inl rfl), rfl⟩

/-- Nothing is written, and nothing happens. -/
structure Silent (u : Uart) : Prop where
  txcpu : u.txcpu = .stIdle
  tx : u.tx = .stIdle
  line : u.txdat = true
  high : u.rxdatNew = true
  rx : u.rx = .stIdle
  rxcpu : u.rxcpu = .stIdle
  framing : u.errFraming = false

theorem Silent.step (hs : Silent u) (hi : i.sTx = false) : Silent (u.step i u.txdat) := by
  have hrest := rest_step (i := i) (Or.inl hs.tx) (by rw [hs.txcpu]; rfl) hs.line
  refine ⟨?_, hrest.1, hrest.2, hs.line, ?_, ?_, ?_⟩
  · simp only [Uart.step, hs.txcpu, hi]
    rfl
  · simp only [Uart.step, hs.rx, Uart.rxdat1to0, hs.high, Bool.not_true, Bool.and_false]
    rfl
  · simp only [Uart.step, hs.rx, hs.rxcpu]
    rfl
  · simp only [Uart.step, Uart.aFraming, hs.rxcpu, hs.framing]
    rfl

end Runs

/-- In loop-back, every run with a fixed bit-rate code in which octets are written to an
empty transmit register, at a code other than 000, and each is read before the frame of
the next is complete, delivers its octets. -/
theorem octets_delivered (ctrl : Octet) (ins : Nat → Inputs) (hctrl : ∀ n, (ins n).sCtrlwr = false)
    (hempty : ∀ n, (ins n).sTx = true → (loopback ins (configured ctrl) n).txcpu.bfrEmpt = true)
    (hsound : ∀ n, Sound (ins n) (loopback ins (configured ctrl) n)) :
    Delivered ins (configured ctrl) := by
  have hidle := fun n => (hsound n).2
  by_cases hwrites : ∃ n, (ins n).sTx = true
  · obtain ⟨k, hk⟩ := hwrites
    have hcode : ∀ n, (loopback ins (configured ctrl) n).ctrl = ctrl := by
      intro n
      induction n with
      | zero => rfl
      | succ n ih =>
        simp only [loopback, Uart.step, hctrl n, Bool.false_eq_true, if_false]
        exact ih
    obtain ⟨h, hh, hdiv⟩ := baudDiv_even (u := configured ctrl) (by
      have := (hsound k).1 hk
      rwa [hcode k] at this)
    obtain ⟨t, h0⟩ := @configured_held h ins ctrl hdiv
    have hheld := held_run hh hctrl hempty hidle h0
    have horder : ∀ n, loaded ins (configured ctrl) n <+: sent ins n := by
      intro n
      obtain ⟨l, t, hi⟩ := hheld n
      rw [hi.octets, List.append_assoc, List.append_assoc]
      exact List.prefix_append _ _
    refine ⟨horder, fun n => ?_, fun n => ?_⟩
    · obtain ⟨m, hm, hle⟩ := loaded_complete hh hctrl hempty hidle hheld n
      exact ⟨m, List.prefix_of_prefix_length_le (sent_mono hm) (horder m) hle⟩
    · obtain ⟨l, t, hi⟩ := hheld n
      exact hi.framing
  · have hno : ∀ n, (ins n).sTx = false := fun n => eq_false_of_ne_true fun h => hwrites ⟨n, h⟩
    have hsilent : ∀ n, Silent (loopback ins (configured ctrl) n) := by
      intro n
      induction n with
      | zero => exact ⟨rfl, rfl, rfl, rfl, rfl, rfl, rfl⟩
      | succ n ih => exact ih.step (hno n)
    have hsent : ∀ n, sent ins n = [] := by
      intro n
      induction n with
      | zero => rfl
      | succ n ih => rw [sent, ih, hno n]; rfl
    have hloaded : ∀ n, loaded ins (configured ctrl) n = [] := by
      intro n
      induction n with
      | zero => rfl
      | succ n ih => rw [loaded, ih, (hsilent n).rxcpu]; rfl
    refine ⟨fun n => ?_, fun n => ⟨0, ?_⟩, fun n => ⟨?_, (hsilent n).framing⟩⟩
    · rw [hloaded, hsent]
    · rw [hsent]
      exact List.nil_prefix
    · rw [Uart.aFraming, (hsilent n).rxcpu]
      rfl

/-- The octet 0x41 is written in the first cycle, and nothing is read. -/
def oneOctet (n : Nat) : Inputs :=
  { sCtrlwr := false, sTx := n == 0, sRx := false, dInp := 0x41 }

/-- A UART that does not change in a cycle does not change any more. -/
theorem loopback_still {ins : Nat → Inputs} {u : Uart} {n : Nat}
    (hins : ∀ m, n ≤ m → ins m = ins n)
    (hstill : loopback ins u (n + 1) = loopback ins u n) {m : Nat} (hm : n ≤ m) :
    loopback ins u m = loopback ins u n := by
  induction m, hm using Nat.le_induction with
  | base => rfl
  | succ m hm ih =>
    rw [loopback, ih, hins m hm]
    exact hstill

theorem octets_delivered_one : Delivered oneOctet (configured 1) := by
  have hstill : ∀ m, 120 ≤ m →
      loopback oneOctet (configured 1) m = loopback oneOctet (configured 1) 120 := by
    intro m hm
    refine loopback_still (fun m hm => ?_) (by decide +kernel) hm
    unfold oneOctet
    rw [show (m == 0) = false from beq_false_of_ne (by omega)]
    rfl
  have hsound : ∀ m < 120, Sound (oneOctet m) (loopback oneOctet (configured 1) m) := by
    decide +kernel
  refine octets_delivered 1 oneOctet (fun _ => rfl) (fun n hn => ?_) fun n => ?_
  · have h0 : n = 0 := by simpa [oneOctet] using hn
    subst h0
    rfl
  · rcases Nat.lt_or_ge n 120 with hlt | hge
    · exact hsound n hlt
    · rw [hstill n hge]
      exact ⟨fun hn => by simp [oneOctet] at hn; omega, by decide +kernel⟩

/-- With the bit-rate code 000 the start bit is missed. -/
theorem octets_not_delivered :
    (∀ n, (oneOctet n).sCtrlwr = false) ∧
      (∀ n, (oneOctet n).sTx = true →
        (loopback oneOctet (configured 0) n).txcpu.bfrEmpt = true) ∧
      ¬Delivered oneOctet (configured 0) := by
  refine ⟨fun _ => rfl, fun n hn => ?_, fun h => ?_⟩
  · have h0 : n = 0 := by simpa [oneOctet] using hn
    subst h0
    rfl
  · have hframing := (h.framing 51).1
    revert hframing
    decide +kernel

end Xinu.Serial
