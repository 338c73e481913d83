import XinuCMips.Tty.Steps

/-!
# The output queue of a tty

Writers wait for space with `tyosem` and store; the transmit interrupt sends,
and takes `TY_OBUFLEN` less the count of `tyosem` for the number of characters
that are stored. Writers that wait, or have been let go and have not stored
yet, are in that number as well.

* `output_fifo_without_slip` — as long as there is a character when the
  interrupt sends one, the characters that are sent are those that were stored,
  in order, and the ring never overflows;
* `output_not_fifo`          — one writer that is slow to run makes the
  interrupt send a character again.
-/

namespace Xinu.Tty

/-- The queue as it should be; a character stored in a full ring, and one sent
that is not the oldest, break the rules. -/
def fifo : Monitor TtyEvent (List UInt8) where
  init := []
  next q
    | .stored ch => if q.length < TY_OBUFLEN then some (q ++ [ch]) else none
    | .sent ch =>
      match q with
      | [] => none
      | c :: q => if c = ch then some q else none
    | _ => some q

/-- The characters that were stored, oldest first. -/
def storedChars (tr : List TtyEvent) : List UInt8 :=
  tr.reverse.filterMap fun
    | .stored ch => some ch
    | _ => none

/-- The characters that were sent, oldest first. -/
def sentChars (tr : List TtyEvent) : List UInt8 :=
  tr.reverse.filterMap fun
    | .sent ch => some ch
    | _ => none

/-- **In an accepted history what was stored has been sent, in order, or is
still in the queue.** -/
theorem storedChars_eq : ∀ {tr : List TtyEvent} {q : List UInt8}, fifo.run tr = some q →
    storedChars tr = sentChars tr ++ q
  | [], q, h => by
    cases h
    rfl
  | e :: tr, q, h => by
    obtain ⟨q₀, hq₀, hnext⟩ := Option.bind_eq_some_iff.mp h
    have ih := storedChars_eq hq₀
    unfold storedChars sentChars at ih ⊢
    rw [List.reverse_cons, List.filterMap_append, List.filterMap_append, ih]
    cases e with
    | stored ch =>
      change (if q₀.length < TY_OBUFLEN then some (q₀ ++ [ch]) else none) = _ at hnext
      by_cases hlen : q₀.length < TY_OBUFLEN
      · rw [if_pos hlen] at hnext
        cases hnext
        simp
      · rw [if_neg hlen] at hnext
        cases hnext
    | sent ch =>
      cases q₀ with
      | nil => cases hnext
      | cons c q₀ =>
        change (if c = ch then some q₀ else none) = _ at hnext
        by_cases hc : c = ch
        · rw [if_pos hc] at hnext
          cases hnext
          simp [hc]
        · rw [if_neg hc] at hnext
          cases hnext
    | rx | mode | put | rub | avail | got | returned | noRead | echoed =>
      cases hnext
      simp

/-- The ring holds these characters, from the head to the tail. -/
structure Output.Holds (q : List UInt8) (t : Output) : Prop where
  head : t.tyohead < TY_OBUFLEN
  tail : t.tyotail = (t.tyohead + q.length) % TY_OBUFLEN
  slots : Ring.Holds TY_OBUFLEN t.tyobuff t.tyohead q

/-- **Every slot is a character or a unit of `tyosem`**, which a writer may take
or has been given. -/
structure Output.Keeps (q : List UInt8) (t : Output) : Prop extends t.Holds q where
  osem : t.tyosem.Ok
  room : q.length + t.tyosem.units = TY_OBUFLEN

namespace Output

variable {t : Output} {q : List UInt8}

theorem Keeps.length_le (h : t.Keeps q) : q.length ≤ TY_OBUFLEN := by
  have := h.osem.released_le
  have := h.room
  omega

theorem Holds.store (h : t.Holds q) (hlen : q.length < TY_OBUFLEN) (ch : UInt8) :
    Holds (q ++ [ch])
      { t with
        tyobuff := Function.update t.tyobuff t.tyotail ch
        tyotail := Ring.next TY_OBUFLEN t.tyotail } := by
  refine ⟨h.head, ?_, ?_⟩
  · change Ring.next TY_OBUFLEN t.tyotail = _
    rw [h.tail]
    exact Ring.tail_enqueue (by decide)
  · change Ring.Holds _ (Function.update t.tyobuff t.tyotail ch) _ _
    rw [h.tail]
    exact h.slots.enqueue hlen ch

theorem Holds.send {c : UInt8} (h : t.Holds (c :: q)) :
    Holds q { t with tyohead := Ring.next TY_OBUFLEN t.tyohead } :=
  ⟨Ring.next_lt (by decide), h.tail.trans (Ring.tail_dequeue h.head).symm, h.slots.dequeue h.head⟩

end Output

namespace Ttycblk

variable {t t' : Ttycblk} {q : List UInt8} {es : List TtyEvent}

/-- The monitor follows a step, and the queue is kept. -/
def Follows (q : List UInt8) (r : Ttycblk × List TtyEvent) : Prop :=
  ∃ q', Machine.feed fifo q r.2 = some q' ∧ r.1.toOutput.Keeps q'

/-- The events of the input side. -/
def ofInput : TtyEvent → Bool
  | .stored _ | .sent _ => false
  | _ => true

theorem feed_fifo_input (h : ∀ e ∈ es, ofInput e) (q : List UInt8) :
    Machine.feed fifo q es = some q := by
  refine Machine.feed_ignored ?_ q
  intro e he q
  have hin := h e he
  cases e with
  | stored | sent => cases hin
  | rx | mode | put | rub | avail | got | returned | noRead | echoed => rfl

/-- A step of the input side. -/
theorem follows_input (h : t.toOutput.Keeps q) (ht : t'.toOutput = t.toOutput)
    (hes : ∀ e ∈ es, ofInput e) : Follows q (t', es) := by
  refine ⟨q, feed_fifo_input hes q, ?_⟩
  rw [ht]
  exact h

theorem act_ofInput (t : Input) (k : Key) (switched : Bool) :
    ∀ e ∈ (t.act switched k).2, ofInput e := by
  cases k <;> simp [Input.act, ofInput]

theorem take_follows (h : t.toOutput.Keeps q) (pid : Pid) (c : ReadCall) :
    Follows q (t.take pid c) := by
  unfold take
  dsimp only
  cases readNext (t.getcValue (t.tyibuff t.tyihead)) c with
  | inl c' => exact follows_input h rfl (by simp [ofInput])
  | inr r => exact follows_input h rfl (by simp [ofInput])

theorem Reads.output {a : TtyAct} {r : Ttycblk × List TtyEvent} (hr : t.Reads a r)
    (h : t.toOutput.Keeps q) : Follows q r := by
  cases hr with
  | idle pid v => exact follows_input h rfl (by simp [ofInput])
  | waits hc hw => exact follows_input h rfl nofun
  | @takes pid c s hc hs => exact take_follows (t := { t with tyisem := s }) h pid c

/-! ## Writers -/

/-- **A unit that a writer gets becomes a character.** -/
theorem Writes.output {r : Ttycblk × List TtyEvent} (hr : t.Writes r) (h : t.toOutput.Keeps q) :
    Follows q r := by
  have hroom := h.room
  cases hr with
  | @waits pid chs hw =>
    have hunits := Sema.wait_units t.tyosem pid
    rw [if_neg hw] at hunits
    refine ⟨q, rfl, ⟨h.head, h.tail, h.slots⟩, Sema.wait_ok h.osem pid, ?_⟩
    change (q.length : Int) + (t.tyosem.wait pid).2.units = _
    omega
  | @stores pid s ch chs hs =>
    have hunits := hs.units
    have hlen : q.length < TY_OBUFLEN := by
      have := hs.units_pos h.osem
      omega
    have hholds := h.toHolds.store hlen ch
    refine ⟨q ++ [ch], ?_, ⟨hholds.head, hholds.tail, hholds.slots⟩, hs.ok h.osem, ?_⟩
    · change (if q.length < TY_OBUFLEN then some (q ++ [ch]) else none) = _
      rw [if_pos hlen]
    · change _ + s.units = _
      rw [List.length_append, List.length_singleton, Nat.cast_add]
      omega

/-! ## The transmit interrupt -/

/-- The loop sends the oldest characters, as many as there are. -/
theorem sendOut_holds (n : Nat) (h : t.toOutput.Holds q) (hn : n ≤ q.length) :
    Machine.feed fifo q (t.sendOut n).2 = some (q.drop n) ∧
      (t.sendOut n).1.toOutput.Holds (q.drop n) ∧ (t.sendOut n).1.tyosem = t.tyosem := by
  induction n generalizing t q with
  | zero => exact ⟨rfl, h, rfl⟩
  | succ n ih =>
    cases q with
    | nil => exact absurd hn (Nat.not_succ_le_zero n)
    | cons c q =>
      have hfront := h.slots.front h.head
      have ⟨hfeed, hholds, hsem⟩ := ih (t := { t with tyohead := Ring.next TY_OBUFLEN t.tyohead })
        h.send (Nat.le_of_succ_le_succ hn)
      refine ⟨?_, hholds, hsem⟩
      unfold sendOut
      dsimp only
      rw [Machine.feed_append, Machine.feed_singleton]
      change (if c = t.tyobuff t.tyohead then some q else none).bind _ = _
      rw [if_pos hfront.symm]
      exact hfeed

/-- The echo queue goes first; the output queue is not touched. -/
theorem sendEcho_output (n : Nat) (t : Ttycblk) :
    (t.sendEcho n).2.1.toOutput = t.toOutput ∧ ∀ e ∈ (t.sendEcho n).2.2, ofInput e := by
  induction n generalizing t with
  | zero => exact ⟨rfl, fun e he => by cases he⟩
  | succ n ih =>
    unfold sendEcho
    by_cases he : t.tyehead ≠ t.tyetail
    · rw [if_pos he]
      obtain ⟨hout, hes⟩ := ih { t with tyehead := Ring.next TY_EBUFLEN t.tyehead }
      refine ⟨hout, ?_⟩
      intro e hmem
      rcases List.mem_append.mp hmem with hmem | hmem
      · exact hes e hmem
      · rw [List.mem_singleton.mp hmem]
        rfl
    · rw [if_neg he]
      exact ⟨rfl, fun e he => by cases he⟩

/-- A transmit interrupt that sends from the output queue finds a character
there: there are not all of the slots among the units of `tyosem`. -/
def Filled (t : Ttycblk) : Prop :=
  t.tyoheld ∨ t.tyehead ≠ t.tyetail ∨ t.tyosem.count ≥ TY_OBUFLEN ∨ t.tyosem.units < TY_OBUFLEN

/-- What the interrupt sends is stored. -/
theorem Filled.ochars_le (hf : t.Filled) (h : t.toOutput.Keeps q) (hheld : ¬ t.tyoheld) :
    (t.sendEcho UART_FIFO_SIZE).2.1.ochars (t.sendEcho UART_FIFO_SIZE).1 ≤ q.length := by
  have hout := (sendEcho_output UART_FIFO_SIZE t).1
  have hsem : (t.sendEcho UART_FIFO_SIZE).2.1.tyosem = t.tyosem := congrArg Output.tyosem hout
  have hroom := h.room
  unfold ochars
  rw [hsem]
  by_cases he : t.tyehead ≠ t.tyetail
  · -- one character of the echo queue fills the UART
    have hzero : (t.sendEcho UART_FIFO_SIZE).1 = 0 := by
      unfold UART_FIFO_SIZE sendEcho
      rw [if_pos he]
      rfl
    rw [hzero, Nat.zero_min]
    exact Nat.zero_le _
  · have hone : (t.sendEcho UART_FIFO_SIZE).1 = 1 := by
      unfold UART_FIFO_SIZE sendEcho
      rw [if_neg he]
    rw [hone]
    rcases hf with hf | hf | hf | hf
    · exact absurd hf hheld
    · exact absurd hf he
    · omega
    · omega

theorem ttyInter_out_follows (h : t.toOutput.Keeps q) (hf : t.Filled) :
    Follows q t.ttyInter_out := by
  unfold ttyInter_out
  by_cases hheld : t.tyoheld = true
  · rw [if_pos hheld]
    exact follows_input h rfl nofun
  rw [if_neg hheld]
  by_cases hidle : t.tyehead = t.tyetail ∧ t.tyosem.count ≥ TY_OBUFLEN
  · rw [if_pos hidle]
    exact follows_input h rfl nofun
  rw [if_neg hidle]
  have hle := hf.ochars_le h hheld
  obtain ⟨hout, hes⟩ := sendEcho_output UART_FIFO_SIZE t
  generalize t.sendEcho UART_FIFO_SIZE = r at hle hout hes ⊢
  obtain ⟨uspace, t₁, es₁⟩ := r
  dsimp only at hle hout hes ⊢
  have hkeeps : t₁.toOutput.Keeps q := hout ▸ h
  obtain ⟨hfeed, hholds, hsem⟩ := sendOut_holds (t₁.ochars uspace) hkeeps.toHolds hle
  refine ⟨_, ?_, ⟨hholds.head, hholds.tail, hholds.slots⟩, ?_, ?_⟩
  · rw [Machine.feed_append, feed_fifo_input hes]
    exact hfeed
  · change (Sema.signaln _ (t₁.sendOut (t₁.ochars uspace)).1.tyosem).Ok
    rw [hsem]
    exact Sema.signaln_ok hkeeps.osem _
  · change _ + (Sema.signaln _ (t₁.sendOut (t₁.ochars uspace)).1.tyosem).units = _
    have hroom := hkeeps.room
    rw [hsem, Sema.signaln_units hkeeps.osem, List.length_drop]
    omega

/-! ## Runs -/

/-- A step other than a transmit interrupt that finds nothing. -/
def Backed (t : Ttycblk) : TtyAct → Prop
  | .tx => t.Filled
  | _ => True

instance (t : Ttycblk) : ∀ a : TtyAct, Decidable (Backed t a)
  | .tx => inferInstanceAs (Decidable (_ ∨ _ ∨ _ ∨ _))
  | .rx .. | .reset | .setMode _ | .setEcho _ | .getc _ | .read .. | .readOn _ | .readWoken _
  | .putc .. | .putOn _ | .putWoken _ => inferInstanceAs (Decidable True)

theorem Started.keeps {opt : Options} (h : Started opt t) : t.toOutput.Keeps [] := by
  refine ⟨⟨?_, ?_, Ring.holds_nil⟩, ?_, ?_⟩
  · rw [h.ohead]
    decide
  · rw [h.otail, h.ohead]
    rfl
  · rw [h.osem]
    rfl
  · rw [h.osem]
    rfl

/-- **One step keeps the queue.** -/
theorem step_follows (h : t.toOutput.Keeps q) {a : TtyAct} (hok : Backed t a)
    (hst : t.step a = some (t', es)) : Follows q (t', es) := by
  cases a with
  | rx ch switched =>
    rw [step_rx] at hst
    cases hst
    have hacts := ttyInter_in_acts t ch switched
    refine follows_input h hacts.output ?_
    intro e he
    rcases List.mem_append.mp he with he | he
    · rw [hacts.events] at he
      exact act_ofInput _ _ _ e he
    · rw [List.mem_singleton.mp he]
      rfl
  | reset =>
    change (if t.resets = 0 then none else _) = _ at hst
    by_cases hr : t.resets = 0
    · rw [if_pos hr] at hst
      cases hst
    · rw [if_neg hr] at hst
      cases hst
      exact follows_input h rfl nofun
  | tx =>
    rw [← Option.some.inj hst]
    exact ttyInter_out_follows h hok
  | setMode m =>
    cases hst
    exact follows_input h rfl (by simp [ofInput])
  | setEcho b =>
    cases hst
    exact follows_input h rfl nofun
  | getc | read | readOn | readWoken => exact (step_reads rfl hst).output h
  | putc | putOn | putWoken => exact (step_writes rfl hst).output h

/-- The characters that the writers have stored are the ones that were sent, in
the order in which they were stored, and those in the queue; the queue is within
the ring. -/
def InOrder (tr : List TtyEvent) (t : Ttycblk) : Prop :=
  ∃ q, fifo.run tr = some q ∧ storedChars tr = sentChars tr ++ q ∧ t.toOutput.Keeps q

/-- **The UART gets the characters in the order in which they were stored, each
of them once**, in every run in which the transmit interrupt finds a character
whenever it sends one. -/
theorem output_fifo_without_slip {opt : Options} {tr : List TtyEvent}
    (r : (machine opt).Run Backed tr t) : InOrder tr t := by
  have hacc : ∃ q, fifo.run tr = some q ∧ t.toOutput.Keeps q := by
    refine r.accepted (R := fun q t => t.toOutput.Keeps q) ?_ ?_
    · intro t h
      exact h.keeps
    · intro q t t' a es h hok hst
      exact step_follows h hok hst
  obtain ⟨q, hq, hkeeps⟩ := hacc
  exact ⟨q, hq, storedChars_eq hq, hkeeps⟩

/-! ## A slow writer -/

theorem output_fifo_without_slip_two :
    ∃ tr t, (machine {}).exec Backed boot [] [.putc 1 97, .putc 2 98, .tx, .tx, .tx] =
      some (t, tr) ∧ sentChars tr = [97, 98] ∧ InOrder tr t := by
  have hrun : ((machine {}).exec Backed boot [] [.putc 1 97, .putc 2 98, .tx, .tx, .tx]).any
      (fun r => sentChars r.2 == [97, 98]) := by
    decide +kernel
  obtain ⟨⟨t, tr⟩, hst, hsent⟩ := (Option.any_eq_true _ _).mp hrun
  exact ⟨tr, t, hst, eq_of_beq hsent,
    output_fifo_without_slip (Machine.exec_run (.start boot_started) hst)⟩

/-- Process 1 fills the ring, process 2 waits, and the ring is sent, and one
character more, before process 2 runs. -/
def slowWriter : List TtyAct :=
  List.replicate TY_OBUFLEN (.putc 1 97) ++ .putc 2 98 :: List.replicate (TY_OBUFLEN + 1) .tx

/-- **The UART gets a character that no writer has stored**: the unit of a writer
that has been let go counts as a character. -/
theorem output_not_fifo :
    ¬ ∀ opt tr t, (machine opt).Run (fun _ _ => True) tr t → InOrder tr t := by
  intro hall
  have hrun : ((machine {}).exec (fun _ _ => True) boot [] slowWriter).any
      (fun r => (fifo.run r.2).isNone) := by
    decide +kernel
  obtain ⟨⟨t, tr⟩, hst, hrej⟩ := (Option.any_eq_true _ _).mp hrun
  obtain ⟨q, hq, -⟩ := hall {} tr t (Machine.exec_run (.start boot_started) hst)
  rw [hq] at hrej
  cases hrej

end Ttycblk

end Xinu.Tty
