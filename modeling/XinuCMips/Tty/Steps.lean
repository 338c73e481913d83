import XinuCMips.Tty.Device

/-!
# What the steps of a tty do

`ttyInter_in` decides from the mode, the options and the space in the buffer
what to do with a character. `key` is that decision, and `Input.act` what then
happens to the input queue; echoing touches neither queue. A reader or a writer
waits for a unit of its semaphore, or gets one and moves one character.

* `ttyInter_in_acts` — the handler does what `act` does for the `key`;
* `step_reads`       — the steps of readers;
* `step_writes`      — the steps of writers.
-/

namespace Xinu.Tty

/-- What `ttyInter_in` does with a character. -/
inductive Key where
  /-- Flow control, and an erase at the start of a line. -/
  | none
  /-- There is no room: the character is dropped. -/
  | full
  /-- An EOF character within a line. -/
  | ignored
  /-- In raw mode: stored, and made available by itself. -/
  | single (ch : UInt8)
  /-- In cbreak mode: stored. -/
  | hidden (ch : UInt8)
  | kill
  | erase
  | newline (ch : UInt8)
  | eof (ch : UInt8)
  /-- A character of the line. -/
  | char (ch : UInt8)
  deriving DecidableEq, Repr

/-- What becomes of the input queue. -/
def Input.act (switched : Bool) (t : Input) : Key → Input × List TtyEvent
  | .none | .full | .ignored => (t, [])
  | .single ch =>
    let t := (t.put ch).wrapTail TY_IBUFLEN
    ({ t with tyisem := t.tyisem.signal }, [.avail 1, .put ch])
  | .hidden ch => ((t.put ch).wrapTail TY_IBUFLEN, [.put ch])
  | .kill =>
    let tail := t.tyitail - t.tyicursor
    ({ t with
        tyitail := tail
        tyihead := if tail < 0 then t.tyihead + TY_IBUFLEN else t.tyihead
        tyicursor := 0
        unread := t.unread - t.tyicursor }, [.rub t.tyicursor])
  | .erase =>
    let tail := t.tyitail - 1
    ({ t with
        tyitail := if tail < 0 then tail + TY_IBUFLEN else tail
        tyicursor := t.tyicursor - 1
        unread := t.unread - 1 }, [.rub 1])
  | .newline ch =>
    let n := t.tyicursor + 1
    let t := (t.put ch).wrapTail TY_IBUFLEN
    let t := { t with tyisem := t.tyisem.signaln n }
    (if switched then { t with resets := t.resets + 1 } else { t with tyicursor := 0 },
      [.avail n, .put ch])
  | .eof ch =>
    let t := t.put ch
    ({ t with tyisem := t.tyisem.signal }, [.avail 1, .put ch])
  | .char ch =>
    let t := { t with tyicursor := t.tyicursor + 1 }
    ((t.put ch).wrapTail TY_IBUFLEN, [.put ch])

namespace Ttycblk

/-- The decision of the cooked mode. -/
def cookedKey (ch : UInt8) (t : Ttycblk) : Key :=
  if ch = t.opt.tyikillc ∧ t.opt.tyikill then .kill
  else if ch = t.opt.tyierasec ∧ t.opt.tyierase then
    if t.tyicursor > 0 then .erase else .none
  else if ch = TY_NEWLINE ∨ ch = TY_RETURN then .newline ch
  else if t.availOf + t.tyicursor ≥ TY_IBUFLEN - 1 then .full
  else if ch = t.opt.tyeofch ∧ t.opt.tyeof then if t.tyicursor ≠ 0 then .ignored else .eof ch
  else .char ch

/-- With `tyicrlf` a return is taken for a newline. -/
def mapped (ch : UInt8) (opt : Options) : UInt8 :=
  if ch = TY_RETURN ∧ opt.tyicrlf then TY_NEWLINE else ch

/-- The characters of the flow control. -/
def flow (ch : UInt8) (opt : Options) : Bool :=
  opt.tyoflow ∧ (ch = opt.tyostart ∨ ch = opt.tyostop)

def key (ch : UInt8) (t : Ttycblk) : Key :=
  if t.tyimode = .RAW then if t.availOf ≥ TY_IBUFLEN then .full else .single ch
  else if flow (mapped ch t.opt) t.opt then .none
  else if t.tyimode = .CBREAK then
    if t.availOf ≥ TY_IBUFLEN then .full else .hidden (mapped ch t.opt)
  else t.cookedKey (mapped ch t.opt)

variable {t : Ttycblk} {ch : UInt8} {switched : Bool}

/-! ## Echoing -/

/-- `t'` is `t` but for its echo queue. -/
structure Echoed (t t' : Ttycblk) : Prop where
  input : t'.toInput = t.toInput
  output : t'.toOutput = t.toOutput
  opt : t'.opt = t.opt

theorem Echoed.refl (t : Ttycblk) : t.Echoed t := ⟨rfl, rfl, rfl⟩

theorem Echoed.eputc {t' : Ttycblk} (h : t.Echoed t') (ch : UInt8) : t.Echoed (t'.eputc ch) :=
  ⟨h.input, h.output, h.opt⟩

theorem backspace_echoed {t' : Ttycblk} (h : t.Echoed t') : t.Echoed t'.backspace := by
  unfold backspace
  dsimp only
  by_cases hb : (t'.eputc TY_BACKSP).opt.tyieback = true
  · rw [if_pos hb]
    exact ((h.eputc _).eputc _).eputc _
  · rw [if_neg hb]
    exact h.eputc _

theorem echo_echoed (t : Ttycblk) (ch : UInt8) : t.Echoed (t.echo ch) := by
  have hr := Echoed.refl t
  unfold echo
  by_cases he : t.tyiecho = true
  · rw [if_pos he]
    unfold echoch
    by_cases hn : (ch = TY_NEWLINE ∨ ch = TY_RETURN) ∧ t.opt.tyecrlf
    · rw [if_pos hn]
      exact (hr.eputc _).eputc _
    · rw [if_neg hn]
      by_cases hu : unprintable ch ∧ t.opt.tyevis
      · rw [if_pos hu]
        exact (hr.eputc _).eputc _
      · rw [if_neg hu]
        exact hr.eputc _
  · rw [if_neg he]
    exact hr

/-- `erase1` takes a character back, and echoes. -/
theorem erase1_echoed (t : Ttycblk) :
    let tail := t.tyitail - 1
    Echoed { t with tyitail := if tail < 0 then tail + TY_IBUFLEN else tail, unread := t.unread - 1 }
      t.erase1 := by
  have hr := Echoed.refl { t with
    tyitail := if t.tyitail - 1 < 0 then t.tyitail - 1 + TY_IBUFLEN else t.tyitail - 1
    unread := t.unread - 1 }
  unfold erase1
  dsimp only at hr ⊢
  by_cases he : t.tyiecho = true
  · rw [if_pos he]
    by_cases hu : unprintable (t.tyibuff
        (if t.tyitail - 1 < 0 then t.tyitail - 1 + TY_IBUFLEN else t.tyitail - 1)) = true
    · rw [if_pos hu]
      by_cases hv : t.opt.tyevis = true
      · rw [if_pos hv]
        exact backspace_echoed (backspace_echoed hr)
      · rw [if_neg hv]
        exact backspace_echoed hr
    · rw [if_neg hu]
      exact backspace_echoed hr
  · rw [if_neg he]
    exact hr

/-! ## The handler -/

/-- The state and the events are those of `act`, but for echoing. -/
structure Acts (t : Ttycblk) (k : Key) (switched : Bool) (r : Ttycblk × List TtyEvent) : Prop where
  input : r.1.toInput = (t.toInput.act switched k).1
  events : r.2 = (t.toInput.act switched k).2
  output : r.1.toOutput = t.toOutput
  opt : r.1.opt = t.opt

theorem Echoed.acts {t' : Ttycblk} {k : Key} (h : t.Echoed t')
    (hk : t.toInput.act switched k = (t.toInput, [])) : Acts t k switched (t', []) := by
  refine ⟨?_, ?_, h.output, h.opt⟩
  · rw [hk]
    exact h.input
  · rw [hk]

theorem cooked_acts (t : Ttycblk) (ch : UInt8) (switched : Bool) :
    Acts t (t.cookedKey ch) switched (t.cooked ch switched) := by
  have he := echo_echoed t ch
  unfold cooked cookedKey
  by_cases hk : ch = t.opt.tyikillc ∧ t.opt.tyikill
  · rw [if_pos hk, if_pos hk]
    exact ⟨rfl, rfl, rfl, rfl⟩
  rw [if_neg hk, if_neg hk]
  by_cases her : ch = t.opt.tyierasec ∧ t.opt.tyierase
  · rw [if_pos her, if_pos her]
    by_cases hc : t.tyicursor > 0
    · rw [if_pos hc, if_pos hc]
      have h := erase1_echoed { t with tyicursor := t.tyicursor - 1 }
      exact ⟨h.input, rfl, h.output, h.opt⟩
    · rw [if_neg hc, if_neg hc]
      exact (Echoed.refl t).acts rfl
  rw [if_neg her, if_neg her]
  by_cases hn : ch = TY_NEWLINE ∨ ch = TY_RETURN
  · rw [if_pos hn, if_pos hn]
    cases switched with
    | false =>
      refine ⟨?_, rfl, he.output, he.opt⟩
      simp [put, wrapTail, Input.act, he.input]
    | true =>
      refine ⟨?_, rfl, he.output, he.opt⟩
      simp [put, wrapTail, Input.act, he.input]
  rw [if_neg hn, if_neg hn]
  by_cases hf : t.availOf + t.tyicursor ≥ TY_IBUFLEN - 1
  · rw [if_pos hf, if_pos hf]
    exact ((Echoed.refl t).eputc _).acts rfl
  rw [if_neg hf, if_neg hf]
  by_cases heof : ch = t.opt.tyeofch ∧ t.opt.tyeof
  · rw [if_pos heof, if_pos heof]
    have hcur : (t.echo ch).tyicursor = t.tyicursor := congrArg Input.tyicursor he.input
    dsimp only
    rw [hcur]
    by_cases hc : t.tyicursor ≠ 0
    · rw [if_pos hc, if_pos hc]
      exact he.acts rfl
    · rw [if_neg hc, if_neg hc]
      refine ⟨?_, rfl, he.output, he.opt⟩
      simp [put, Input.act, he.input]
  · rw [if_neg heof, if_neg heof]
    refine ⟨?_, rfl, he.output, he.opt⟩
    simp [put, wrapTail, Input.act, he.input]

/-- **`ttyInter_in` does what `act` does for the key.** -/
theorem ttyInter_in_acts (t : Ttycblk) (ch : UInt8) (switched : Bool) :
    Acts t (t.key ch) switched (t.ttyInter_in ch switched) := by
  unfold ttyInter_in key
  by_cases hraw : t.tyimode = .RAW
  · rw [if_pos hraw, if_pos hraw]
    by_cases hf : t.availOf ≥ (TY_IBUFLEN : Int)
    · rw [if_pos hf, if_pos hf]
      exact (Echoed.refl t).acts rfl
    · rw [if_neg hf, if_neg hf]
      exact ⟨rfl, rfl, rfl, rfl⟩
  rw [if_neg hraw, if_neg hraw]
  dsimp only
  change Acts t _ switched (if t.opt.tyoflow ∧ mapped ch t.opt = t.opt.tyostart then _ else _)
  unfold flow
  by_cases hstart : t.opt.tyoflow ∧ mapped ch t.opt = t.opt.tyostart
  · rw [if_pos hstart, if_pos (by simp [hstart])]
    exact ⟨rfl, rfl, rfl, rfl⟩
  rw [if_neg hstart]
  change Acts t _ switched (if t.opt.tyoflow ∧ mapped ch t.opt = t.opt.tyostop then _ else _)
  by_cases hstop : t.opt.tyoflow ∧ mapped ch t.opt = t.opt.tyostop
  · rw [if_pos hstop, if_pos (by simp [hstop])]
    exact ⟨rfl, rfl, rfl, rfl⟩
  rw [if_neg hstop, if_neg (by
    rw [decide_eq_true_eq]
    rintro ⟨ho, hs | hs⟩
    · exact hstart ⟨ho, hs⟩
    · exact hstop ⟨ho, hs⟩)]
  by_cases hcb : t.tyimode = .CBREAK
  · rw [if_pos hcb, if_pos hcb]
    change Acts t _ switched (if t.availOf ≥ (TY_IBUFLEN : Int) then _ else _)
    by_cases hf : t.availOf ≥ (TY_IBUFLEN : Int)
    · rw [if_pos hf, if_pos hf]
      exact ⟨rfl, rfl, rfl, rfl⟩
    · rw [if_neg hf, if_neg hf]
      have he := echo_echoed ((({ t with tyoheld := false }).put (mapped ch t.opt)).wrapTail TY_IBUFLEN)
        (mapped ch t.opt)
      exact ⟨he.input, rfl, he.output, he.opt⟩
  · rw [if_neg hcb, if_neg hcb]
    have h := cooked_acts { t with tyoheld := false } (mapped ch t.opt) switched
    exact ⟨h.input, h.events, h.output, h.opt⟩

/-! ## Keys and the cursor -/

/-- What a key says about the cursor. -/
def Cursor (t : Input) : Key → Prop
  | .erase => 0 < t.tyicursor
  | .eof _ => t.tyicursor = 0
  | _ => True

theorem cookedKey_cursor (t : Ttycblk) (ch : UInt8) : Cursor t.toInput (t.cookedKey ch) := by
  unfold cookedKey
  by_cases hk : ch = t.opt.tyikillc ∧ t.opt.tyikill
  · rw [if_pos hk]
    trivial
  rw [if_neg hk]
  by_cases her : ch = t.opt.tyierasec ∧ t.opt.tyierase
  · rw [if_pos her]
    by_cases hc : t.tyicursor > 0
    · rw [if_pos hc]
      exact hc
    · rw [if_neg hc]
      trivial
  rw [if_neg her]
  by_cases hn : ch = TY_NEWLINE ∨ ch = TY_RETURN
  · rw [if_pos hn]
    trivial
  rw [if_neg hn]
  by_cases hf : t.availOf + t.tyicursor ≥ TY_IBUFLEN - 1
  · rw [if_pos hf]
    trivial
  rw [if_neg hf]
  by_cases heof : ch = t.opt.tyeofch ∧ t.opt.tyeof
  · rw [if_pos heof]
    by_cases hc : t.tyicursor ≠ 0
    · rw [if_pos hc]
      trivial
    · rw [if_neg hc]
      exact not_not.mp hc
  · rw [if_neg heof]
    trivial

theorem key_cursor (t : Ttycblk) (ch : UInt8) : Cursor t.toInput (t.key ch) := by
  unfold key
  by_cases hraw : t.tyimode = .RAW
  · rw [if_pos hraw]
    by_cases hf : t.availOf ≥ TY_IBUFLEN
    · rw [if_pos hf]
      trivial
    · rw [if_neg hf]
      trivial
  rw [if_neg hraw]
  by_cases hflow : flow (mapped ch t.opt) t.opt
  · rw [if_pos hflow]
    trivial
  rw [if_neg hflow]
  by_cases hcb : t.tyimode = .CBREAK
  · rw [if_pos hcb]
    by_cases hf : t.availOf ≥ TY_IBUFLEN
    · rw [if_pos hf]
      trivial
    · rw [if_neg hf]
      trivial
  · rw [if_neg hcb]
    exact cookedKey_cursor t _

theorem step_rx (t : Ttycblk) (ch : UInt8) (switched : Bool) :
    t.step (.rx ch switched) =
      some ((t.ttyInter_in ch switched).1, (t.ttyInter_in ch switched).2 ++ [.rx ch]) := rfl

/-! ## Readers and writers -/

/-- The call of a reader that tries to get a character. -/
def reading (t : Ttycblk) : TtyAct → Option (Pid × ReadCall)
  | .getc pid => if (t.readers pid).isNone then some (pid, .getc) else none
  | .read pid count =>
    if (t.readers pid).isNone ∧ 0 ≤ count then
      if t.tyimode ≠ .COOKED then
        let count := if count = 0 then t.tyisem.count else count
        if count ≤ 0 then none else some (pid, .chars count [])
      else some (pid, .first count)
    else none
  | .readOn pid | .readWoken pid => (t.readers pid).map (pid, ·)
  | _ => none

/-- What a reader does in a step. -/
inductive Reads (t : Ttycblk) (a : TtyAct) : Ttycblk × List TtyEvent → Prop
  | idle (pid : Pid) (v : Int) : Reads t a (t, [.noRead pid v])
  | waits {pid : Pid} {c : ReadCall} (hc : t.reading a = some (pid, c))
      (hw : ¬ (t.tyisem.wait pid).1) :
      Reads t a ({ t with
        tyisem := (t.tyisem.wait pid).2
        readers := Function.update t.readers pid (some c) }, [])
  | takes {pid : Pid} {c : ReadCall} {s : Sema} (hc : t.reading a = some (pid, c))
      (hs : t.tyisem.Takes pid s) : Reads t a ({ t with tyisem := s }.take pid c)

variable {a : TtyAct} {r : Ttycblk × List TtyEvent}

theorem getc_reads {pid : Pid} {c : ReadCall} (hc : t.reading a = some (pid, c)) :
    t.Reads a (t.getc pid c) := by
  unfold getc
  dsimp only
  by_cases hw : (t.tyisem.wait pid).1 = true
  · rw [if_pos hw]
    exact .takes hc (.wait hw)
  · rw [if_neg hw]
    exact .waits hc hw

theorem ttyRead_reads {pid : Pid} (hn : (t.readers pid).isNone) (count : Int) :
    t.Reads (.read pid count) (t.ttyRead pid count) := by
  unfold ttyRead
  by_cases hneg : count < 0
  · rw [if_pos hneg]
    exact .idle pid SYSERR
  rw [if_neg hneg]
  have hin : (t.readers pid).isNone ∧ 0 ≤ count := ⟨hn, not_lt.mp hneg⟩
  by_cases hm : t.tyimode ≠ .COOKED
  · rw [if_pos hm]
    dsimp only
    by_cases hz : (if count = 0 then t.tyisem.count else count) ≤ 0
    · rw [if_pos hz]
      exact .idle pid 0
    · rw [if_neg hz]
      refine getc_reads ?_
      change (if (t.readers pid).isNone ∧ 0 ≤ count then _ else _) = _
      rw [if_pos hin, if_pos hm]
      exact if_neg hz
  · rw [if_neg hm]
    refine getc_reads ?_
    change (if (t.readers pid).isNone ∧ 0 ≤ count then _ else _) = _
    rw [if_pos hin, if_neg hm]

/-- The actions of readers. -/
def reads : TtyAct → Bool
  | .getc _ | .read .. | .readOn _ | .readWoken _ => true
  | _ => false

/-- **A reader waits, or takes a character.** -/
theorem step_reads (ha : reads a) (hst : t.step a = some r) : t.Reads a r := by
  cases a with
  | getc pid =>
    change (if (t.readers pid).isNone then _ else _) = _ at hst
    by_cases hn : (t.readers pid).isNone
    · rw [if_pos hn] at hst
      rw [← Option.some.inj hst]
      exact getc_reads (if_pos hn)
    · rw [if_neg hn] at hst
      cases hst
  | read pid count =>
    change (if (t.readers pid).isNone then _ else _) = _ at hst
    by_cases hn : (t.readers pid).isNone
    · rw [if_pos hn] at hst
      rw [← Option.some.inj hst]
      exact ttyRead_reads hn count
    · rw [if_neg hn] at hst
      cases hst
  | readOn pid =>
    cases hc : t.readers pid with
    | none =>
      simp only [step, hc] at hst
      cases hst
    | some c =>
      simp only [step, hc] at hst
      by_cases hs : stopped t.tyisem pid = true
      · rw [if_pos hs] at hst
        cases hst
      · rw [if_neg hs] at hst
        rw [← Option.some.inj hst]
        exact getc_reads (by simp [reading, hc])
  | readWoken pid =>
    cases hc : t.readers pid with
    | none =>
      simp only [step, hc] at hst
      cases hst
    | some c =>
      simp only [step, hc] at hst
      by_cases hp : pid ∈ t.tyisem.released
      · rw [if_pos hp] at hst
        rw [← Option.some.inj hst]
        exact .takes (by simp [reading, hc]) (.resume hp)
      · rw [if_neg hp] at hst
        cases hst
  | rx | reset | tx | setMode | setEcho | putc | putOn | putWoken => cases ha

/-- What a writer does in a step. -/
inductive Writes (t : Ttycblk) : Ttycblk × List TtyEvent → Prop
  | waits {pid : Pid} (chs : List UInt8) (hw : ¬ (t.tyosem.wait pid).1) :
      Writes t ({ t with
        tyosem := (t.tyosem.wait pid).2
        writers := Function.update t.writers pid chs }, [])
  | stores {pid : Pid} {s : Sema} (ch : UInt8) (chs : List UInt8) (hs : t.tyosem.Takes pid s) :
      Writes t ({ t with tyosem := s }.stored pid (ch :: chs))

theorem putc_writes {pid : Pid} {chs : List UInt8} (hchs : chs ≠ []) : t.Writes (t.putc pid chs) := by
  unfold putc
  dsimp only
  by_cases hw : (t.tyosem.wait pid).1 = true
  · rw [if_pos hw]
    obtain ⟨ch, chs, rfl⟩ := List.exists_cons_of_ne_nil hchs
    exact .stores ch chs (.wait hw)
  · rw [if_neg hw]
    exact .waits chs hw

/-- The actions of writers. -/
def writes : TtyAct → Bool
  | .putc .. | .putOn _ | .putWoken _ => true
  | _ => false

/-- **A writer waits, or stores a character.** -/
theorem step_writes (ha : writes a) (hst : t.step a = some r) : t.Writes r := by
  cases a with
  | putc pid ch =>
    change (if t.writers pid = [] then _ else _) = _ at hst
    by_cases hn : t.writers pid = []
    · rw [if_pos hn] at hst
      rw [← Option.some.inj hst]
      refine putc_writes ?_
      unfold putcChars
      by_cases hcr : ch = TY_NEWLINE ∧ t.opt.tyocrlf
      · rw [if_pos hcr]
        exact List.cons_ne_nil _ _
      · rw [if_neg hcr]
        exact List.cons_ne_nil _ _
    · rw [if_neg hn] at hst
      cases hst
  | putOn pid =>
    change (if t.writers pid = [] ∨ stopped t.tyosem pid then _ else _) = _ at hst
    by_cases hn : t.writers pid = [] ∨ stopped t.tyosem pid
    · rw [if_pos hn] at hst
      cases hst
    · rw [if_neg hn] at hst
      rw [← Option.some.inj hst]
      exact putc_writes fun hnil => hn (.inl hnil)
  | putWoken pid =>
    change (if t.writers pid ≠ [] ∧ pid ∈ t.tyosem.released then _ else _) = _ at hst
    by_cases hn : t.writers pid ≠ [] ∧ pid ∈ t.tyosem.released
    · rw [if_pos hn] at hst
      rw [← Option.some.inj hst]
      obtain ⟨ch, chs, hchs⟩ := List.exists_cons_of_ne_nil hn.1
      rw [hchs]
      exact .stores ch chs (.resume hn.2)
    · rw [if_neg hn] at hst
      cases hst
  | rx | reset | tx | setMode | setEcho | getc | read | readOn | readWoken => cases ha

/-! ## What the output side leaves alone -/

/-- The events of the output side. -/
def ofOutput : TtyEvent → Bool
  | .stored _ | .sent _ | .echoed _ => true
  | _ => false

/-- A step of the output side. -/
def OutputOnly (t : Ttycblk) (r : Ttycblk × List TtyEvent) : Prop :=
  r.1.toInput = t.toInput ∧ r.1.opt = t.opt ∧ ∀ e ∈ r.2, ofOutput e

theorem Writes.outputOnly (h : t.Writes r) : t.OutputOnly r := by
  cases h with
  | waits chs hw => exact ⟨rfl, rfl, nofun⟩
  | stores ch chs hs => exact ⟨rfl, rfl, by simp [stored, store, ofOutput]⟩

theorem sendEcho_outputOnly (n : Nat) (t : Ttycblk) : t.OutputOnly (t.sendEcho n).2 := by
  induction n generalizing t with
  | zero => exact ⟨rfl, rfl, nofun⟩
  | succ n ih =>
    unfold sendEcho
    by_cases he : t.tyehead ≠ t.tyetail
    · rw [if_pos he]
      obtain ⟨hin, hopt, hes⟩ := ih { t with tyehead := Ring.next TY_EBUFLEN t.tyehead }
      refine ⟨hin, hopt, ?_⟩
      intro e hmem
      rcases List.mem_append.mp hmem with hmem | hmem
      · exact hes e hmem
      · rw [List.mem_singleton.mp hmem]
        rfl
    · rw [if_neg he]
      exact ⟨rfl, rfl, nofun⟩

theorem sendOut_outputOnly (n : Nat) (t : Ttycblk) : t.OutputOnly (t.sendOut n) := by
  induction n generalizing t with
  | zero => exact ⟨rfl, rfl, nofun⟩
  | succ n ih =>
    obtain ⟨hin, hopt, hes⟩ := ih { t with tyohead := Ring.next TY_OBUFLEN t.tyohead }
    refine ⟨hin, hopt, ?_⟩
    intro e hmem
    rcases List.mem_append.mp hmem with hmem | hmem
    · exact hes e hmem
    · rw [List.mem_singleton.mp hmem]
      rfl

theorem ttyInter_out_outputOnly (t : Ttycblk) : t.OutputOnly t.ttyInter_out := by
  unfold ttyInter_out
  by_cases hheld : t.tyoheld = true
  · rw [if_pos hheld]
    exact ⟨rfl, rfl, nofun⟩
  rw [if_neg hheld]
  by_cases hidle : t.tyehead = t.tyetail ∧ t.tyosem.count ≥ TY_OBUFLEN
  · rw [if_pos hidle]
    exact ⟨rfl, rfl, nofun⟩
  rw [if_neg hidle]
  have hecho := sendEcho_outputOnly UART_FIFO_SIZE t
  generalize t.sendEcho UART_FIFO_SIZE = e at hecho ⊢
  obtain ⟨uspace, t₁, es₁⟩ := e
  obtain ⟨hin₁, hopt₁, hes₁⟩ := hecho
  obtain ⟨hin, hopt, hes⟩ := sendOut_outputOnly (t₁.ochars uspace) t₁
  refine ⟨hin.trans hin₁, hopt.trans hopt₁, ?_⟩
  intro e hmem
  rcases List.mem_append.mp hmem with hmem | hmem
  · exact hes e hmem
  · exact hes₁ e hmem

end Ttycblk

end Xinu.Tty
