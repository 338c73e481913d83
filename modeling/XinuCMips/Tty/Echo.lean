import XinuCMips.Tty.Steps

/-!
# The echo queue of a tty

Every character that arrives may put up to six characters into the echo queue, and only
the transmit interrupt takes them out. `eputc` does not look whether there is room: an
empty ring and a full one look the same, and one character more is stored over the oldest.

`group` is what the handler queues for one character.

* `ttyInter_in_queued`   — the handler queues the group;
* `echo_kept_with_room`  — as long as every group finds room, the characters are echoed
  in order, group by group;
* `echo_not_kept`        — thirty-three characters without an interrupt.
-/

namespace Xinu.Tty

namespace Echo

/-- `eputc`. -/
def eputc (ch : UInt8) (e : Echo) : Echo :=
  { e with
    tyebuff := Function.update e.tyebuff e.tyetail ch
    tyetail := Ring.next TY_EBUFLEN e.tyetail }

/-- `eputc` for each of these characters. -/
def eputs (chs : List UInt8) (e : Echo) : Echo := chs.foldl (fun e ch => e.eputc ch) e

/-- The characters that are pending, as far as the pointers tell. -/
def pending (e : Echo) : Nat := (e.tyetail + (TY_EBUFLEN - e.tyehead)) % TY_EBUFLEN

end Echo

-- ---------------------------------------------------------------------------
-- What is queued for a character
-- ---------------------------------------------------------------------------

/-- The characters of `echoch`. -/
def echochars (opt : Options) (ch : UInt8) : List UInt8 :=
  if (ch = TY_NEWLINE ∨ ch = TY_RETURN) ∧ opt.tyecrlf then [TY_RETURN, TY_NEWLINE]
  else if Ttycblk.unprintable ch ∧ opt.tyevis then [TY_UPARROW, ch + 0o100]
  else [ch]

/-- The characters of `erase1` for one place on the screen. -/
def backchars (opt : Options) : List UInt8 :=
  if opt.tyieback then [TY_BACKSP, TY_BLANK, TY_BACKSP] else [TY_BACKSP]

/-- The characters of `erase1`: a control character may be shown in two places. -/
def erasechars (opt : Options) (ch : UInt8) : List UInt8 :=
  if Ttycblk.unprintable ch ∧ opt.tyevis then backchars opt ++ backchars opt else backchars opt

namespace Ttycblk

/-- The character that `erase1` takes back. -/
def erased (t : Ttycblk) : UInt8 :=
  t.tyibuff (if t.tyitail - 1 < 0 then t.tyitail - 1 + TY_IBUFLEN else t.tyitail - 1)

/-- What the handler queues when it has decided what to do with `ch`. -/
def groupOf (ch : UInt8) (t : Ttycblk) : Key → List UInt8
  | .none | .single _ => []
  | .full => if t.tyimode = .RAW then [] else [t.opt.tyifullc]
  | .kill => [TY_RETURN, TY_NEWLINE]
  | .erase => if t.tyiecho then erasechars t.opt t.erased else []
  | .ignored | .hidden _ | .newline _ | .eof _ | .char _ =>
    if t.tyiecho then echochars t.opt ch else []

/-- What `ttyInter_in` queues for a character. -/
def group (ch : UInt8) (t : Ttycblk) : List UInt8 := t.groupOf (mapped ch t.opt) (t.key ch)

variable {t t' : Ttycblk} {ch : UInt8} {switched : Bool}

theorem echo_eputs (t : Ttycblk) (ch : UInt8) :
    (t.echo ch).toEcho = t.toEcho.eputs (if t.tyiecho then echochars t.opt ch else []) := by
  unfold echo
  by_cases he : t.tyiecho = true
  · rw [if_pos he, if_pos he]
    unfold echoch echochars
    by_cases hn : (ch = TY_NEWLINE ∨ ch = TY_RETURN) ∧ t.opt.tyecrlf
    · rw [if_pos hn, if_pos hn]
      rfl
    · rw [if_neg hn, if_neg hn]
      by_cases hu : unprintable ch ∧ t.opt.tyevis
      · rw [if_pos hu, if_pos hu]
        rfl
      · rw [if_neg hu, if_neg hu]
        rfl
  · rw [if_neg he, if_neg he]
    rfl

theorem backspace_eputs (t : Ttycblk) :
    t.backspace.toEcho = t.toEcho.eputs (backchars t.opt) ∧ t.backspace.opt = t.opt := by
  unfold backspace backchars
  dsimp only
  by_cases hb : t.opt.tyieback = true
  · have hb' : (t.eputc TY_BACKSP).opt.tyieback = true := hb
    rw [if_pos hb', if_pos hb]
    exact ⟨rfl, rfl⟩
  · have hb' : ¬(t.eputc TY_BACKSP).opt.tyieback = true := hb
    rw [if_neg hb', if_neg hb]
    exact ⟨rfl, rfl⟩

theorem erase1_eputs (t : Ttycblk) :
    t.erase1.toEcho = t.toEcho.eputs (if t.tyiecho then erasechars t.opt t.erased else []) := by
  unfold erase1 erased
  dsimp only
  -- where the character stands does not matter here
  generalize (if t.tyitail - 1 < 0 then t.tyitail - 1 + (TY_IBUFLEN : Int) else t.tyitail - 1) = tail
  by_cases he : t.tyiecho = true
  · rw [if_pos he, if_pos he]
    unfold erasechars
    by_cases hu : unprintable (t.tyibuff tail) = true
    · rw [if_pos hu]
      by_cases hv : t.opt.tyevis = true
      · rw [if_pos hv, if_pos ⟨hu, hv⟩, (backspace_eputs _).1, (backspace_eputs _).1,
          (backspace_eputs _).2]
        exact (List.foldl_append ..).symm
      · rw [if_neg hv, if_neg fun h => hv h.2]
        exact (backspace_eputs _).1
    · rw [if_neg hu, if_neg fun h => hu h.1]
      exact (backspace_eputs _).1
  · rw [if_neg he, if_neg he]
    rfl

theorem cooked_eputs (ch : UInt8) (switched : Bool) (hraw : t.tyimode ≠ .RAW) :
    (t.cooked ch switched).1.toEcho = t.toEcho.eputs (t.groupOf ch (t.cookedKey ch)) := by
  have he := echo_eputs t ch
  unfold cooked cookedKey
  by_cases hk : ch = t.opt.tyikillc ∧ t.opt.tyikill
  · rw [if_pos hk, if_pos hk]
    rfl
  rw [if_neg hk, if_neg hk]
  by_cases her : ch = t.opt.tyierasec ∧ t.opt.tyierase
  · rw [if_pos her, if_pos her]
    by_cases hc : t.tyicursor > 0
    · rw [if_pos hc, if_pos hc]
      exact erase1_eputs { t with tyicursor := t.tyicursor - 1 }
    · rw [if_neg hc, if_neg hc]
      rfl
  rw [if_neg her, if_neg her]
  by_cases hn : ch = TY_NEWLINE ∨ ch = TY_RETURN
  · rw [if_pos hn, if_pos hn]
    cases switched with
    | false => exact he
    | true => exact he
  rw [if_neg hn, if_neg hn]
  by_cases hf : t.availOf + t.tyicursor ≥ TY_IBUFLEN - 1
  · rw [if_pos hf, if_pos hf]
    unfold groupOf
    rw [if_neg hraw]
    rfl
  rw [if_neg hf, if_neg hf]
  by_cases heof : ch = t.opt.tyeofch ∧ t.opt.tyeof
  · rw [if_pos heof, if_pos heof]
    have hcur : (t.echo ch).tyicursor = t.tyicursor :=
      congrArg Input.tyicursor (echo_echoed t ch).input
    dsimp only
    rw [hcur]
    by_cases hc : t.tyicursor ≠ 0
    · rw [if_pos hc, if_pos hc]
      exact he
    · rw [if_neg hc, if_neg hc]
      exact he
  · rw [if_neg heof, if_neg heof]
    exact he

theorem eputs_held (chs : List UInt8) (held : Bool) (e : Echo) :
    Echo.eputs chs { e with tyoheld := held } = { e.eputs chs with tyoheld := held } := by
  induction chs generalizing e with
  | nil => rfl
  | cons ch chs ih => exact ih (e.eputc ch)

/-- These characters have been queued. Output may be held or not. -/
def Queued (t : Ttycblk) (chs : List UInt8) (r : Ttycblk × List TtyEvent) : Prop :=
  ∃ held, r.1.toEcho = { t.toEcho.eputs chs with tyoheld := held }

/-- **The handler queues the group.** -/
theorem ttyInter_in_queued (t : Ttycblk) (ch : UInt8) (switched : Bool) :
    Queued t (t.group ch) (t.ttyInter_in ch switched) := by
  unfold ttyInter_in group key
  by_cases hraw : t.tyimode = .RAW
  · rw [if_pos hraw, if_pos hraw]
    by_cases hf : t.availOf ≥ (TY_IBUFLEN : Int)
    · rw [if_pos hf, if_pos hf]
      unfold groupOf
      rw [if_pos hraw]
      exact ⟨t.tyoheld, rfl⟩
    · rw [if_neg hf, if_neg hf]
      exact ⟨t.tyoheld, rfl⟩
  rw [if_neg hraw, if_neg hraw]
  dsimp only
  change Queued t _ (if t.opt.tyoflow ∧ mapped ch t.opt = t.opt.tyostart then _ else _)
  unfold flow
  by_cases hstart : t.opt.tyoflow ∧ mapped ch t.opt = t.opt.tyostart
  · rw [if_pos hstart, if_pos (by simp [hstart])]
    exact ⟨false, rfl⟩
  rw [if_neg hstart]
  change Queued t _ (if t.opt.tyoflow ∧ mapped ch t.opt = t.opt.tyostop then _ else _)
  by_cases hstop : t.opt.tyoflow ∧ mapped ch t.opt = t.opt.tyostop
  · rw [if_pos hstop, if_pos (by simp [hstop])]
    exact ⟨true, rfl⟩
  rw [if_neg hstop, if_neg (by
    rw [decide_eq_true_eq]
    rintro ⟨ho, hs | hs⟩
    · exact hstart ⟨ho, hs⟩
    · exact hstop ⟨ho, hs⟩)]
  by_cases hcb : t.tyimode = .CBREAK
  · rw [if_pos hcb, if_pos hcb]
    change Queued t _ (if t.availOf ≥ (TY_IBUFLEN : Int) then _ else _)
    by_cases hf : t.availOf ≥ (TY_IBUFLEN : Int)
    · rw [if_pos hf, if_pos hf]
      unfold groupOf
      rw [if_neg hraw]
      exact ⟨false, rfl⟩
    · rw [if_neg hf, if_neg hf]
      refine ⟨false, ?_⟩
      rw [← eputs_held]
      exact echo_eputs ((({ t with tyoheld := false }).put (mapped ch t.opt)).wrapTail TY_IBUFLEN)
        (mapped ch t.opt)
  · rw [if_neg hcb, if_neg hcb]
    refine ⟨false, ?_⟩
    rw [← eputs_held]
    exact cooked_eputs (t := { t with tyoheld := false }) (mapped ch t.opt) switched hraw

end Ttycblk

-- ---------------------------------------------------------------------------
-- The queue as it should be
-- ---------------------------------------------------------------------------

inductive EchoEvent where
  /-- These characters are put into the echo queue for one character that has arrived. -/
  | queued (chs : List UInt8)
  /-- The UART gets a character from the echo queue, and one from the output queue. -/
  | echoed (ch : UInt8)
  | sent (ch : UInt8)
  deriving DecidableEq, Repr

/-- What is pending: the groups, and whether the first one has been begun. -/
structure Groups where
  groups : List (List UInt8) := []
  begun : Bool := false

/-- The characters that are pending. -/
def Groups.chars (q : Groups) : List UInt8 := q.groups.flatten

def Groups.queue (chs : List UInt8) (q : Groups) : Groups :=
  if chs = [] then q else { q with groups := q.groups ++ [chs] }

/-- One character of the first group has been echoed, and these are left. -/
def Groups.left (chs : List UInt8) (groups : List (List UInt8)) : Groups :=
  if chs = [] then ⟨groups, false⟩ else ⟨chs :: groups, true⟩

/-- Characters that find no room, a character echoed that is not the next one, and a
character of the output queue within a group break the rules. -/
def together : Monitor EchoEvent Groups where
  init := {}
  next q
    | .queued chs =>
      if (q.chars ++ chs).length ≤ TY_EBUFLEN then some (q.queue chs) else none
    | .echoed ch =>
      match q.groups with
      | (c :: chs) :: groups =>
        if c = ch then some (.left chs groups) else none
      | _ => none
    | .sent _ => if q.begun then none else some q

/-- The characters that were queued, and those that were echoed, oldest first. -/
def queuedChars (tr : List EchoEvent) : List UInt8 :=
  tr.reverse.flatMap fun
    | .queued chs => chs
    | _ => []

def echoedChars (tr : List EchoEvent) : List UInt8 :=
  tr.reverse.flatMap fun
    | .echoed ch => [ch]
    | _ => []

theorem queue_chars (q : Groups) (chs : List UInt8) : (q.queue chs).chars = q.chars ++ chs := by
  unfold Groups.queue
  by_cases hnil : chs = []
  · rw [if_pos hnil, hnil, List.append_nil]
  · rw [if_neg hnil]
    unfold Groups.chars
    rw [List.flatten_append, List.flatten_singleton]

theorem echo_chars {q : Groups} {c : UInt8} {chs : List UInt8} {groups : List (List UInt8)}
    (h : q.groups = (c :: chs) :: groups) :
    q.chars = c :: (Groups.left chs groups).chars := by
  unfold Groups.left Groups.chars
  rw [h, List.flatten_cons, List.cons_append]
  by_cases hnil : chs = []
  · rw [if_pos hnil, hnil, List.nil_append]
  · rw [if_neg hnil, List.flatten_cons]

/-- **In an accepted history what was queued has been echoed, in order, or is still
pending.** -/
theorem queuedChars_eq : ∀ {tr : List EchoEvent} {q : Groups}, together.run tr = some q →
    queuedChars tr = echoedChars tr ++ q.chars
  | [], q, h => by
    cases h
    rfl
  | e :: tr, q, h => by
    obtain ⟨q₀, hq₀, hnext⟩ := Option.bind_eq_some_iff.mp h
    have ih := queuedChars_eq hq₀
    unfold queuedChars echoedChars at ih ⊢
    rw [List.reverse_cons, List.flatMap_append, List.flatMap_append, ih]
    cases e with
    | queued chs =>
      change (if (q₀.chars ++ chs).length ≤ TY_EBUFLEN then _ else _) = _ at hnext
      by_cases hlen : (q₀.chars ++ chs).length ≤ TY_EBUFLEN
      · rw [if_pos hlen] at hnext
        rw [← Option.some.inj hnext, queue_chars]
        simp
      · rw [if_neg hlen] at hnext
        cases hnext
    | echoed ch =>
      rcases hg : q₀.groups with _ | ⟨_ | ⟨c, chs⟩, groups⟩
      · simp [together, hg] at hnext
      · simp [together, hg] at hnext
      · have hnext' : (if c = ch then some (Groups.left chs groups) else none) = some q := by
          simpa only [together, hg] using hnext
        by_cases hc : c = ch
        · rw [if_pos hc] at hnext'
          rw [echo_chars hg, Option.some.inj hnext', hc]
          simp
        · rw [if_neg hc] at hnext'
          cases hnext'
    | sent ch =>
      change (if q₀.begun then none else some q₀) = _ at hnext
      by_cases hb : q₀.begun = true
      · rw [if_pos hb] at hnext
        cases hnext
      · rw [if_neg hb] at hnext
        rw [Option.some.inj hnext]
        simp

-- ---------------------------------------------------------------------------
-- The ring
-- ---------------------------------------------------------------------------

namespace Echo

variable {e : Echo} {q : List UInt8} {c : UInt8}

/-- The ring holds these characters, from the head to the tail. -/
structure Holds (q : List UInt8) (e : Echo) : Prop where
  head : e.tyehead < TY_EBUFLEN
  tail : e.tyetail = (e.tyehead + q.length) % TY_EBUFLEN
  slots : Ring.Holds TY_EBUFLEN e.tyebuff e.tyehead q

theorem Holds.eputc (h : e.Holds q) (hlen : q.length < TY_EBUFLEN) (ch : UInt8) :
    (e.eputc ch).Holds (q ++ [ch]) := by
  refine ⟨h.head, ?_, ?_⟩
  · change Ring.next TY_EBUFLEN e.tyetail = _
    rw [h.tail]
    exact Ring.tail_enqueue (by decide)
  · change Ring.Holds _ (Function.update e.tyebuff e.tyetail ch) _ _
    rw [h.tail]
    exact h.slots.enqueue hlen ch

/-- **What finds room is appended.** -/
theorem Holds.eputs {chs : List UInt8} (h : e.Holds q)
    (hlen : q.length + chs.length ≤ TY_EBUFLEN) : (e.eputs chs).Holds (q ++ chs) := by
  induction chs generalizing e q with
  | nil =>
    rw [List.append_nil]
    exact h
  | cons ch chs ih =>
    rw [List.length_cons] at hlen
    have hput := ih (h.eputc (by omega) ch) (by rw [List.length_append, List.length_singleton]; omega)
    rwa [List.append_assoc] at hput

theorem Holds.take (h : e.Holds (c :: q)) :
    Holds q { e with tyehead := Ring.next TY_EBUFLEN e.tyehead } :=
  ⟨Ring.next_lt (by decide), h.tail.trans (Ring.tail_dequeue h.head).symm, h.slots.dequeue h.head⟩

/-- A ring that is not full tells how many characters are pending. -/
theorem Holds.pending_eq (h : e.Holds q) (hlen : q.length < TY_EBUFLEN) : e.pending = q.length := by
  have hhead := h.head
  unfold pending
  rw [h.tail]
  unfold TY_EBUFLEN at hhead hlen ⊢
  omega

/-- A ring that is not full is empty when its pointers meet. -/
theorem Holds.empty_iff (h : e.Holds q) (hlen : q.length < TY_EBUFLEN) :
    e.tyehead = e.tyetail ↔ q = [] := by
  have hhead := h.head
  have htail := h.tail
  rw [← List.length_eq_zero_iff]
  unfold TY_EBUFLEN at hhead hlen htail
  omega

end Echo

/-- The groups are in the ring, which is not full. -/
structure Echo.Keeps (q : Groups) (e : Echo) : Prop extends e.Holds q.chars where
  room : q.chars.length < TY_EBUFLEN
  nonempty : [] ∉ q.groups
  begun : q.groups = [] → q.begun = false

namespace Ttycblk

variable {t t' : Ttycblk} {q : Groups} {es : List EchoEvent}

/-- The monitor follows, and the ring is kept. -/
def Echoes (q : Groups) (r : Ttycblk × List EchoEvent) : Prop :=
  ∃ q', Machine.feed together q r.2 = some q' ∧ r.1.toEcho.Keeps q'

/-- What of the events of a tty concerns the echo queue. -/
def shown : TtyEvent → Option EchoEvent
  | .echoed ch => some (.echoed ch)
  | .sent ch => some (.sent ch)
  | _ => none

theorem keeps_queue {chs : List UInt8} {held : Bool} (h : t.toEcho.Keeps q)
    (hroom : q.chars.length + chs.length < TY_EBUFLEN) :
    Echo.Keeps (q.queue chs) { t.toEcho.eputs chs with tyoheld := held } := by
  have hholds := h.toHolds.eputs hroom.le
  refine ⟨?_, ?_, ?_, ?_⟩
  · rw [queue_chars]
    exact ⟨hholds.head, hholds.tail, hholds.slots⟩
  · rw [queue_chars, List.length_append]
    exact hroom
  · unfold Groups.queue
    by_cases hnil : chs = []
    · rw [if_pos hnil]
      exact h.nonempty
    · rw [if_neg hnil]
      intro hmem
      rcases List.mem_append.mp hmem with hmem | hmem
      · exact h.nonempty hmem
      · exact hnil (List.mem_singleton.mp hmem).symm
  · unfold Groups.queue
    by_cases hnil : chs = []
    · rw [if_pos hnil]
      exact h.begun
    · rw [if_neg hnil]
      intro hg
      exact absurd (List.append_eq_nil_iff.mp hg).2 (List.cons_ne_nil _ _)

/-- **The handler finds room for a group.** -/
theorem rx_echoes (h : t.toEcho.Keeps q) (ch : UInt8) (switched : Bool)
    (hroom : t.toEcho.pending + (t.group ch).length < TY_EBUFLEN) :
    Echoes q ((t.ttyInter_in ch switched).1, [.queued (t.group ch)]) := by
  obtain ⟨held, hecho⟩ := ttyInter_in_queued t ch switched
  rw [h.toHolds.pending_eq h.room] at hroom
  refine ⟨q.queue (t.group ch), ?_, ?_⟩
  · change (if (q.chars ++ t.group ch).length ≤ TY_EBUFLEN then some (q.queue (t.group ch)) else none) = _
    rw [if_pos (by rw [List.length_append]; omega)]
  · dsimp only
    rw [hecho]
    exact keeps_queue h hroom

/-- The loop over the echo queue echoes the oldest characters, until the UART is full or
nothing is pending. -/
theorem sendEcho_echoes (n : Nat) (h : t.toEcho.Keeps q) :
    ∃ q', Machine.feed together q ((t.sendEcho n).2.2.filterMap shown) = some q' ∧
      (t.sendEcho n).2.1.toEcho.Keeps q' ∧ ((t.sendEcho n).1 ≠ 0 → q'.groups = []) := by
  induction n generalizing t q with
  | zero => exact ⟨q, rfl, h, fun hn => absurd rfl hn⟩
  | succ n ih =>
    have hempty := h.toHolds.empty_iff h.room
    unfold sendEcho
    by_cases he : t.tyehead ≠ t.tyetail
    · rw [if_pos he]
      rcases hg : q.groups with _ | ⟨_ | ⟨c, chs⟩, groups⟩
      · refine absurd (hempty.mpr ?_) he
        unfold Groups.chars
        rw [hg]
        rfl
      · exact absurd (hg ▸ List.mem_cons_self) h.nonempty
      · have hchars := echo_chars hg
        have hholds := h.toHolds
        rw [hchars] at hholds
        have hfront := hholds.slots.front hholds.head
        have hkept : Echo.Keeps (.left chs groups)
            { t.toEcho with tyehead := Ring.next TY_EBUFLEN t.tyehead } := by
          refine ⟨hholds.take, ?_, ?_, ?_⟩
          · have hroom := h.room
            rw [hchars, List.length_cons] at hroom
            omega
          · have hmem := h.nonempty
            rw [hg] at hmem
            unfold Groups.left
            by_cases hnil : chs = []
            · rw [if_pos hnil]
              exact fun hin => hmem (List.mem_cons_of_mem _ hin)
            · rw [if_neg hnil]
              intro hin
              rcases List.mem_cons.mp hin with hin | hin
              · exact hnil hin.symm
              · exact hmem (List.mem_cons_of_mem _ hin)
          · unfold Groups.left
            by_cases hnil : chs = []
            · rw [if_pos hnil]
              exact fun _ => rfl
            · rw [if_neg hnil]
              exact fun hcons => absurd hcons (List.cons_ne_nil _ _)
        obtain ⟨q', hfeed, hkeeps, hdone⟩ :=
          ih (t := { t with tyehead := Ring.next TY_EBUFLEN t.tyehead }) hkept
        refine ⟨q', ?_, hkeeps, hdone⟩
        dsimp only
        rw [List.filterMap_append, Machine.feed_append]
        have hnext : Machine.feed together q ([TtyEvent.echoed (t.tyebuff t.tyehead)].filterMap shown) =
            some (.left chs groups) := by
          change together.next q (.echoed (t.tyebuff t.tyehead)) = _
          simp [together, hg, hfront]
        rw [hnext]
        exact hfeed
    · rw [if_neg he]
      refine ⟨q, rfl, h, fun _ => ?_⟩
      have hnil := hempty.mp (not_not.mp he)
      rcases hg : q.groups with _ | ⟨g, groups⟩
      · rfl
      · -- a group that is pending has a character
        have hgnil := (List.flatten_eq_nil_iff.mp hnil) g (hg ▸ List.mem_cons_self)
        exact absurd (hg ▸ hgnil ▸ List.mem_cons_self) h.nonempty

/-- The output queue is sent between the groups. -/
theorem sendOut_echoes (n : Nat) (hb : n ≠ 0 → q.begun = false) (t : Ttycblk) :
    Machine.feed together q ((t.sendOut n).2.filterMap shown) = some q ∧
      (t.sendOut n).1.toEcho = t.toEcho := by
  induction n generalizing t with
  | zero => exact ⟨rfl, rfl⟩
  | succ n ih =>
    have hbegun := hb (Nat.succ_ne_zero n)
    obtain ⟨hfeed, hecho⟩ := ih (fun _ => hbegun) { t with tyohead := Ring.next TY_OBUFLEN t.tyohead }
    refine ⟨?_, hecho⟩
    unfold sendOut
    dsimp only
    rw [List.filterMap_append, Machine.feed_append]
    have hnext : Machine.feed together q ([TtyEvent.sent (t.tyobuff t.tyohead)].filterMap shown) =
        some q := by
      change (if q.begun then none else some q) = some q
      rw [hbegun]
      rfl
    rw [hnext]
    exact hfeed

/-- **The transmit interrupt** echoes first. -/
theorem tx_echoes (h : t.toEcho.Keeps q) :
    Echoes q (t.ttyInter_out.1, t.ttyInter_out.2.filterMap shown) := by
  unfold ttyInter_out
  by_cases hheld : t.tyoheld = true
  · rw [if_pos hheld]
    exact ⟨q, rfl, h⟩
  rw [if_neg hheld]
  by_cases hidle : t.tyehead = t.tyetail ∧ t.tyosem.count ≥ TY_OBUFLEN
  · rw [if_pos hidle]
    exact ⟨q, rfl, h⟩
  rw [if_neg hidle]
  obtain ⟨q', hfeed, hkeeps, hdone⟩ := sendEcho_echoes UART_FIFO_SIZE h
  generalize t.sendEcho UART_FIFO_SIZE = r at hfeed hkeeps hdone ⊢
  obtain ⟨uspace, t₁, es₁⟩ := r
  dsimp only at hfeed hkeeps hdone ⊢
  have hout := sendOut_echoes (q := q') (t₁.ochars uspace) (fun hn => hkeeps.begun (hdone fun hz => ?_)) t₁
  · refine ⟨q', ?_, ?_⟩
    · rw [List.filterMap_append, Machine.feed_append, hfeed]
      exact hout.1
    · change (t₁.sendOut (t₁.ochars uspace)).1.toEcho.Keeps q'
      rw [hout.2]
      exact hkeeps
  · refine hn ?_
    unfold ochars
    rw [hz, Nat.zero_min]

/-- A step that leaves the echo queue alone. -/
theorem echoes_idle {r : Ttycblk × List TtyEvent} (h : t.toEcho.Keeps q)
    (hecho : r.1.toEcho = t.toEcho) (hes : r.2.filterMap shown = []) :
    Echoes q (r.1, r.2.filterMap shown) := by
  rw [hes]
  refine ⟨q, rfl, ?_⟩
  dsimp only
  rw [hecho]
  exact h

theorem take_echo (t : Ttycblk) (pid : Pid) (c : ReadCall) :
    (t.take pid c).1.toEcho = t.toEcho ∧ (t.take pid c).2.filterMap shown = [] := by
  unfold take
  dsimp only
  cases readNext (t.getcValue (t.tyibuff t.tyihead)) c with
  | inl c' => exact ⟨rfl, rfl⟩
  | inr v => exact ⟨rfl, rfl⟩

theorem Reads.echoes {a : TtyAct} {r : Ttycblk × List TtyEvent} (hr : t.Reads a r)
    (h : t.toEcho.Keeps q) : Echoes q (r.1, r.2.filterMap shown) := by
  cases hr with
  | idle pid v => exact echoes_idle h rfl rfl
  | waits hc hw => exact echoes_idle h rfl rfl
  | @takes pid c s hc hs =>
    obtain ⟨hecho, hes⟩ := take_echo { t with tyisem := s } pid c
    exact echoes_idle h hecho hes

theorem Writes.echoes {r : Ttycblk × List TtyEvent} (hr : t.Writes r) (h : t.toEcho.Keeps q) :
    Echoes q (r.1, r.2.filterMap shown) := by
  cases hr with
  | waits chs hw => exact echoes_idle h rfl rfl
  | stores ch chs hs => exact echoes_idle h rfl rfl

-- ---------------------------------------------------------------------------
-- Runs
-- ---------------------------------------------------------------------------

/-- A step of the tty, with what it does to the echo queue. -/
def echoStep (t : Ttycblk) (a : TtyAct) : Option (Ttycblk × List EchoEvent) :=
  (t.step a).map fun r =>
    (r.1, match a with
      | .rx ch _ => [.queued (t.group ch)]
      | _ => r.2.filterMap shown)

def echoMachine (opt : Options) : Machine Ttycblk TtyAct EchoEvent := ⟨Started opt, echoStep⟩

/-- A character that arrives when its group finds room. One slot stays free. -/
def Room (t : Ttycblk) : TtyAct → Prop
  | .rx ch _ => t.toEcho.pending + (t.group ch).length < TY_EBUFLEN
  | _ => True

instance (t : Ttycblk) : ∀ a : TtyAct, Decidable (Room t a)
  | .rx ch _ => inferInstanceAs (Decidable (t.toEcho.pending + (t.group ch).length < TY_EBUFLEN))
  | .reset | .tx | .setMode _ | .setEcho _ | .getc _ | .read .. | .readOn _ | .readWoken _
  | .putc .. | .putOn _ | .putWoken _ => inferInstanceAs (Decidable True)

theorem Started.echo_keeps {opt : Options} (h : Started opt t) : t.toEcho.Keeps {} := by
  refine ⟨⟨?_, ?_, Ring.holds_nil⟩, by decide, List.not_mem_nil, fun _ => rfl⟩
  · rw [h.ehead]
    decide
  · rw [h.etail, h.ehead]
    rfl

/-- **One step keeps the echo queue.** -/
theorem echoStep_echoes (h : t.toEcho.Keeps q) {a : TtyAct} (hok : Room t a)
    (hst : t.echoStep a = some (t', es)) : Echoes q (t', es) := by
  obtain ⟨r, hr, hes⟩ := Option.map_eq_some_iff.mp hst
  rw [← hes]
  cases a with
  | rx ch switched =>
    rw [step_rx] at hr
    rw [← Option.some.inj hr]
    exact rx_echoes h ch switched hok
  | reset =>
    change (if t.resets = 0 then none else _) = _ at hr
    by_cases hz : t.resets = 0
    · rw [if_pos hz] at hr
      cases hr
    · rw [if_neg hz] at hr
      rw [← Option.some.inj hr]
      exact echoes_idle h rfl rfl
  | tx =>
    rw [← Option.some.inj hr]
    exact tx_echoes h
  | setMode m =>
    rw [← Option.some.inj hr]
    exact echoes_idle h rfl rfl
  | setEcho b =>
    rw [← Option.some.inj hr]
    exact ⟨q, rfl, ⟨h.head, h.tail, h.slots⟩, h.room, h.nonempty, h.begun⟩
  | getc | read | readOn | readWoken => exact (step_reads rfl hr).echoes h
  | putc | putOn | putWoken => exact (step_writes rfl hr).echoes h

/-- What was queued has been echoed in order, group by group, or is pending in the ring,
which has room for it. -/
def EchoKept (tr : List EchoEvent) (t : Ttycblk) : Prop :=
  ∃ q, together.run tr = some q ∧ queuedChars tr = echoedChars tr ++ q.chars ∧
    q.chars.length ≤ TY_EBUFLEN ∧ t.toEcho.Holds q.chars

/-- **The characters are echoed in order, each group together, and never more are pending
than the ring has slots**, in every run in which every group finds room. -/
theorem echo_kept_with_room {opt : Options} {tr : List EchoEvent}
    (r : (echoMachine opt).Run Room tr t) : EchoKept tr t := by
  have hacc : ∃ q, together.run tr = some q ∧ t.toEcho.Keeps q := by
    refine r.accepted (R := fun q t => t.toEcho.Keeps q) ?_ ?_
    · intro t h
      exact h.echo_keeps
    · intro q t t' a es h hok hst
      exact echoStep_echoes h hok hst
  obtain ⟨q, hq, hkeeps⟩ := hacc
  exact ⟨q, hq, queuedChars_eq hq, hkeeps.room.le, hkeeps.toHolds⟩

/-! ## A burst of characters -/

/-- Characters arrive in cbreak mode. -/
def typed (n : Nat) : List TtyAct :=
  .setMode .CBREAK :: .setEcho true :: List.replicate n (.rx 97 false)

theorem echo_kept_with_room_typed :
    ∃ tr t, (echoMachine {}).exec Room boot [] (typed 31 ++ [.tx]) = some (t, tr) ∧
      echoedChars tr = [97] ∧ EchoKept tr t := by
  have hrun : ((echoMachine {}).exec Room boot [] (typed 31 ++ [.tx])).any
      (fun r => echoedChars r.2 == [97]) := by
    decide +kernel
  obtain ⟨⟨t, tr⟩, hst, hechoed⟩ := (Option.any_eq_true _ _).mp hrun
  exact ⟨tr, t, hst, eq_of_beq hechoed,
    echo_kept_with_room (Machine.exec_run (.start boot_started) hst)⟩

/-- **Thirty-three characters are pending in a ring of thirty-two.** -/
theorem echo_not_kept :
    ¬ ∀ opt tr t, (echoMachine opt).Run (fun _ _ => True) tr t → EchoKept tr t := by
  intro hall
  have hrun : ((echoMachine {}).exec (fun _ _ => True) boot [] (typed 33)).any
      (fun r => (together.run r.2).isNone) := by
    decide +kernel
  obtain ⟨⟨t, tr⟩, hst, hrej⟩ := (Option.any_eq_true _ _).mp hrun
  obtain ⟨q, hq, -⟩ := hall {} tr t (Machine.exec_run (.start boot_started) hst)
  rw [hq] at hrej
  cases hrej

end Ttycblk

end Xinu.Tty
