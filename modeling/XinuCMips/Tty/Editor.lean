import XinuCMips.Tty.Input

/-!
# What a tty delivers

A line editor without a buffer: in raw and cbreak mode it delivers each
character, in cooked mode the lines, edited with the erase and kill characters,
and EOF characters at the start of a line. The tty is to give its readers these
characters, in order.

* `input_edited_without_slip` — it does, in every run in which no character is
  stored in cbreak mode or in a full buffer, none arrives in raw mode within a
  line, a kill and an EOF stay within the buffer, no character arrives while a
  handler has still to reset the cursor, and `ttyRead` gets no character that
  looks like EOF, and EOF only as its first;
* `input_not_edited`          — in cbreak mode no character is ever delivered.
-/

namespace Xinu.Tty

open Ttycblk (mapped flow ofChar toChar more readNext kind)

/-- What a reader gets. -/
inductive Item where
  | char (ch : UInt8)
  | eof
  deriving DecidableEq, Repr

def Item.value : Item → Int
  | .char ch => ofChar ch
  | .eof => EOF

def Eol (ch : UInt8) : Prop := ch = TY_NEWLINE ∨ ch = TY_RETURN

instance (ch : UInt8) : Decidable (Eol ch) := inferInstanceAs (Decidable (_ ∨ _))

/-- A line or a part of one: no end of line but at its end, and as many
characters as were asked for where there is none. -/
def Ends (count : Int) (buff : List UInt8) : Prop :=
  (∀ ch ∈ buff.dropLast, ¬ Eol ch) ∧ (count ≤ buff.length ∨ ∃ ch ∈ buff.getLast?, Eol ch)

instance (count : Int) (buff : List UInt8) : Decidable (Ends count buff) :=
  inferInstanceAs (Decidable (_ ∧ (_ ∨ ∃ ch ∈ buff.getLast?, Eol ch)))

/-- What a call returns when it has got these. -/
def Answers (items : List Item) (value : Int) (buff : List UInt8) : ReadKind → Prop
  | .getc => items.map Item.value = [value] ∧ buff = []
  | .chars => items = buff.map .char ∧ value = buff.length
  | .line count =>
    (items = [.eof] ∧ value = EOF ∧ buff = []) ∨
      (items = buff.map .char ∧ value = buff.length ∧ Ends count buff)

instance (items : List Item) (value : Int) (buff : List UInt8) :
    ∀ kind : ReadKind, Decidable (Answers items value buff kind)
  | .getc | .chars => inferInstanceAs (Decidable (_ ∧ _))
  | .line _ => inferInstanceAs (Decidable (_ ∨ _))

/-- The line editor: the characters that are delivered and not yet read, the
line, and what the calls have got. -/
structure Editor where
  mode : Imode := .RAW
  out : List UInt8 := []
  line : List UInt8 := []
  got : Pid → List Item := fun _ => []

namespace Editor

/-- A character in cooked mode. -/
def edit (opt : Options) (ch : UInt8) (e : Editor) : Editor :=
  if ch = opt.tyikillc ∧ opt.tyikill then { e with line := [] }
  else if ch = opt.tyierasec ∧ opt.tyierase then { e with line := e.line.dropLast }
  else if Eol ch then { e with out := e.out ++ (e.line ++ [ch]), line := [] }
  else if ch = opt.tyeofch ∧ opt.tyeof then
    if e.line = [] then { e with out := e.out ++ [ch] } else e
  else { e with line := e.line ++ [ch] }

/-- A character arrives. -/
def accept (opt : Options) (ch : UInt8) (e : Editor) : Editor :=
  if e.mode = .RAW then { e with out := e.out ++ [ch] }
  else if flow (mapped ch opt) opt then e
  else if e.mode = .CBREAK then { e with out := e.out ++ [mapped ch opt] }
  else e.edit opt (mapped ch opt)

/-- What a character is to a reader. -/
def item (opt : Options) (ch : UInt8) (e : Editor) : Item :=
  if e.mode = .COOKED ∧ opt.tyeof ∧ ch = opt.tyeofch then .eof else .char ch

end Editor

/-- Readers get the oldest characters, and return what they have got. -/
def editor (opt : Options) : Monitor TtyEvent Editor where
  init := {}
  next e
    | .rx ch => some (e.accept opt ch)
    | .mode m => some { e with mode := m }
    | .got pid ch =>
      match e.out with
      | [] => none
      | c :: out =>
        if c = ch then
          some { e with out := out, got := Function.update e.got pid (e.got pid ++ [e.item opt ch]) }
        else none
    | .returned pid kind value buff =>
      if Answers (e.got pid) value buff kind then
        some { e with got := Function.update e.got pid [] }
      else none
    | _ => some e

/-! ## Reading calls -/

/-- What a call has got so far. -/
def Gets (items : List Item) : Option ReadCall → Prop
  | none | some .getc | some (.first _) => items = []
  | some (.chars _ buff) => items = buff.map .char
  | some (.line _ buff) => items = buff.map .char ∧ ∀ ch ∈ buff, ¬ Eol ch

/-- `ttyRead` can tell the item from the others by its value. -/
def Tells (i : Item) : ReadCall → Prop
  | .getc => True
  | .first _ => i.value = EOF → i = .eof
  | .chars .. | .line .. => i ≠ .eof

instance (i : Item) : ∀ c : ReadCall, Decidable (Tells i c)
  | .getc => inferInstanceAs (Decidable True)
  | .first _ => inferInstanceAs (Decidable (_ → _))
  | .chars .. | .line .. => inferInstanceAs (Decidable (_ ≠ _))

theorem toChar_ofChar (ch : UInt8) : toChar (ofChar ch) = ch := by
  have hmod : ofChar ch % 256 = ch.toNat := by
    have hlt := ch.toNat_lt
    unfold ofChar
    change ch.toBitVec.toInt % 256 = _
    rw [BitVec.toInt_eq_toNat_bmod]
    change Int.bmod _ 256 % ((256 : Nat) : Int) = _
    rw [Int.bmod_emod]
    change ((ch.toNat : Int) % (256 : Nat)) = _
    omega
  unfold toChar
  rw [hmod, Int.toNat_natCast]
  exact UInt8.ofNat_toNat

theorem more_eq_false {count : Int} {buff : List UInt8} {ch : UInt8}
    (h : ¬ more count (buff ++ [ch]) ch) (hbuff : ∀ c ∈ buff, ¬ Eol c) :
    Ends count (buff ++ [ch]) := by
  unfold more at h
  rw [decide_eq_true_eq] at h
  unfold Ends Eol
  rw [List.dropLast_concat, List.getLast?_concat]
  refine ⟨hbuff, ?_⟩
  by_cases hlen : count ≤ (buff ++ [ch]).length
  · exact .inl hlen
  · refine .inr ⟨ch, rfl, ?_⟩
    by_contra heol
    rw [not_or] at heol
    exact h ⟨not_le.mp hlen, heol⟩

theorem more_not_eol {count : Int} {buff : List UInt8} {ch : UInt8} (h : more count buff ch) :
    ¬ Eol ch := by
  unfold more at h
  rw [decide_eq_true_eq] at h
  rintro (heol | heol)
  · exact h.2.1 heol
  · exact h.2.2 heol

/-- **A call goes on with what it has got, or returns it.** -/
theorem readNext_gets {items : List Item} {c : ReadCall} {i : Item} (hg : Gets items (some c))
    (ht : Tells i c) :
    match readNext i.value c with
    | .inl c' => Gets (items ++ [i]) (some c')
    | .inr r => Answers (items ++ [i]) r.1 r.2 (kind c) := by
  cases c with
  | getc =>
    cases hg
    exact ⟨rfl, rfl⟩
  | chars count buff =>
    cases i with
    | eof => exact absurd rfl ht
    | char ch =>
      have hmap : items ++ [.char ch] = (buff ++ [ch]).map Item.char := by
        rw [List.map_append, ← hg]
        rfl
      unfold readNext Item.value
      dsimp only
      rw [toChar_ofChar]
      by_cases hlen : (buff ++ [ch]).length < count
      · rw [if_pos hlen]
        exact hmap
      · rw [if_neg hlen]
        exact ⟨hmap, rfl⟩
  | first count =>
    cases hg
    cases i with
    | eof => exact .inl ⟨rfl, rfl, rfl⟩
    | char ch =>
      have hne : ¬ ofChar ch = EOF := fun heq => nomatch ht heq
      unfold readNext Item.value
      dsimp only
      rw [if_neg hne, toChar_ofChar]
      by_cases hm : more count [ch] ch = true
      · rw [if_pos hm]
        refine ⟨rfl, ?_⟩
        intro c hc
        rw [List.mem_singleton.mp hc]
        exact more_not_eol hm
      · rw [if_neg hm]
        exact .inr ⟨rfl, rfl, @more_eq_false _ [] _ hm nofun⟩
  | line count buff =>
    obtain ⟨hitems, hbuff⟩ := hg
    cases i with
    | eof => exact absurd rfl ht
    | char ch =>
      have hmap : items ++ [.char ch] = (buff ++ [ch]).map Item.char := by
        rw [List.map_append, ← hitems]
        rfl
      unfold readNext Item.value
      dsimp only
      rw [toChar_ofChar]
      by_cases hm : more count (buff ++ [ch]) ch = true
      · rw [if_pos hm]
        refine ⟨hmap, ?_⟩
        intro c hc
        rcases List.mem_append.mp hc with hc | hc
        · exact hbuff c hc
        · rw [List.mem_singleton.mp hc]
          exact more_not_eol hm
      · rw [if_neg hm]
        exact .inr ⟨hmap, rfl, more_eq_false hm hbuff⟩

/-! ## The ring and the editor -/

/-- **The ring holds what the editor holds**: what is delivered is available, and
the cursor is at the end of the line. Where a handler has still to reset it, the
line is empty. -/
structure Input.Shows (e : Editor) (t : Input) : Prop extends t.Keeps e.out e.line where
  mode : e.mode = t.tyimode
  cursor : t.resets = 0 → t.tyicursor = e.line.length
  late : t.resets ≠ 0 → e.line = []
  calls : ∀ pid, Gets (e.got pid) (t.readers pid)

/-- The editor after a key. -/
def Editor.act (e : Editor) : Key → Editor
  | .none | .full | .ignored => e
  | .single ch | .hidden ch | .eof ch => { e with out := e.out ++ [ch] }
  | .kill => { e with line := [] }
  | .erase => { e with line := e.line.dropLast }
  | .newline ch => { e with out := e.out ++ (e.line ++ [ch]), line := [] }
  | .char ch => { e with line := e.line ++ [ch] }

namespace Input

variable {t : Input} {e : Editor} {ch : UInt8}

/-- No handler has still to reset the cursor, or it is at the start anyway. -/
def Prompt (t : Input) : Prop := t.resets = 0 ∨ t.tyicursor = 0

instance (t : Input) : Decidable t.Prompt := inferInstanceAs (Decidable (_ ∨ _))

theorem Shows.cursor_eq (h : t.Shows e) (hp : t.Prompt) : t.tyicursor = e.line.length := by
  by_cases hr : t.resets = 0
  · exact h.cursor hr
  · rw [h.late hr]
    rcases hp with hp | hp
    · exact absurd hp hr
    · exact hp

/-- Where the cursor is at the start there is no line. -/
theorem Shows.line_nil (h : t.Shows e) (hl : t.resets ≠ 0 ∨ t.tyicursor = 0) : e.line = [] := by
  by_cases hr : t.resets = 0
  · have hcur := h.cursor hr
    rcases hl with hl | hl
    · exact absurd hr hl
    · exact List.length_eq_zero_iff.mp (hcur.symm.trans hl)
  · exact h.late hr

/-- What a key needs, to do to the ring what it does to the editor. -/
def Fits (t : Input) : Key → Prop
  | .none => True
  | .full | .hidden _ => False
  | .ignored | .erase => t.Prompt
  | .single _ => t.unread < TY_IBUFLEN ∧ (t.resets ≠ 0 ∨ t.tyicursor = 0)
  | .kill => t.Prompt ∧ t.tyicursor ≤ t.tyitail
  | .newline _ => t.Prompt ∧ t.unread < TY_IBUFLEN
  | .eof _ => t.unread < TY_IBUFLEN ∧ t.tyitail + 1 < TY_IBUFLEN
  | .char _ => t.resets = 0 ∧ t.unread < TY_IBUFLEN

instance (t : Input) : ∀ k : Key, Decidable (t.Fits k)
  | .none => inferInstanceAs (Decidable True)
  | .full | .hidden _ => inferInstanceAs (Decidable False)
  | .ignored | .erase => inferInstanceAs (Decidable t.Prompt)
  | .single _ | .kill | .newline _ | .eof _ | .char _ => inferInstanceAs (Decidable (_ ∧ _))

/-- What the editor is compared with. -/
theorem Shows.of_keeps {t' : Input} {e' : Editor} (h : t.Shows e) (hk : t'.Keeps e'.out e'.line)
    (hcursor : t'.resets = 0 → t'.tyicursor = e'.line.length)
    (hlate : t'.resets ≠ 0 → e'.line = []) (hmode : t'.tyimode = t.tyimode)
    (hreaders : t'.readers = t.readers) (hmode' : e'.mode = e.mode) (hgot : e'.got = e.got) :
    t'.Shows e' := by
  refine ⟨hk, ?_, hcursor, hlate, ?_⟩
  · rw [hmode', hmode]
    exact h.mode
  · rw [hgot, hreaders]
    exact h.calls

/-- **A key does to the ring what it does to the editor**, where it fits. -/
theorem Shows.act (h : t.Shows e) {k : Key} (hk : t.Fits k) (hkey : Ttycblk.Cursor t k)
    (switched : Bool) : (t.act switched k).1.Shows (e.act k) := by
  cases k with
  | none | ignored => exact h
  | full | hidden ch => exact hk.elim
  | single ch =>
    obtain ⟨hroom, hl⟩ := hk
    have hnil := h.line_nil hl
    have hput := h.toKeeps.put hroom ch
    rw [hnil] at hput
    have hone := hput.signaln (n := 1) le_rfl
    obtain ⟨hcur, hres, -, hreaders, hmode⟩ := wrapTail_same TY_IBUFLEN (t.put ch)
    refine h.of_keeps (hnil ▸ hone) ?_ (fun _ => hnil) hmode hreaders rfl rfl
    intro hr
    exact hcur.trans (h.cursor (hres.symm.trans hr))
  | kill =>
    obtain ⟨hp, htail⟩ := hk
    have hcur := h.cursor_eq hp
    have hlt : ¬ t.tyitail - t.tyicursor < 0 := by omega
    have hkill := @Keeps.kill _ _ _ _ (t.act switched .kill).1 h.toKeeps hcur.le htail (if_neg hlt) rfl rfl
      rfl rfl
    rw [hcur, Nat.sub_self] at hkill
    exact h.of_keeps hkill (fun _ => rfl) (fun _ => rfl) rfl rfl rfl rfl
  | erase =>
    have hcur := h.cursor_eq hk
    have hpos : 0 < t.tyicursor := hkey
    have herase := @Keeps.erase _ _ _ (t.act switched .erase).1 h.toKeeps (by omega) rfl rfl rfl rfl rfl
    rw [← List.dropLast_eq_take] at herase
    refine h.of_keeps herase ?_ ?_ rfl rfl rfl rfl
    · intro hr
      change t.tyicursor - 1 = e.line.dropLast.length
      rw [List.length_dropLast, hcur]
    · intro hr
      change e.line.dropLast = []
      rw [h.late hr]
      rfl
  | newline ch =>
    obtain ⟨hp, hroom⟩ := hk
    have hcur := h.cursor_eq hp
    have hlen : t.tyicursor + 1 = (e.line ++ [ch]).length := by
      rw [List.length_append, hcur]
      rfl
    have hline := (h.toKeeps.put hroom ch).signaln hlen.le
    rw [hlen, List.take_length, List.drop_length, ← hlen] at hline
    obtain ⟨-, hres, -, hreaders, hmode⟩ := wrapTail_same TY_IBUFLEN (t.put ch)
    cases switched with
    | false =>
      exact h.of_keeps (hline.congr rfl rfl rfl rfl rfl) (fun _ => rfl) (fun _ => rfl) hmode hreaders
        rfl rfl
    | true =>
      exact h.of_keeps (hline.congr rfl rfl rfl rfl rfl) (fun hr => absurd hr (Nat.succ_ne_zero _))
        (fun _ => rfl) hmode hreaders rfl rfl
  | eof ch =>
    obtain ⟨hroom, htail⟩ := hk
    have hnil := h.line_nil (.inr hkey)
    have hput := h.toKeeps.put_of_lt hroom htail ch
    rw [hnil] at hput
    have hone := hput.signaln (n := 1) le_rfl
    exact h.of_keeps (hnil ▸ hone) h.cursor h.late rfl rfl rfl rfl
  | char ch =>
    obtain ⟨hr, hroom⟩ := hk
    have hput := (@Keeps.congr _ _ _ { t with tyicursor := t.tyicursor + 1 } h.toKeeps
      rfl rfl rfl rfl rfl).put hroom ch
    obtain ⟨hcur, hres, -, hreaders, hmode⟩ :=
      wrapTail_same TY_IBUFLEN (Input.put ch { t with tyicursor := t.tyicursor + 1 })
    refine h.of_keeps hput ?_ ?_ hmode hreaders rfl rfl
    · intro _
      refine hcur.trans ?_
      change t.tyicursor + 1 = (e.line ++ [ch]).length
      rw [List.length_append, h.cursor hr]
      rfl
    · intro hne
      exact absurd (hres.trans hr) hne

end Input

namespace Ttycblk

variable {t t' : Ttycblk} {e : Editor} {es : List TtyEvent}

/-- The editor makes of a character in cooked mode what the handler makes of it. -/
theorem edit_eq (h : t.toInput.Shows e) (ch : UInt8) (hk : t.toInput.Fits (t.cookedKey ch)) :
    e.edit t.opt ch = e.act (t.cookedKey ch) := by
  unfold cookedKey at hk ⊢
  unfold Editor.edit
  by_cases hkill : ch = t.opt.tyikillc ∧ t.opt.tyikill
  · rw [if_pos hkill, if_pos hkill]
    rfl
  rw [if_neg hkill] at hk ⊢
  rw [if_neg hkill]
  by_cases her : ch = t.opt.tyierasec ∧ t.opt.tyierase
  · rw [if_pos her] at hk ⊢
    rw [if_pos her]
    by_cases hc : t.tyicursor > 0
    · rw [if_pos hc]
      rfl
    · -- an erase at the start of a line has nothing to erase
      have hnil := h.line_nil (.inr (Nat.eq_zero_of_not_pos hc))
      rw [if_neg hc]
      change { e with line := e.line.dropLast } = e
      rw [hnil, List.dropLast_nil, ← hnil]
  rw [if_neg her] at hk ⊢
  rw [if_neg her]
  by_cases hn : ch = TY_NEWLINE ∨ ch = TY_RETURN
  · rw [if_pos hn, if_pos (show Eol ch from hn)]
    rfl
  rw [if_neg hn] at hk ⊢
  rw [if_neg (show ¬ Eol ch from hn)]
  by_cases hf : t.availOf + t.tyicursor ≥ TY_IBUFLEN - 1
  · rw [if_pos hf] at hk
    exact hk.elim
  rw [if_neg hf] at hk ⊢
  by_cases heof : ch = t.opt.tyeofch ∧ t.opt.tyeof
  · rw [if_pos heof] at hk ⊢
    rw [if_pos heof]
    by_cases hc : t.tyicursor ≠ 0
    · rw [if_pos hc] at hk ⊢
      have hcur := h.cursor_eq hk
      have hne : ¬ e.line = [] := by
        intro hnil
        rw [hnil] at hcur
        exact hc hcur
      rw [if_neg hne]
      rfl
    · rw [if_neg hc, if_pos (h.line_nil (.inr (not_not.mp hc)))]
      rfl
  · rw [if_neg heof, if_neg heof]
    rfl

/-- **The editor makes of a character what the handler makes of it.** -/
theorem accept_eq (h : t.toInput.Shows e) (ch : UInt8) (hk : t.toInput.Fits (t.key ch)) :
    e.accept t.opt ch = e.act (t.key ch) := by
  have hmode := h.mode
  unfold key at hk ⊢
  unfold Editor.accept
  by_cases hraw : t.tyimode = .RAW
  · rw [if_pos hraw] at hk ⊢
    rw [if_pos (hmode.trans hraw)]
    by_cases hf : t.availOf ≥ TY_IBUFLEN
    · rw [if_pos hf] at hk
      exact hk.elim
    · rw [if_neg hf]
      rfl
  rw [if_neg hraw] at hk ⊢
  rw [if_neg (hmode ▸ hraw)]
  by_cases hflow : flow (mapped ch t.opt) t.opt
  · rw [if_pos hflow, if_pos hflow]
    rfl
  rw [if_neg hflow] at hk ⊢
  rw [if_neg hflow]
  by_cases hcb : t.tyimode = .CBREAK
  · -- a character that is stored in cbreak mode does not fit
    rw [if_pos hcb] at hk
    by_cases hf : t.availOf ≥ TY_IBUFLEN
    · rw [if_pos hf] at hk
      exact hk.elim
    · rw [if_neg hf] at hk
      exact hk.elim
  · rw [if_neg hcb] at hk ⊢
    rw [if_neg (hmode ▸ hcb)]
    exact edit_eq h _ hk

/-- The monitor follows a step, and the ring shows what the editor holds. -/
def Agrees (opt : Options) (e : Editor) (r : Ttycblk × List TtyEvent) : Prop :=
  ∃ e', Machine.feed (editor opt) e r.2 = some e' ∧ r.1.toInput.Shows e' ∧ r.1.opt = opt

/-- The events that the editor does not look at. -/
def unedited : TtyEvent → Bool
  | .rx _ | .mode _ | .got .. | .returned .. => false
  | _ => true

theorem feed_editor_unedited (opt : Options) (h : ∀ ev ∈ es, unedited ev) (e : Editor) :
    Machine.feed (editor opt) e es = some e := by
  refine Machine.feed_ignored ?_ e
  intro ev hev e
  have hun := h ev hev
  cases ev with
  | rx | mode | got | returned => cases hun
  | put | rub | avail | noRead | stored | sent | echoed => rfl

theorem act_unedited (t : Input) (k : Key) (switched : Bool) :
    ∀ ev ∈ (t.act switched k).2, unedited ev := by
  cases k <;> simp [Input.act, unedited]

theorem OutputOnly.agrees {r : Ttycblk × List TtyEvent} (hr : t.OutputOnly r)
    (h : t.toInput.Shows e) : Agrees t.opt e r := by
  obtain ⟨hin, hopt, hes⟩ := hr
  refine ⟨e, feed_editor_unedited t.opt ?_ e, ?_, hopt⟩
  · intro ev hev
    have hout := hes ev hev
    cases ev with
    | stored | sent | echoed => rfl
    | rx | mode | put | rub | avail | got | returned | noRead => cases hout
  · rw [hin]
    exact h

theorem ttyInter_in_agrees (h : t.toInput.Shows e) (ch : UInt8) (switched : Bool)
    (hk : t.toInput.Fits (t.key ch)) :
    Agrees t.opt e ((t.ttyInter_in ch switched).1, (t.ttyInter_in ch switched).2 ++ [.rx ch]) := by
  have hacts := ttyInter_in_acts t ch switched
  refine ⟨e.accept t.opt ch, ?_, ?_, hacts.opt⟩
  · rw [Machine.feed_append, Machine.feed_singleton, hacts.events]
    exact feed_editor_unedited t.opt (act_unedited _ _ _) _
  · rw [accept_eq h ch hk, hacts.input]
    exact h.act hk (key_cursor t ch) switched

/-! ## Readers -/

/-- What the next character is to a reader. -/
def nextItem (t : Ttycblk) : Item :=
  let ch := t.tyibuff t.tyihead
  if t.tyimode = .COOKED ∧ t.opt.tyeof ∧ ch = t.opt.tyeofch then .eof else .char ch

theorem getcValue_eq (t : Ttycblk) : t.getcValue (t.tyibuff t.tyihead) = t.nextItem.value := by
  unfold getcValue nextItem
  dsimp only
  by_cases h : t.tyimode = .COOKED ∧ t.opt.tyeof ∧ t.tyibuff t.tyihead = t.opt.tyeofch
  · rw [if_pos h, if_pos h]
    rfl
  · rw [if_neg h, if_neg h]
    rfl

/-- Only the call of one process changes. -/
theorem gets_update {i : Input} {items : List Item} {call : Option ReadCall}
    (h : ∀ pid, Gets (e.got pid) (i.readers pid)) (pid : Pid) (hg : Gets items call) (p : Pid) :
    Gets (Function.update e.got pid items p) (Function.update i.readers pid call p) := by
  by_cases hp : p = pid
  · rw [hp, Function.update_self, Function.update_self]
    exact hg
  · rw [Function.update_of_ne hp, Function.update_of_ne hp]
    exact h p

/-- **A reader that gets a unit gets the oldest character that is delivered**, and
returns what it has got. -/
theorem take_agrees (h : t.toInput.Shows e) {pid : Pid} {c : ReadCall} {s : Sema}
    (hs : t.tyisem.Takes pid s) (hg : Gets (e.got pid) (some c)) (ht : Tells t.nextItem c) :
    Agrees t.opt e ({ t with tyisem := s }.take pid c) := by
  obtain ⟨ch, out, hout⟩ := List.exists_cons_of_ne_nil (h.toKeeps.ready_ne_nil hs)
  have hkeeps := h.toKeeps
  rw [hout] at hkeeps
  obtain ⟨hch, htake⟩ := hkeeps.take hs
  have hitem : e.item t.opt ch = t.nextItem := by
    unfold Editor.item nextItem
    rw [h.mode, hch]
  have hgot : (editor t.opt).next e (.got pid (t.tyibuff t.tyihead)) =
      some { e with
        out := out
        got := Function.update e.got pid (e.got pid ++ [t.nextItem]) } := by
    rw [hch, ← hitem]
    change (match e.out with | [] => none | _ :: _ => _) = _
    rw [hout]
    exact if_pos rfl
  have hnext := readNext_gets hg ht
  have hvalue : getcValue { t with tyisem := s } (t.tyibuff t.tyihead) = t.nextItem.value :=
    getcValue_eq t
  unfold take
  dsimp only
  rw [hvalue]
  cases hr : readNext t.nextItem.value c with
  | inl c' =>
    rw [hr] at hnext
    refine ⟨_, hgot, ⟨htake.congr rfl rfl rfl rfl rfl, h.mode, h.cursor, h.late, ?_⟩, rfl⟩
    exact gets_update h.calls pid hnext
  | inr r =>
    rw [hr] at hnext
    refine ⟨{ e with
      out := out
      got := Function.update (Function.update e.got pid (e.got pid ++ [t.nextItem])) pid [] }, ?_,
      ⟨htake.congr rfl rfl rfl rfl rfl, h.mode, h.cursor, h.late, ?_⟩, rfl⟩
    · dsimp only
      rw [Machine.feed_cons, Machine.feed_singleton, hgot]
      refine if_pos ?_
      dsimp only
      rw [Function.update_self]
      exact hnext
    · rw [Function.update_idem]
      exact gets_update h.calls pid rfl

theorem reading_gets (h : t.toInput.Shows e) {a : TtyAct} {pid : Pid} {c : ReadCall}
    (hc : t.reading a = some (pid, c)) : Gets (e.got pid) (some c) := by
  have hcalls := h.calls
  cases a with
  | getc p =>
    change (if (t.readers p).isNone then _ else _) = _ at hc
    by_cases hn : (t.readers p).isNone
    · rw [if_pos hn] at hc
      cases hc
      have hg := hcalls pid
      rw [Option.isNone_iff_eq_none.mp hn] at hg
      exact hg
    · rw [if_neg hn] at hc
      cases hc
  | read p count =>
    change (if (t.readers p).isNone ∧ 0 ≤ count then _ else _) = _ at hc
    by_cases hn : (t.readers p).isNone ∧ 0 ≤ count
    · rw [if_pos hn] at hc
      have hg := hcalls p
      rw [Option.isNone_iff_eq_none.mp hn.1] at hg
      by_cases hm : t.tyimode ≠ .COOKED
      · rw [if_pos hm] at hc
        dsimp only at hc
        by_cases hz : (if count = 0 then t.tyisem.count else count) ≤ 0
        · rw [if_pos hz] at hc
          cases hc
        · rw [if_neg hz] at hc
          cases hc
          exact hg
      · rw [if_neg hm] at hc
        cases hc
        exact hg
    · rw [if_neg hn] at hc
      cases hc
  | readOn p | readWoken p =>
    obtain ⟨c', hc', heq⟩ := Option.map_eq_some_iff.mp hc
    cases heq
    exact hc' ▸ hcalls pid
  | rx | reset | tx | setMode | setEcho | putc | putOn | putWoken => cases hc

/-! ## Runs -/

/-- A step in which an arriving character fits, and a reader that gets a
character can tell what it is. -/
def Promised (t : Ttycblk) : TtyAct → Prop
  | .rx ch _ => t.Fits (t.key ch)
  | a => ∀ r ∈ t.reading a,
      ((t.tyisem.wait r.1).1 ∨ r.1 ∈ t.tyisem.released) → Tells t.nextItem r.2

instance (t : Ttycblk) : ∀ a : TtyAct, Decidable (Promised t a)
  | .rx ch _ => inferInstanceAs (Decidable (t.Fits (t.key ch)))
  | .reset | .tx | .setMode _ | .setEcho _ | .getc _ | .read .. | .readOn _ | .readWoken _
  | .putc .. | .putOn _ | .putWoken _ =>
    inferInstanceAs (Decidable (∀ r ∈ t.reading _,
      ((t.tyisem.wait r.1).1 ∨ r.1 ∈ t.tyisem.released) → Tells t.nextItem r.2))

theorem Reads.agrees {a : TtyAct} {r : Ttycblk × List TtyEvent} (hr : t.Reads a r)
    (h : t.toInput.Shows e) (hok : ∀ r ∈ t.reading a,
      ((t.tyisem.wait r.1).1 ∨ r.1 ∈ t.tyisem.released) → Tells t.nextItem r.2) :
    Agrees t.opt e r := by
  cases hr with
  | idle pid v => exact ⟨e, rfl, h, rfl⟩
  | @waits pid c hc hw =>
    refine ⟨e, rfl, ⟨(h.toKeeps.wait hw).congr rfl rfl rfl rfl rfl, h.mode, h.cursor, h.late, ?_⟩,
      rfl⟩
    intro p
    have hg := gets_update h.calls pid (reading_gets h hc) p
    rw [Function.update_eq_self] at hg
    exact hg
  | @takes pid c s hc hs =>
    refine take_agrees h hs (reading_gets h hc) (hok _ hc ?_)
    cases hs with
    | wait hw => exact .inl hw
    | resume hp => exact .inr hp

/-- **One step keeps the tty and the editor together.** -/
theorem step_agrees (h : t.toInput.Shows e) {a : TtyAct} (hok : Promised t a)
    (hst : t.step a = some (t', es)) : Agrees t.opt e (t', es) := by
  cases a with
  | rx ch switched =>
    rw [step_rx] at hst
    cases hst
    exact ttyInter_in_agrees h ch switched hok
  | reset =>
    change (if t.resets = 0 then none else _) = _ at hst
    by_cases hr : t.resets = 0
    · rw [if_pos hr] at hst
      cases hst
    · rw [if_neg hr] at hst
      cases hst
      have hnil := h.late hr
      refine ⟨e, rfl, ⟨h.toKeeps.congr rfl rfl rfl rfl rfl, h.mode, ?_, fun _ => hnil, h.calls⟩, rfl⟩
      intro _
      rw [hnil]
      rfl
  | tx =>
    have hr := (ttyInter_out_outputOnly t).agrees h
    rw [Option.some.inj hst] at hr
    exact hr
  | setMode m =>
    cases hst
    exact ⟨{ e with mode := m }, rfl,
      ⟨h.toKeeps.congr rfl rfl rfl rfl rfl, rfl, h.cursor, h.late, h.calls⟩, rfl⟩
  | setEcho b =>
    cases hst
    exact ⟨e, rfl, h, rfl⟩
  | getc | read | readOn | readWoken => exact (step_reads rfl hst).agrees h hok
  | putc | putOn | putWoken => exact (step_writes rfl hst).outputOnly.agrees h

theorem Started.shows {opt : Options} (h : Started opt t) : t.toInput.Shows {} := by
  refine ⟨h.edits.toKeeps, h.imode.symm, fun _ => h.cursor, fun _ => rfl, ?_⟩
  intro pid
  rw [h.readers pid]
  rfl

/-- The readers have got the characters of the editor, and each that is delivered
and not read has a unit, which a reader can take or has been given; none of them
is left while a reader waits. -/
def Delivers (opt : Options) (tr : List TtyEvent) (t : Ttycblk) : Prop :=
  ∃ e, (editor opt).run tr = some e ∧
    (e.out.length : Int) = max t.tyisem.count 0 + t.tyisem.released.length ∧
    (t.tyisem.queue ≠ [] → e.out.length = t.tyisem.released.length)

/-- **Readers get what the line editor delivers**, in every run in which the
characters fit and readers can tell them. -/
theorem input_edited_without_slip {opt : Options} {tr : List TtyEvent}
    (r : (machine opt).Run Promised tr t) : Delivers opt tr t := by
  have hacc : ∃ e, (editor opt).run tr = some e ∧ t.toInput.Shows e ∧ t.opt = opt := by
    refine r.accepted (R := fun e t => t.toInput.Shows e ∧ t.opt = opt) ?_ ?_
    · intro t h
      exact ⟨h.shows, h.opt⟩
    · rintro e t t' a es ⟨h, rfl⟩ hok hst
      exact step_agrees h hok hst
  obtain ⟨e, hrun, hshows, -⟩ := hacc
  have hunits := hshows.units
  refine ⟨e, hrun, ?_, ?_⟩
  · rw [← hunits]
    exact hshows.isem.units_eq
  · intro hq
    rw [hshows.isem.units_of_waiting hq] at hunits
    exact (Int.ofNat_inj.mp hunits).symm

/-! ## A line, and cbreak mode -/

/-- `ab`, an erase and `c` are typed; a reader gets `ac`. -/
def editLine : List TtyAct :=
  [.setMode .COOKED, .rx 97 false, .rx 98 false, .rx TY_BACKSP false, .rx 99 false,
    .rx TY_RETURN false, .read 1 100, .readOn 1, .readOn 1]

theorem input_edited_without_slip_line :
    ∃ tr t, (machine {}).exec Promised boot [] editLine = some (t, tr) ∧
      tr.head? = some (.returned 1 (.line 100) 3 [97, 99, TY_NEWLINE]) ∧ Delivers {} tr t := by
  have hrun : ((machine {}).exec Promised boot [] editLine).any
      (fun r => r.2.head? == some (.returned 1 (.line 100) 3 [97, 99, TY_NEWLINE])) := by
    decide +kernel
  obtain ⟨⟨t, tr⟩, hst, hret⟩ := (Option.any_eq_true _ _).mp hrun
  exact ⟨tr, t, hst, eq_of_beq hret,
    input_edited_without_slip (Machine.exec_run (.start boot_started) hst)⟩

/-- **In cbreak mode a reader waits for ever**: the characters are stored, and
`tyisem` is not signalled. -/
theorem input_not_edited :
    ¬ ∀ opt tr t, (machine opt).Run (fun _ _ => True) tr t → Delivers opt tr t := by
  intro hall
  have hrun : ((machine {}).exec (fun _ _ => True) boot []
      [.setMode .CBREAK, .getc 1, .rx 97 false]).any
      (fun r => r.1.tyisem.queue ≠ [] ∧ r.1.tyisem.released = [] ∧
        ((editor {}).run r.2).any fun e => e.out ≠ []) := by
    decide +kernel
  obtain ⟨⟨t, tr⟩, hst, hwaits⟩ := (Option.any_eq_true _ _).mp hrun
  rw [decide_eq_true_eq] at hwaits
  obtain ⟨hq, hrel, hout⟩ := hwaits
  obtain ⟨e, he, -, hlen⟩ := hall {} tr t (Machine.exec_run (.start boot_started) hst)
  rw [he] at hout
  have hzero := hlen hq
  rw [hrel] at hzero
  exact of_decide_eq_true hout (List.length_eq_zero_iff.mp hzero)

end Ttycblk

end Xinu.Tty
