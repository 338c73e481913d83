import XinuCMips.Tty.Steps

/-!
# The input ring of a tty

The buffer holds the characters that are available to readers, and behind them
those of the unfinished line. The handler appends to the line and takes back
from it; `signaln` hands its characters over.

* `input_intact_without_slip` — the pointers stay in the buffer, every unread
  character stays in its slot, and `tyisem` counts no more characters than are
  available, as long as no character is stored in a full buffer, no kill goes
  back over the start of the buffer, no EOF is stored in the last slot, and no
  line is ended or edited with a cursor that is out of date;
* `input_not_intact`          — a kill moves the head instead of the tail.
-/

namespace Xinu.Tty

/-- What is available, and the unfinished line. A character that is stored where
an unread one is, characters taken back or made available that are not of the
line, and one read that is not the oldest, break the rules. -/
def ring : Monitor TtyEvent (List UInt8 × List UInt8) where
  init := ([], [])
  next q
    | .put ch =>
      if q.1.length + q.2.length < TY_IBUFLEN then some (q.1, q.2 ++ [ch]) else none
    | .rub n => if n ≤ q.2.length then some (q.1, q.2.take (q.2.length - n)) else none
    | .avail n => if n ≤ q.2.length then some (q.1 ++ q.2.take n, q.2.drop n) else none
    | .got _ ch =>
      match q.1 with
      | [] => none
      | c :: ready => if c = ch then some (ready, q.2) else none
    | _ => some q

/-- The buffer holds these characters, from the slot `head` to the tail. -/
structure Input.Holds (head : Nat) (q : List UInt8) (t : Input) : Prop where
  ihead : t.tyihead = head
  head_lt : head < TY_IBUFLEN
  itail : t.tyitail = ((head + q.length) % TY_IBUFLEN : Nat)
  slots : Ring.Holds TY_IBUFLEN (fun i : Nat => t.tyibuff i) head q

/-- **The buffer holds the available characters and the line, and `tyisem` has a
unit for each that is available.** -/
structure Input.Keeps (ready line : List UInt8) (t : Input) : Prop where
  holds : ∃ head, t.Holds head (ready ++ line)
  room : ready.length + line.length ≤ TY_IBUFLEN
  unread : t.unread = ready.length + line.length
  isem : t.tyisem.Ok
  units : t.tyisem.units = ready.length

namespace Input

variable {t : Input} {head n : Nat} {q ready line : List UInt8} {ch c : UInt8}

/-! ## The ring -/

theorem update_slots (f : Int → UInt8) (i : Nat) (ch : UInt8) :
    (fun k : Nat => Function.update f i ch k) = Function.update (fun k : Nat => f k) i ch := by
  funext k
  by_cases hk : k = i
  · rw [hk, Function.update_self, Function.update_self]
  · rw [Function.update_of_ne hk, Function.update_of_ne (by omega)]

theorem wrapTail_of_lt {len : Nat} (h : t.tyitail < len) : t.wrapTail len = t :=
  if_neg (not_le.mpr h)

theorem Holds.itail_lt (h : t.Holds head q) : 0 ≤ t.tyitail ∧ t.tyitail < TY_IBUFLEN := by
  have := Nat.mod_lt (head + q.length) (show TY_IBUFLEN > 0 by decide)
  rw [h.itail]
  omega

theorem Holds.put_slots (h : t.Holds head q) (hlen : q.length < TY_IBUFLEN) (ch : UInt8) :
    Ring.Holds TY_IBUFLEN (fun i : Nat => (t.put ch).tyibuff i) head (q ++ [ch]) := by
  change Ring.Holds _ (fun i : Nat => Function.update t.tyibuff t.tyitail ch i) _ _
  rw [h.itail, update_slots]
  exact h.slots.enqueue hlen ch

theorem Holds.put (h : t.Holds head q) (hlen : q.length < TY_IBUFLEN) (ch : UInt8) :
    ((t.put ch).wrapTail TY_IBUFLEN).Holds head (q ++ [ch]) := by
  have htail := h.itail
  have hslots := h.put_slots hlen ch
  have hput : (t.put ch).tyitail = t.tyitail + 1 := rfl
  unfold wrapTail
  unfold TY_IBUFLEN at *
  by_cases hw : (t.put ch).tyitail ≥ (128 : Nat)
  · rw [if_pos hw]
    refine ⟨h.ihead, h.head_lt, ?_, hslots⟩
    rw [List.length_append, List.length_singleton]
    dsimp only
    unfold TY_IBUFLEN
    omega
  · rw [if_neg hw]
    refine ⟨h.ihead, h.head_lt, ?_, hslots⟩
    rw [List.length_append, List.length_singleton]
    unfold TY_IBUFLEN
    omega

/-- Below the last slot there is nothing to wrap. -/
theorem Holds.put_of_lt (h : t.Holds head q) (hlen : q.length < TY_IBUFLEN)
    (ht : t.tyitail + 1 < TY_IBUFLEN) (ch : UInt8) : (t.put ch).Holds head (q ++ [ch]) := by
  have hput := h.put hlen ch
  rwa [wrapTail_of_lt (show (t.put ch).tyitail < _ from ht)] at hput

/-- Taking back the last characters. -/
theorem Holds.take {t' : Input} (h : t.Holds head q) (hn : n ≤ q.length)
    (hhead : t'.tyihead = t.tyihead) (hbuff : t'.tyibuff = t.tyibuff)
    (htail : t'.tyitail = ((head + n) % TY_IBUFLEN : Nat)) : t'.Holds head (q.take n) := by
  refine ⟨hhead.trans h.ihead, h.head_lt, ?_, ?_⟩
  · rw [htail, List.length_take, min_eq_left hn]
  · intro k a hk
    rw [hbuff]
    refine h.slots k a ?_
    rw [List.getElem?_take] at hk
    by_cases hkn : k < n
    · rwa [if_pos hkn] at hk
    · rw [if_neg hkn] at hk
      cases hk

/-- The head moves past the oldest character. -/
theorem Holds.next (h : t.Holds head (c :: q)) :
    Holds (Ring.next TY_IBUFLEN head) q
      { t with tyihead := if t.tyihead + 1 ≥ TY_IBUFLEN then 0 else t.tyihead + 1 } := by
  have hlt := h.head_lt
  refine ⟨?_, Ring.next_lt (by decide), ?_, h.slots.dequeue hlt⟩
  · dsimp only
    unfold Ring.next
    rw [h.ihead]
    by_cases hw : head + 1 ≥ TY_IBUFLEN
    · rw [if_pos hw, if_pos (by omega)]
      rfl
    · rw [if_neg hw, if_neg (by omega)]
      rfl
  · dsimp only
    rw [h.itail, Ring.tail_dequeue hlt]

theorem Holds.front (h : t.Holds head (c :: q)) : t.tyibuff t.tyihead = c := by
  rw [h.ihead]
  exact h.slots.front h.head_lt

/-! ## The available characters and the line -/

/-- What the invariant reads. -/
theorem Keeps.congr {t' : Input} (h : t.Keeps ready line) (hhead : t'.tyihead = t.tyihead)
    (htail : t'.tyitail = t.tyitail) (hbuff : t'.tyibuff = t.tyibuff)
    (hsem : t'.tyisem = t.tyisem) (hunread : t'.unread = t.unread) : t'.Keeps ready line := by
  obtain ⟨head, hh⟩ := h.holds
  refine ⟨⟨head, hhead.trans hh.ihead, hh.head_lt, htail.trans hh.itail, ?_⟩, h.room,
    hunread.trans h.unread, ?_, ?_⟩
  · rw [hbuff]
    exact hh.slots
  · rw [hsem]
    exact h.isem
  · rw [hsem]
    exact h.units

theorem Keeps.length_eq (h : t.Keeps ready line) : (line.length : Int) = t.unread - t.tyisem.units := by
  rw [h.unread, h.units]
  omega

/-- **Storing a character makes the line longer.** -/
theorem Keeps.put (h : t.Keeps ready line) (hroom : t.unread < TY_IBUFLEN) (ch : UInt8) :
    ((t.put ch).wrapTail TY_IBUFLEN).Keeps ready (line ++ [ch]) := by
  obtain ⟨head, hh⟩ := h.holds
  have hunread := h.unread
  have hlen : (ready ++ line).length < TY_IBUFLEN := by
    rw [List.length_append]
    omega
  have hput := hh.put hlen ch
  rw [List.append_assoc] at hput
  have hsame : ((t.put ch).wrapTail TY_IBUFLEN).tyisem = t.tyisem ∧
      ((t.put ch).wrapTail TY_IBUFLEN).unread = t.unread + 1 := by
    unfold wrapTail
    by_cases hw : (t.put ch).tyitail ≥ TY_IBUFLEN
    · rw [if_pos hw]
      exact ⟨rfl, rfl⟩
    · rw [if_neg hw]
      exact ⟨rfl, rfl⟩
  refine ⟨⟨head, hput⟩, ?_, ?_, ?_, ?_⟩
  · rw [List.length_append, List.length_singleton]
    omega
  · rw [hsame.2, List.length_append, List.length_singleton, hunread]
    omega
  · rw [hsame.1]
    exact h.isem
  · rw [hsame.1]
    exact h.units

theorem Keeps.put_of_lt (h : t.Keeps ready line) (hroom : t.unread < TY_IBUFLEN)
    (ht : t.tyitail + 1 < TY_IBUFLEN) (ch : UInt8) : (t.put ch).Keeps ready (line ++ [ch]) := by
  have hput := h.put hroom ch
  rwa [wrapTail_of_lt (show (t.put ch).tyitail < _ from ht)] at hput

/-- **Signalling makes the first characters of the line available.** -/
theorem Keeps.signaln (h : t.Keeps ready line) (hn : n ≤ line.length) :
    Keeps (ready ++ line.take n) (line.drop n) { t with tyisem := t.tyisem.signaln n } := by
  obtain ⟨head, hh⟩ := h.holds
  have hsplit : ready ++ line.take n ++ line.drop n = ready ++ line := by
    rw [List.append_assoc, List.take_append_drop]
  have hlen : (ready ++ line.take n).length + (line.drop n).length = ready.length + line.length := by
    rw [← List.length_append, hsplit, List.length_append]
  refine ⟨⟨head, ?_⟩, ?_, ?_, Sema.signaln_ok h.isem n, ?_⟩
  · rw [hsplit]
    exact ⟨hh.ihead, hh.head_lt, hh.itail, hh.slots⟩
  · rw [hlen]
    exact h.room
  · change t.unread = _
    rw [h.unread]
    omega
  · change (t.tyisem.signaln n).units = _
    rw [Sema.signaln_units h.isem, h.units, List.length_append, List.length_take, min_eq_left hn]
    omega

/-- **Taking back makes the line shorter.** -/
theorem Keeps.rub {t' : Input} (h : t.Keeps ready line) (hn : n ≤ line.length)
    (hhead : t'.tyihead = t.tyihead) (hbuff : t'.tyibuff = t.tyibuff)
    (hsem : t'.tyisem = t.tyisem) (hunread : t'.unread = t.unread - n)
    (htail : ∀ head, t.tyitail = ((head + (ready ++ line).length) % TY_IBUFLEN : Nat) →
      t'.tyitail = ((head + ((ready ++ line).length - n)) % TY_IBUFLEN : Nat)) :
    t'.Keeps ready (line.take (line.length - n)) := by
  obtain ⟨head, hh⟩ := h.holds
  have hroom := h.room
  have hle : n ≤ (ready ++ line).length := by
    rw [List.length_append]
    omega
  have htake : ready ++ line.take (line.length - n) =
      (ready ++ line).take ((ready ++ line).length - n) := by
    have hready : ready.take (ready.length + line.length - n) = ready :=
      List.take_of_length_le (by omega)
    have hrest : ready.length + line.length - n - ready.length = line.length - n := by omega
    rw [List.take_append, List.length_append, hready, hrest]
  have hlen : (line.take (line.length - n)).length = line.length - n := by
    rw [List.length_take, min_eq_left (Nat.sub_le _ _)]
  refine ⟨⟨head, ?_⟩, ?_, ?_, ?_, ?_⟩
  · rw [htake]
    exact hh.take (Nat.sub_le _ _) hhead hbuff (htail head hh.itail)
  · omega
  · rw [hunread, h.unread, hlen]
    omega
  · rw [hsem]
    exact h.isem
  · rw [hsem]
    exact h.units

theorem Keeps.ready_ne_nil {p : Pid} {s : Sema} (h : t.Keeps ready line)
    (hs : t.tyisem.Takes p s) : ready ≠ [] := by
  have hpos := hs.units_pos h.isem
  rw [h.units] at hpos
  exact List.length_pos_iff.mp (by omega)

/-- **A reader that gets a unit takes the oldest character.** -/
theorem Keeps.take {p : Pid} {s : Sema} (h : t.Keeps (c :: ready) line)
    (hs : t.tyisem.Takes p s) :
    t.tyibuff t.tyihead = c ∧ Keeps ready line
      { t with
        tyisem := s
        tyihead := if t.tyihead + 1 ≥ TY_IBUFLEN then 0 else t.tyihead + 1
        unread := t.unread - 1 } := by
  obtain ⟨head, hh⟩ := h.holds
  have hroom := h.room
  have hunits := hs.units
  rw [h.units] at hunits
  rw [List.length_cons] at hroom hunits
  have hnext := hh.next
  refine ⟨hh.front, ⟨_, hnext.ihead, hnext.head_lt, hnext.itail, hnext.slots⟩, ?_, ?_, hs.ok h.isem,
    ?_⟩
  · omega
  · change t.unread - 1 = _
    rw [h.unread, List.length_cons]
    omega
  · change s.units = _
    omega

/-- A reader that waits takes nothing. -/
theorem Keeps.wait {p : Pid} (h : t.Keeps ready line) (hw : ¬ (t.tyisem.wait p).1) :
    Keeps ready line { t with tyisem := (t.tyisem.wait p).2 } := by
  have hunits := Sema.wait_units t.tyisem p
  rw [if_neg hw, h.units] at hunits
  obtain ⟨head, hh⟩ := h.holds
  exact ⟨⟨head, hh.ihead, hh.head_lt, hh.itail, hh.slots⟩, h.room, h.unread,
    Sema.wait_ok h.isem p, hunits⟩

/-- The tail after a kill that stays in the buffer. -/
theorem Keeps.kill {t' : Input} (h : t.Keeps ready line) (hn : n ≤ line.length)
    (htail : (n : Int) ≤ t.tyitail) (hhead : t'.tyihead = t.tyihead)
    (hbuff : t'.tyibuff = t.tyibuff) (hsem : t'.tyisem = t.tyisem)
    (hunread : t'.unread = t.unread - n) (htail' : t'.tyitail = t.tyitail - n) :
    t'.Keeps ready (line.take (line.length - n)) := by
  refine h.rub hn hhead hbuff hsem hunread ?_
  intro head hh
  have hroom := h.room
  rw [htail']
  rw [List.length_append] at *
  unfold TY_IBUFLEN at *
  omega

/-- The tail after an erase, wrapped. -/
theorem Keeps.erase {t' : Input} (h : t.Keeps ready line) (hn : 1 ≤ line.length)
    (hhead : t'.tyihead = t.tyihead)
    (hbuff : t'.tyibuff = t.tyibuff) (hsem : t'.tyisem = t.tyisem)
    (hunread : t'.unread = t.unread - 1)
    (htail' : t'.tyitail =
      if t.tyitail - 1 < 0 then t.tyitail - 1 + TY_IBUFLEN else t.tyitail - 1) :
    t'.Keeps ready (line.take (line.length - 1)) := by
  refine h.rub hn hhead hbuff hsem hunread ?_
  intro head hh
  rw [htail']
  rw [List.length_append] at *
  unfold TY_IBUFLEN at *
  by_cases hw : t.tyitail - 1 < 0
  · rw [if_pos hw]
    omega
  · rw [if_neg hw]
    omega

/-! ## Arriving characters -/

/-- The cursor counts characters of the unfinished line only. A handler that was
switched out resets it late. -/
def Counts (n : Nat) (t : Input) : Prop := t.resets = 0 ∨ n ≤ t.unread - t.tyisem.units

instance (n : Nat) (t : Input) : Decidable (t.Counts n) := inferInstanceAs (Decidable (_ ∨ _))

/-- A stored character finds room; a kill does not go back over the start of the
buffer; an EOF, behind which the tail is not wrapped, is not stored in the last
slot. -/
def Safe (t : Input) : Key → Prop
  | .none | .full | .ignored => True
  | .single _ | .hidden _ | .char _ => t.unread < TY_IBUFLEN
  | .kill => t.Counts t.tyicursor ∧ t.tyicursor ≤ t.tyitail
  | .erase => t.Counts 1
  | .newline _ => t.Counts t.tyicursor ∧ t.unread < TY_IBUFLEN
  | .eof _ => t.unread < TY_IBUFLEN ∧ t.tyitail + 1 < TY_IBUFLEN

instance (t : Input) : ∀ k : Key, Decidable (t.Safe k)
  | .none | .full | .ignored => inferInstanceAs (Decidable True)
  | .single _ | .hidden _ | .char _ => inferInstanceAs (Decidable (_ < _))
  | .kill | .newline _ | .eof _ => inferInstanceAs (Decidable (_ ∧ _))
  | .erase => inferInstanceAs (Decidable (t.Counts 1))

/-- The queue, and the cursor where no handler has still to reset it. -/
structure Edits (ready line : List UInt8) (t : Input) : Prop extends t.Keeps ready line where
  cursor : t.resets = 0 → t.tyicursor ≤ line.length

theorem Edits.counts (h : t.Edits ready line) (hc : t.Counts n)
    (hn : n ≤ t.tyicursor) : n ≤ line.length := by
  have hlen := h.toKeeps.length_eq
  rcases hc with hc | hc
  · exact hn.trans (h.cursor hc)
  · omega

theorem wrapTail_same (len : Nat) (t : Input) :
    (t.wrapTail len).tyicursor = t.tyicursor ∧ (t.wrapTail len).resets = t.resets ∧
      (t.wrapTail len).tyisem = t.tyisem ∧ (t.wrapTail len).readers = t.readers ∧
      (t.wrapTail len).tyimode = t.tyimode := by
  unfold wrapTail
  by_cases hw : t.tyitail ≥ len
  · rw [if_pos hw]
    exact ⟨rfl, rfl, rfl, rfl, rfl⟩
  · rw [if_neg hw]
    exact ⟨rfl, rfl, rfl, rfl, rfl⟩

/-- The monitor follows, and the queue is kept. -/
def Follows (q : List UInt8 × List UInt8) (r : Input × List TtyEvent) : Prop :=
  ∃ ready line, Machine.feed ring q r.2 = some (ready, line) ∧ r.1.Edits ready line

theorem feed_put (h : t.Keeps ready line) (hroom : t.unread < TY_IBUFLEN) (ch : UInt8) :
    Machine.feed ring (ready, line) [.put ch] = some (ready, line ++ [ch]) := by
  have hlen : ready.length + line.length < TY_IBUFLEN := by
    have := h.unread
    omega
  exact if_pos hlen

/-- A character that is stored and signals so many of the line. -/
theorem feed_avail_put (h : t.Keeps ready line) (hroom : t.unread < TY_IBUFLEN) (ch : UInt8)
    (hn : n ≤ (line ++ [ch]).length) :
    Machine.feed ring (ready, line) [.avail n, .put ch] =
      some (ready ++ (line ++ [ch]).take n, (line ++ [ch]).drop n) := by
  rw [Machine.feed_cons, feed_put h hroom ch]
  exact if_pos hn

theorem feed_rub (hn : n ≤ line.length) :
    Machine.feed ring (ready, line) [.rub n] = some (ready, line.take (line.length - n)) :=
  if_pos hn

/-- **What a character does keeps the ring**, where it is safe. -/
theorem Edits.act (h : t.Edits ready line) {k : Key} (hk : t.Safe k)
    (hkey : Ttycblk.Cursor t k) (switched : Bool) :
    Follows (ready, line) (t.act switched k) := by
  cases k with
  | none | full | ignored => exact ⟨ready, line, rfl, h⟩
  | single ch =>
    have hput := h.put hk ch
    have hlen : 1 ≤ (line ++ [ch]).length := by simp
    have hone := hput.signaln hlen
    obtain ⟨hcur, hres, -, -, -⟩ := wrapTail_same TY_IBUFLEN (t.put ch)
    refine ⟨_, _, feed_avail_put h.toKeeps hk ch hlen, hone, ?_⟩
    intro hr
    change ((t.put ch).wrapTail TY_IBUFLEN).tyicursor ≤ _
    rw [hcur, List.length_drop, List.length_append, List.length_singleton]
    exact h.cursor (hres.symm.trans hr)
  | hidden ch =>
    obtain ⟨hcur, hres, -, -, -⟩ := wrapTail_same TY_IBUFLEN (t.put ch)
    refine ⟨_, _, feed_put h.toKeeps hk ch, h.put hk ch, ?_⟩
    intro hr
    change ((t.put ch).wrapTail TY_IBUFLEN).tyicursor ≤ _
    have hle := h.cursor (hres.symm.trans hr)
    rw [hcur, List.length_append]
    exact hle.trans (Nat.le_add_right _ _)
  | kill =>
    obtain ⟨hcount, htail⟩ := hk
    have hn := h.counts hcount le_rfl
    have hlt : ¬ t.tyitail - t.tyicursor < 0 := by omega
    refine ⟨_, _, feed_rub hn, h.kill hn htail (if_neg hlt) rfl rfl rfl rfl, ?_⟩
    intro _
    exact Nat.zero_le _
  | erase =>
    have hn := h.counts hk hkey
    refine ⟨_, _, feed_rub hn, h.erase hn rfl rfl rfl rfl rfl, ?_⟩
    intro hr
    change t.tyicursor - 1 ≤ _
    have hle := h.cursor hr
    rw [List.length_take]
    omega
  | newline ch =>
    obtain ⟨hcount, hroom⟩ := hk
    have hn := h.counts hcount le_rfl
    have hlen : t.tyicursor + 1 ≤ (line ++ [ch]).length := by
      rw [List.length_append, List.length_singleton]
      omega
    have hline := (h.put hroom ch).signaln hlen
    refine ⟨_, _, feed_avail_put h.toKeeps hroom ch hlen, ?_⟩
    cases switched with
    | false => exact ⟨hline.congr rfl rfl rfl rfl rfl, fun _ => Nat.zero_le _⟩
    | true => exact ⟨hline.congr rfl rfl rfl rfl rfl, fun hr => absurd hr (Nat.succ_ne_zero _)⟩
  | eof ch =>
    obtain ⟨hroom, htail⟩ := hk
    have hput := h.put_of_lt hroom htail ch
    have hlen : 1 ≤ (line ++ [ch]).length := by simp
    have hone := hput.signaln hlen
    refine ⟨_, _, feed_avail_put h.toKeeps hroom ch hlen, hone, ?_⟩
    intro hr
    rw [List.length_drop, List.length_append, List.length_singleton]
    exact h.cursor hr
  | char ch =>
    have hput := (@Keeps.congr _ _ _ { t with tyicursor := t.tyicursor + 1 } h.toKeeps
      rfl rfl rfl rfl rfl).put hk ch
    obtain ⟨hcur, hres, -, -, -⟩ :=
      wrapTail_same TY_IBUFLEN (Input.put ch { t with tyicursor := t.tyicursor + 1 })
    refine ⟨_, _, feed_put h.toKeeps hk ch, hput, ?_⟩
    intro hr
    change (wrapTail _ (Input.put ch { t with tyicursor := t.tyicursor + 1 })).tyicursor ≤ _
    have hle := h.cursor (hres.symm.trans hr)
    rw [hcur, List.length_append]
    exact Nat.succ_le_succ hle

end Input

namespace Ttycblk

variable {t t' : Ttycblk} {ready line : List UInt8} {es : List TtyEvent}

/-! ## Runs -/

/-- A step in which an arriving character is safe. -/
def Sound (t : Ttycblk) : TtyAct → Prop
  | .rx ch _ => t.Safe (t.key ch)
  | _ => True

instance (t : Ttycblk) : ∀ a : TtyAct, Decidable (Sound t a)
  | .rx ch _ => inferInstanceAs (Decidable (t.Safe (t.key ch)))
  | .reset | .tx | .setMode _ | .setEcho _ | .getc _ | .read .. | .readOn _ | .readWoken _
  | .putc .. | .putOn _ | .putWoken _ => inferInstanceAs (Decidable True)

theorem feed_ring_output (h : ∀ e ∈ es, ofOutput e) (q : List UInt8 × List UInt8) :
    Machine.feed ring q es = some q := by
  refine Machine.feed_ignored ?_ q
  intro e he q
  have hout := h e he
  cases e with
  | stored | sent | echoed => rfl
  | rx | mode | put | rub | avail | got | returned | noRead => cases hout

theorem OutputOnly.follows {r : Ttycblk × List TtyEvent} (hr : t.OutputOnly r)
    (h : t.toInput.Edits ready line) : Input.Follows (ready, line) (r.1.toInput, r.2) := by
  obtain ⟨hin, -, hes⟩ := hr
  refine ⟨ready, line, feed_ring_output hes _, ?_⟩
  rw [hin]
  exact h

/-- The state and the events of taking a character, but for the call. -/
theorem take_input (t : Ttycblk) (pid : Pid) (c : ReadCall) :
    (∃ readers, (t.take pid c).1.toInput =
      { t.toInput with
        tyihead := if t.tyihead + 1 ≥ TY_IBUFLEN then 0 else t.tyihead + 1
        unread := t.unread - 1
        readers := readers }) ∧
    ∀ q, Machine.feed ring q (t.take pid c).2 = ring.next q (.got pid (t.tyibuff t.tyihead)) := by
  unfold take
  dsimp only
  cases readNext (t.getcValue (t.tyibuff t.tyihead)) c with
  | inl c' => exact ⟨⟨_, rfl⟩, fun q => rfl⟩
  | inr r =>
    refine ⟨⟨_, rfl⟩, ?_⟩
    intro q
    rw [Machine.feed_cons, Machine.feed_singleton]
    cases ring.next q (.got pid (t.tyibuff t.tyihead)) with
    | none => rfl
    | some q => rfl

/-- **A reader waits, or takes the oldest character that is available.** -/
theorem Reads.follows {a : TtyAct} {r : Ttycblk × List TtyEvent} (hr : t.Reads a r)
    (h : t.toInput.Edits ready line) : Input.Follows (ready, line) (r.1.toInput, r.2) := by
  cases hr with
  | idle pid v => exact ⟨ready, line, rfl, h⟩
  | @waits pid c hc hw =>
    refine ⟨ready, line, rfl, ?_, h.cursor⟩
    exact (h.toKeeps.wait hw).congr rfl rfl rfl rfl rfl
  | @takes pid c s hc hs =>
    obtain ⟨⟨readers, hin⟩, hfeed⟩ := take_input { t with tyisem := s } pid c
    obtain ⟨ch, ready', rfl⟩ := List.exists_cons_of_ne_nil (h.toKeeps.ready_ne_nil hs)
    obtain ⟨hch, htake⟩ := h.toKeeps.take hs
    refine ⟨ready', line, ?_, ?_⟩
    · rw [hfeed]
      exact if_pos hch.symm
    · rw [hin]
      exact ⟨htake.congr rfl rfl rfl rfl rfl, h.cursor⟩

/-- **One step keeps the ring.** -/
theorem step_edits (h : t.toInput.Edits ready line) {a : TtyAct} (hok : Sound t a)
    (hst : t.step a = some (t', es)) : Input.Follows (ready, line) (t'.toInput, es) := by
  cases a with
  | rx ch switched =>
    rw [step_rx] at hst
    cases hst
    have hacts := ttyInter_in_acts t ch switched
    obtain ⟨ready', line', hfeed, hedits⟩ := h.act hok (key_cursor t ch) switched
    refine ⟨ready', line', ?_, ?_⟩
    · rw [Machine.feed_append, Machine.feed_singleton, hacts.events]
      exact hfeed
    · rw [hacts.input]
      exact hedits
  | reset =>
    change (if t.resets = 0 then none else _) = _ at hst
    by_cases hr : t.resets = 0
    · rw [if_pos hr] at hst
      cases hst
    · rw [if_neg hr] at hst
      cases hst
      exact ⟨ready, line, rfl, h.toKeeps.congr rfl rfl rfl rfl rfl, fun _ => Nat.zero_le _⟩
  | tx =>
    have hr := (ttyInter_out_outputOnly t).follows h
    rw [Option.some.inj hst] at hr
    exact hr
  | setMode m =>
    cases hst
    exact ⟨ready, line, rfl, h.toKeeps.congr rfl rfl rfl rfl rfl, h.cursor⟩
  | setEcho b =>
    cases hst
    exact ⟨ready, line, rfl, h⟩
  | getc | read | readOn | readWoken => exact (step_reads rfl hst).follows h
  | putc | putOn | putWoken => exact (step_writes rfl hst).outputOnly.follows h

theorem Started.edits {opt : Options} (h : Started opt t) : t.toInput.Edits [] [] := by
  refine ⟨⟨⟨0, h.ihead, by decide, h.itail, Ring.holds_nil⟩, by decide, h.unread, ?_, ?_⟩, ?_⟩
  · rw [h.isem]
    rfl
  · rw [h.isem]
    rfl
  · intro _
    rw [h.cursor]
    exact le_rfl

/-- The pointers are in the buffer; the unread characters fit, and are in their
slots; and `tyisem` counts no more than are available. -/
structure Sane (ready line : List UInt8) (t : Input) : Prop where
  ihead : 0 ≤ t.tyihead ∧ t.tyihead < TY_IBUFLEN
  itail : 0 ≤ t.tyitail ∧ t.tyitail < TY_IBUFLEN
  unread : t.unread = ready.length + line.length ∧ t.unread ≤ TY_IBUFLEN
  slots : ∀ (k : Nat) c, (ready ++ line)[k]? = some c → t.tyibuff ((t.tyihead + k) % TY_IBUFLEN) = c
  count : t.tyisem.count ≤ ready.length

theorem sane_of_keeps {t : Input} (h : t.Keeps ready line) : Sane ready line t := by
  obtain ⟨head, hh⟩ := h.holds
  have hroom := h.room
  have hlt := hh.head_lt
  refine ⟨?_, hh.itail_lt, ⟨h.unread, ?_⟩, ?_, ?_⟩
  · rw [hh.ihead]
    omega
  · rw [h.unread]
    omega
  · intro k c hk
    rw [hh.ihead]
    exact hh.slots k c hk
  · rw [← h.units]
    exact h.isem.count_le

/-- The history is that of a ring buffer which is never overrun, and the buffer
holds its characters. -/
def Intact (tr : List TtyEvent) (t : Ttycblk) : Prop :=
  ∃ ready line, ring.run tr = some (ready, line) ∧ Sane ready line t.toInput

/-- **The input ring is intact** in every run in which each arriving character
is safe. -/
theorem input_intact_without_slip {opt : Options} {tr : List TtyEvent}
    (r : (machine opt).Run Sound tr t) : Intact tr t := by
  have hacc : ∃ q, ring.run tr = some q ∧ t.toInput.Edits q.1 q.2 := by
    refine r.accepted (R := fun (q : List UInt8 × List UInt8) t => t.toInput.Edits q.1 q.2) ?_ ?_
    · intro t h
      exact h.edits
    · intro q t t' a es h hok hst
      obtain ⟨ready, line, hfeed, hedits⟩ := step_edits h hok hst
      exact ⟨(ready, line), hfeed, hedits⟩
  obtain ⟨⟨ready, line⟩, hrun, hedits⟩ := hacc
  exact ⟨ready, line, hrun, sane_of_keeps hedits.toKeeps⟩

/-! ## A kill behind the end of the buffer -/

/-- A line is typed and read, and then another one is killed. -/
def typeAndKill (n : Nat) : List TtyAct :=
  .setMode .COOKED :: (List.replicate n (.rx 97 false) ++ .rx TY_NEWLINE false :: .read 1 200 ::
    List.replicate n (.readOn 1)) ++ [.rx 98 false, .rx 99 false, .rx 21 false]

theorem input_intact_without_slip_kill :
    ∃ tr t, (machine {}).exec Sound boot [] (typeAndKill 3) = some (t, tr) ∧
      tr.head? = some (.rub 2) ∧ Intact tr t := by
  have hrun : ((machine {}).exec Sound boot [] (typeAndKill 3)).any
      (fun r => r.2.head? == some (.rub 2)) := by
    decide +kernel
  obtain ⟨⟨t, tr⟩, hst, hrub⟩ := (Option.any_eq_true _ _).mp hrun
  exact ⟨tr, t, hst, eq_of_beq hrub, input_intact_without_slip (Machine.exec_run (.start boot_started) hst)⟩

/-- **A kill moves the head out of the buffer**, when the line goes round the end
of it: the tail, which is before the start, stays there. -/
theorem input_not_intact :
    ¬ ∀ opt tr t, (machine opt).Run (fun _ _ => True) tr t → Intact tr t := by
  intro hall
  have hrun : ((machine {}).exec (fun _ _ => True) boot [] (typeAndKill 126)).any
      (fun r => decide (¬ r.1.tyihead < (TY_IBUFLEN : Int))) := by
    decide +kernel
  obtain ⟨⟨t, tr⟩, hst, hout⟩ := (Option.any_eq_true _ _).mp hrun
  obtain ⟨ready, line, -, hsane⟩ := hall {} tr t (Machine.exec_run (.start boot_started) hst)
  exact of_decide_eq_true hout hsane.ihead.2

end Ttycblk

end Xinu.Tty
