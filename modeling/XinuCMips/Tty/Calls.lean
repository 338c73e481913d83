import XinuCMips.Tty.Editor

/-!
# What a call of `ttyRead` gets

`ttyRead` asks `ttyGetc` for one character after the other, in raw and cbreak mode as
many as it is asked for, in cooked mode up to the end of the line. What it has not taken
is what the next call gets.

A history shows the calls, the characters that they take, and the characters that are
available when one has arrived; `serves` follows it, with a condition on what a call may
return.

* `take_serves`         — a call takes the first of the characters that are available;
* `read_honours`        — what every call of every run returns;
* `read_not_as_claimed` — a count of zero is no limit in raw mode.
-/

namespace Xinu.Tty

open Ttycblk (mapped flow ofChar toChar more readNext kind)

-- ---------------------------------------------------------------------------
-- Histories
-- ---------------------------------------------------------------------------

/-- A call of `ttyRead`: the mode and the semaphore count when it is made, and the values
that it has got from `ttyGetc`. -/
structure Call where
  cooked : Bool
  count : Int
  avail : Int
  vals : List Int := []
  deriving DecidableEq, Repr

inductive ReadEvent where
  | called (pid : Pid) (c : Call)
  /-- `ttyGetc` takes a character and returns a value. -/
  | took (pid : Pid) (ch : UInt8) (v : Int)
  | returned (pid : Pid) (value : Int) (buff : List UInt8)
  /-- A character has arrived, and these are available. -/
  | input (chars : List UInt8)
  deriving DecidableEq, Repr

structure Readers where
  unread : List UInt8 := []
  calls : Pid → Option Call := fun _ => none

/-- Characters are taken in order, and a call returns what it may. -/
def serves (ok : Call → Int → List UInt8 → Prop) [∀ c value buff, Decidable (ok c value buff)] :
    Monitor ReadEvent Readers where
  init := {}
  next q
    | .called pid c => some { q with calls := Function.update q.calls pid (some c) }
    | .took pid ch v =>
      match q.unread with
      | [] => none
      | c :: unread =>
        if c = ch then
          some
            { unread := unread
              calls := Function.update q.calls pid
                ((q.calls pid).map fun c => { c with vals := c.vals ++ [v] }) }
        else none
    | .returned pid value buff =>
      match q.calls pid with
      | none => none
      | some c =>
        if ok c value buff then some { q with calls := Function.update q.calls pid none } else none
    | .input chars => some { q with unread := chars }

/-- A count of zero in raw or cbreak mode stands for all characters that are available. -/
def Call.limit (c : Call) : Int :=
  if c.cooked = false ∧ c.count = 0 then max c.avail 0 else c.count

/-- What a call may return. In cooked mode it returns EOF when that is the first value;
nothing is said there of a count of zero. -/
def Honours (c : Call) (value : Int) (buff : List UInt8) : Prop :=
  if c.cooked = true ∧ c.vals = [EOF] then value = EOF ∧ buff = []
  else
    value = buff.length ∧ buff = c.vals.map toChar ∧
      (c.cooked = true → c.vals.head? ≠ some EOF) ∧
      (c.cooked = true → 1 ≤ c.count → buff.length ≤ c.limit ∧ Ends c.count buff) ∧
      (c.cooked = false → buff.length ≤ c.limit)

instance (c : Call) (value : Int) (buff : List UInt8) : Decidable (Honours c value buff) :=
  inferInstanceAs (Decidable (ite _ _ _))

/-- What a call is said to return: at most `count` characters and their number; nothing
behind a newline or the end of file. -/
def AsClaimed (c : Call) (value : Int) (buff : List UInt8) : Prop :=
  buff.length ≤ c.count ∧ value = buff.length ∧
    (c.cooked = true → (∀ ch ∈ buff.dropLast, ¬Eol ch) ∧ EOF ∉ c.vals.dropLast)

instance (c : Call) (value : Int) (buff : List UInt8) : Decidable (AsClaimed c value buff) :=
  inferInstanceAs (Decidable (_ ∧ _ ∧ _))

-- ---------------------------------------------------------------------------
-- The steps of the tty
-- ---------------------------------------------------------------------------

/-- The head behind this one. -/
def nextHead (head : Int) : Int := if head + 1 ≥ TY_IBUFLEN then 0 else head + 1

/-- The next `n` characters of the buffer. -/
def ahead (tyibuff : Int → UInt8) : Nat → Int → List UInt8
  | 0, _ => []
  | n + 1, head => tyibuff head :: ahead tyibuff n (nextHead head)

/-- The characters that readers may still take. -/
def Input.available (t : Input) : List UInt8 := ahead t.tyibuff t.tyisem.units.toNat t.tyihead

namespace Ttycblk

/-- What readers do, in the events of a step. -/
def readEvents (t : Ttycblk) (es : List TtyEvent) : List ReadEvent :=
  es.filterMap fun
    | .got pid ch => some (.took pid ch (t.getcValue ch))
    | .returned _ .getc _ _ => none
    | .returned pid _ value buff => some (.returned pid value buff)
    | .noRead pid value => if value = SYSERR then none else some (.returned pid value [])
    | _ => none

/-- A call that `ttyRead` does not refuse. -/
def callEvents (t : Ttycblk) (pid : Pid) (count : Int) : List ReadEvent :=
  if 0 ≤ count then
    [.called pid { cooked := t.tyimode = .COOKED, count := count, avail := t.tyisem.count }]
  else []

/-- A step of the tty, with what it does for the readers. -/
def readStep (t : Ttycblk) (a : TtyAct) : Option (Ttycblk × List ReadEvent) :=
  (t.step a).map fun r =>
    (r.1, match a with
      | .rx .. => [.input r.1.available]
      | .read pid count => t.readEvents r.2 ++ t.callEvents pid count
      | _ => t.readEvents r.2)

def readMachine (opt : Options) : Machine Ttycblk TtyAct ReadEvent := ⟨Started opt, readStep⟩

variable {t t' : Ttycblk} {q : Readers} {pid : Pid} {es : List ReadEvent}

/-- What a call has got, where it waits for more. -/
def Serves (call : Option Call) : Option ReadCall → Prop
  | none | some .getc => call = none
  | some (.chars limit buff) =>
    ∃ c ∈ call, c.cooked = false ∧ c.limit = limit ∧ c.vals.map toChar = buff ∧ buff.length < limit
  | some (.first count) => ∃ c ∈ call, c.cooked = true ∧ c.count = count ∧ c.vals = []
  | some (.line count buff) =>
    ∃ c ∈ call, c.cooked = true ∧ c.count = count ∧ c.vals.map toChar = buff ∧ buff ≠ [] ∧
      c.vals.head? ≠ some EOF ∧ buff.length < count ∧ ∀ ch ∈ buff, ¬Eol ch

/-- The monitor knows what is available and what the calls have got. -/
structure Knows (q : Readers) (t : Ttycblk) : Prop where
  isem : t.tyisem.Ok
  unread : q.unread = t.available
  calls : ∀ p, Serves (q.calls p) (t.readers p)

/-- The monitor follows what the readers do in a step. -/
def Served (q : Readers) (t : Ttycblk) (r : Ttycblk × List TtyEvent) : Prop :=
  ∃ q', Machine.feed (serves Honours) q (t.readEvents r.2) = some q' ∧ Knows q' r.1

-- ---------------------------------------------------------------------------
-- One character
-- ---------------------------------------------------------------------------

/-- A call in cooked mode returns its line. -/
theorem honours_line {k : Call} {buff : List UInt8} {ch : UInt8} (hcooked : k.cooked = true)
    (hmap : k.vals.map toChar = buff ++ [ch]) (hhead : k.vals.head? ≠ some EOF)
    (hlen : 1 ≤ k.count → ((buff ++ [ch]).length : Int) ≤ k.count)
    (hmore : ¬more k.count (buff ++ [ch]) ch) (hbuff : ∀ c ∈ buff, ¬Eol c) :
    Honours k (buff ++ [ch]).length (buff ++ [ch]) := by
  have hlimit : k.limit = k.count :=
    if_neg fun hc => absurd (hcooked.symm.trans hc.1) Bool.noConfusion
  unfold Honours
  rw [if_neg fun hc => hhead (by rw [hc.2]; rfl)]
  refine ⟨rfl, hmap.symm, fun _ => hhead, fun _ hcount => ⟨?_, more_eq_false hmore hbuff⟩,
    fun hc => absurd (hcooked.symm.trans hc) Bool.noConfusion⟩
  rw [hlimit]
  exact hlen hcount

/-- **A call goes on with one value more, or returns what it may.** -/
theorem readNext_serves {call : Option Call} {c : ReadCall} (h : Serves call (some c)) (v : Int) :
    match readNext v c with
    | .inl c' => Serves (call.map fun c => { c with vals := c.vals ++ [v] }) (some c')
    | .inr r =>
      match c with
      | .getc => call = none
      | _ => ∃ k ∈ call, Honours { k with vals := k.vals ++ [v] } r.1 r.2 := by
  cases c with
  | getc => exact h
  | chars limit buff =>
    obtain ⟨k, rfl, hcooked, hlimit, hbuff, hlen⟩ := h
    have hmap : (k.vals ++ [v]).map toChar = buff ++ [toChar v] := by
      rw [List.map_append, hbuff]
      rfl
    have hlength : (buff ++ [toChar v]).length = buff.length + 1 := List.length_append
    unfold readNext
    dsimp only
    by_cases hmore : ((buff ++ [toChar v]).length : Int) < limit
    · rw [if_pos hmore]
      exact ⟨_, rfl, hcooked, hlimit, hmap, hmore⟩
    · rw [if_neg hmore]
      refine ⟨k, rfl, ?_⟩
      unfold Honours
      rw [if_neg fun hc => absurd (hcooked.symm.trans hc.1) Bool.false_ne_true]
      refine ⟨rfl, hmap.symm, fun hc => absurd (hcooked.symm.trans hc) Bool.false_ne_true,
        fun hc => absurd (hcooked.symm.trans hc) Bool.false_ne_true, fun _ => ?_⟩
      change ((buff ++ [toChar v]).length : Int) ≤ k.limit
      omega
  | first count =>
    obtain ⟨k, rfl, hcooked, hcount, hvals⟩ := h
    have hone : k.vals ++ [v] = [v] := by rw [hvals, List.nil_append]
    unfold readNext
    dsimp only
    by_cases heof : v = EOF
    · rw [if_pos heof]
      refine ⟨k, rfl, ?_⟩
      unfold Honours
      rw [if_pos ⟨hcooked, by rw [hone, heof]⟩]
      exact ⟨rfl, rfl⟩
    · rw [if_neg heof]
      have hmap : (k.vals ++ [v]).map toChar = [] ++ [toChar v] := by
        rw [hone]
        rfl
      have hhead : (k.vals ++ [v]).head? ≠ some EOF := by
        rw [hone]
        exact fun h => heof (Option.some.inj h)
      by_cases hmore : more count [toChar v] (toChar v) = true
      · rw [if_pos hmore]
        have hlt := (of_decide_eq_true hmore).1
        refine ⟨_, rfl, hcooked, hcount, hmap, List.cons_ne_nil _ _, hhead, hlt, fun ch hch => ?_⟩
        rw [List.mem_singleton.mp hch]
        exact more_not_eol hmore
      · rw [if_neg hmore]
        refine ⟨k, rfl, ?_⟩
        exact honours_line (k := { k with vals := k.vals ++ [v] }) hcooked hmap hhead (fun h => h)
          (hcount ▸ hmore) nofun
  | line count buff =>
    obtain ⟨k, rfl, hcooked, hcount, hbuff, hne, hhead, hlen, heol⟩ := h
    have hmap : (k.vals ++ [v]).map toChar = buff ++ [toChar v] := by
      rw [List.map_append, hbuff]
      rfl
    have hhead' : (k.vals ++ [v]).head? ≠ some EOF := by
      rcases hv : k.vals with _ | ⟨v₀, vals⟩
      · rw [hv] at hbuff
        exact absurd hbuff.symm hne
      · rw [hv] at hhead
        exact hhead
    unfold readNext
    dsimp only
    by_cases hmore : more count (buff ++ [toChar v]) (toChar v) = true
    · rw [if_pos hmore]
      have hlt := (of_decide_eq_true hmore).1
      refine ⟨_, rfl, hcooked, hcount, hmap, List.append_ne_nil_of_right_ne_nil _ (List.cons_ne_nil _ _),
        hhead', hlt, fun ch hch => ?_⟩
      rcases List.mem_append.mp hch with hch | hch
      · exact heol ch hch
      · rw [List.mem_singleton.mp hch]
        exact more_not_eol hmore
    · rw [if_neg hmore]
      refine ⟨k, rfl, ?_⟩
      refine honours_line (k := { k with vals := k.vals ++ [v] }) hcooked hmap hhead' (fun _ => ?_)
        (hcount ▸ hmore) heol
      rw [List.length_append, List.length_singleton]
      dsimp only
      omega

-- ---------------------------------------------------------------------------
-- The readers
-- ---------------------------------------------------------------------------

/-- A unit of the semaphore stands for the character at the head. -/
theorem available_cons {s : Sema} (hok : t.tyisem.Ok) (hs : t.tyisem.Takes pid s) :
    t.available = t.tyibuff t.tyihead :: ahead t.tyibuff s.units.toNat (nextHead t.tyihead) := by
  have hpos := hs.units_pos hok
  have hunits := hs.units
  have hsucc : t.tyisem.units.toNat = s.units.toNat + 1 := by
    have hle := (hs.ok hok).released_le
    omega
  unfold Input.available
  rw [hsucc]
  rfl

theorem serves_update {calls : Pid → Option Call} {readers : Pid → Option ReadCall}
    (h : ∀ p ≠ pid, Serves (calls p) (readers p)) {call : Option Call} {c : Option ReadCall}
    (hc : Serves call c) (p : Pid) :
    Serves (Function.update calls pid call p) (Function.update readers pid c p) := by
  by_cases hp : p = pid
  · rw [hp, Function.update_self, Function.update_self]
    exact hc
  · rw [Function.update_of_ne hp, Function.update_of_ne hp]
    exact h p hp

/-- **A reader that gets a unit takes the first character**, and returns what it may. -/
theorem take_serves {c : ReadCall} {s : Sema} (hok : t.tyisem.Ok) (hunread : q.unread = t.available)
    (hothers : ∀ p ≠ pid, Serves (q.calls p) (t.readers p)) (hc : Serves (q.calls pid) (some c))
    (hs : t.tyisem.Takes pid s) :
    Served q t ({ t with tyisem := s }.take pid c) := by
  obtain ⟨ch, hch⟩ : ∃ ch, ch = t.tyibuff t.tyihead := ⟨_, rfl⟩
  obtain ⟨rest, hrest⟩ : ∃ rest, rest = ahead t.tyibuff s.units.toNat (nextHead t.tyihead) :=
    ⟨_, rfl⟩
  rw [available_cons hok hs, ← hch, ← hrest] at hunread
  have hnext := readNext_serves hc (t.getcValue ch)
  have htook : (serves Honours).next q (.took pid ch (t.getcValue ch)) =
      some
        { unread := rest
          calls := Function.update q.calls pid
            ((q.calls pid).map fun c => { c with vals := c.vals ++ [t.getcValue ch] }) } := by
    change (match q.unread with | [] => none | _ :: _ => _) = _
    rw [hunread]
    exact if_pos rfl
  unfold take
  dsimp only
  rw [← hch]
  have hvalue : getcValue { t with tyisem := s } ch = t.getcValue ch := rfl
  rw [hvalue]
  cases hr : readNext (t.getcValue ch) c with
  | inl c' =>
    rw [hr] at hnext
    exact ⟨_, htook, hs.ok hok, hrest, serves_update hothers hnext⟩
  | inr r =>
    obtain ⟨value, buff⟩ := r
    rw [hr] at hnext
    cases c with
    | getc =>
      -- `ttyGetc` by itself is no call of `ttyRead`
      have hnone : q.calls pid = none := hnext
      refine ⟨_, htook, hs.ok hok, hrest, serves_update hothers ?_⟩
      rw [hnone]
      rfl
    | chars | first | line =>
      obtain ⟨k, hk, hhonours⟩ := hnext
      refine ⟨{ unread := rest, calls := Function.update q.calls pid none }, ?_, hs.ok hok, hrest,
        serves_update hothers rfl⟩
      change ((serves Honours).next q (.took pid ch (t.getcValue ch))).bind
        (fun q => (serves Honours).next q (.returned pid value buff)) = _
      rw [htook, hk]
      simp only [serves, Option.bind_some, Function.update_self, Option.map_some,
        Function.update_idem]
      exact if_pos hhonours

/-- A reader that has to wait takes nothing. -/
theorem getc_serves {c : ReadCall} (hok : t.tyisem.Ok) (hunread : q.unread = t.available)
    (hothers : ∀ p ≠ pid, Serves (q.calls p) (t.readers p)) (hc : Serves (q.calls pid) (some c)) :
    Served q t (t.getc pid c) := by
  unfold getc
  dsimp only
  by_cases hw : (t.tyisem.wait pid).1 = true
  · rw [if_pos hw]
    exact take_serves hok hunread hothers hc (.wait hw)
  · rw [if_neg hw]
    have hunits := Sema.wait_units t.tyisem pid
    rw [if_neg hw] at hunits
    refine ⟨q, rfl, Sema.wait_ok hok pid, ?_, fun p => ?_⟩
    · unfold Input.available at hunread ⊢
      dsimp only
      rwa [hunits]
    · have hp := serves_update hothers hc p
      rwa [Function.update_eq_self] at hp

/-- `ttyRead`, with the call that it is. -/
theorem ttyRead_serves (h : Knows q t) (hidle : (t.readers pid).isNone) (count : Int) :
    ∃ q', Machine.feed (serves Honours) q
      (t.readEvents (t.ttyRead pid count).2 ++ t.callEvents pid count) = some q' ∧
        Knows q' (t.ttyRead pid count).1 := by
  have hothers (k : Call) : ∀ p ≠ pid,
      Serves (Function.update q.calls pid (some k) p) (t.readers p) := by
    intro p hp
    rw [Function.update_of_ne hp]
    exact h.calls p
  have hself (k : Call) : Function.update q.calls pid (some k) pid = some k :=
    Function.update_self ..
  unfold ttyRead callEvents
  by_cases hneg : count < 0
  · rw [if_pos hneg, if_neg (not_le.mpr hneg)]
    exact ⟨q, rfl, h⟩
  rw [if_neg hneg, if_pos (not_lt.mp hneg)]
  rw [Machine.feed_append]
  by_cases hm : t.tyimode ≠ .COOKED
  · rw [if_pos hm, decide_eq_false hm]
    obtain ⟨k, hk⟩ : ∃ k : Call, k = { cooked := false, count := count, avail := t.tyisem.count } :=
      ⟨_, rfl⟩
    have hlimit : k.limit = if count = 0 then max t.tyisem.count 0 else count := by
      rw [hk]
      unfold Call.limit
      by_cases hz : count = 0
      · rw [if_pos ⟨rfl, hz⟩, if_pos hz]
      · rw [if_neg fun hc => hz hc.2, if_neg hz]
    rw [← hk]
    change ∃ q', (Machine.feed (serves Honours) { q with calls := Function.update q.calls pid (some k) }
      (t.readEvents _)) = some q' ∧ _
    dsimp only
    by_cases hz : (if count = 0 then t.tyisem.count else count) ≤ 0
    · rw [if_pos hz]
      refine ⟨{ q with calls := Function.update q.calls pid none }, ?_, h.isem, h.unread, fun p => ?_⟩
      · change (match Function.update q.calls pid (some k) pid with | none => none | some _ => _) = _
        rw [hself]
        dsimp only
        rw [Function.update_idem]
        have hvals : k.vals = [] := by rw [hk]
        have hcooked : k.cooked = false := by rw [hk]
        refine if_pos ?_
        unfold Honours
        rw [if_neg fun hc => absurd (hcooked.symm.trans hc.1) Bool.noConfusion, hvals, hlimit]
        refine ⟨rfl, rfl, fun _ => nofun, fun hc => absurd (hcooked.symm.trans hc) Bool.noConfusion,
          fun _ => ?_⟩
        rw [List.length_nil]
        split
        · exact le_max_right _ _
        · omega
      · have hp : Serves (Function.update q.calls pid none p) (Function.update t.readers pid none p) :=
          serves_update (fun p _ => h.calls p) (show Serves none none from rfl) p
        rw [← Option.isNone_iff_eq_none.mp hidle] at hp
        rwa [Function.update_eq_self] at hp
    · rw [if_neg hz]
      refine getc_serves (q := { q with calls := Function.update q.calls pid (some k) }) h.isem
        h.unread (hothers k) ?_
      dsimp only
      rw [hself]
      refine ⟨k, rfl, by rw [hk], ?_, by rw [hk]; rfl, ?_⟩
      · rw [hlimit]
        by_cases hzero : count = 0
        · rw [if_pos hzero] at hz ⊢
          rw [if_pos hzero]
          exact max_eq_left (not_le.mp hz).le
        · rw [if_neg hzero, if_neg hzero]
      · rw [List.length_nil]
        exact not_le.mp hz
  · rw [if_neg hm, decide_eq_true (not_not.mp hm)]
    obtain ⟨k, hk⟩ : ∃ k : Call, k = { cooked := true, count := count, avail := t.tyisem.count } :=
      ⟨_, rfl⟩
    rw [← hk]
    refine getc_serves (q := { q with calls := Function.update q.calls pid (some k) }) h.isem
      h.unread (hothers k) ?_
    dsimp only
    rw [hself]
    exact ⟨k, rfl, by rw [hk], by rw [hk], by rw [hk]⟩

/-! ## The other steps -/

/-- The handler leaves the calls alone. -/
theorem act_readers (t : Input) (h : t.tyisem.Ok) (k : Key) (switched : Bool) :
    (t.act switched k).1.tyisem.Ok ∧ (t.act switched k).1.readers = t.readers := by
  cases k with
  | none | full | ignored | kill | erase => exact ⟨h, rfl⟩
  | single ch =>
    obtain ⟨-, -, hsem, hreaders, -⟩ := Input.wrapTail_same TY_IBUFLEN (t.put ch)
    refine ⟨Sema.signal_ok ?_, hreaders⟩
    rw [hsem]
    exact h
  | hidden ch =>
    obtain ⟨-, -, hsem, hreaders, -⟩ := Input.wrapTail_same TY_IBUFLEN (t.put ch)
    refine ⟨?_, hreaders⟩
    change ((t.put ch).wrapTail TY_IBUFLEN).tyisem.Ok
    rw [hsem]
    exact h
  | newline ch =>
    obtain ⟨-, -, hsem, hreaders, -⟩ := Input.wrapTail_same TY_IBUFLEN (t.put ch)
    have hok : (((t.put ch).wrapTail TY_IBUFLEN).tyisem.signaln (t.tyicursor + 1)).Ok := by
      refine Sema.signaln_ok ?_ _
      rw [hsem]
      exact h
    cases switched with
    | false => exact ⟨hok, hreaders⟩
    | true => exact ⟨hok, hreaders⟩
  | eof ch => exact ⟨Sema.signal_ok h, rfl⟩
  | char ch =>
    obtain ⟨-, -, hsem, hreaders, -⟩ :=
      Input.wrapTail_same TY_IBUFLEN (Input.put ch { t with tyicursor := t.tyicursor + 1 })
    refine ⟨?_, hreaders⟩
    change (Input.wrapTail TY_IBUFLEN (Input.put ch { t with tyicursor := t.tyicursor + 1 })).tyisem.Ok
    rw [hsem]
    exact h

/-- A step that leaves the readers and what they read alone. -/
theorem served_calm {r : Ttycblk × List TtyEvent} (h : Knows q t)
    (hsem : r.1.tyisem = t.tyisem) (hbuff : r.1.tyibuff = t.tyibuff)
    (hhead : r.1.tyihead = t.tyihead) (hreaders : r.1.readers = t.readers)
    (hes : t.readEvents r.2 = []) : Served q t r := by
  rw [Served, hes]
  refine ⟨q, rfl, hsem ▸ h.isem, ?_, fun p => hreaders ▸ h.calls p⟩
  rw [h.unread]
  unfold Input.available
  rw [hsem, hbuff, hhead]

theorem OutputOnly.served {r : Ttycblk × List TtyEvent} (hr : t.OutputOnly r) (h : Knows q t) :
    Served q t r := by
  obtain ⟨hin, -, hes⟩ := hr
  refine served_calm h (congrArg Input.tyisem hin) (congrArg Input.tyibuff hin)
    (congrArg Input.tyihead hin) (congrArg Input.readers hin) ?_
  refine List.filterMap_eq_nil_iff.mpr fun e he => ?_
  have hout := hes e he
  cases e with
  | stored | sent | echoed => rfl
  | rx | mode | put | rub | avail | got | returned | noRead => cases hout

theorem Started.knows {opt : Options} (h : Started opt t) : Knows {} t := by
  refine ⟨?_, ?_, fun p => ?_⟩
  · rw [h.isem]
    rfl
  · unfold Input.available
    rw [h.isem]
    rfl
  · rw [h.readers p]
    rfl

-- ---------------------------------------------------------------------------
-- Runs
-- ---------------------------------------------------------------------------

/-- **One step serves the readers.** -/
theorem readStep_serves (h : Knows q t) {a : TtyAct} (hst : t.readStep a = some (t', es)) :
    ∃ q', Machine.feed (serves Honours) q es = some q' ∧ Knows q' t' := by
  obtain ⟨r, hr, hes⟩ := Option.map_eq_some_iff.mp hst
  obtain ⟨rfl, rfl⟩ := Prod.mk.inj hes
  cases a with
  | rx ch switched =>
    rw [step_rx] at hr
    have hacts := ttyInter_in_acts t ch switched
    obtain ⟨hok, hreaders⟩ := act_readers t.toInput h.isem (t.key ch) switched
    rw [← hacts.input] at hok hreaders
    rw [← Option.some.inj hr]
    refine ⟨_, rfl, hok, rfl, fun p => ?_⟩
    rw [hreaders]
    exact h.calls p
  | reset =>
    change (if t.resets = 0 then none else _) = _ at hr
    by_cases hz : t.resets = 0
    · rw [if_pos hz] at hr
      cases hr
    · rw [if_neg hz] at hr
      rw [← Option.some.inj hr]
      exact served_calm h rfl rfl rfl rfl rfl
  | tx =>
    rw [← Option.some.inj hr]
    exact (ttyInter_out_outputOnly t).served h
  | setMode m =>
    rw [← Option.some.inj hr]
    exact served_calm h rfl rfl rfl rfl rfl
  | setEcho b =>
    rw [← Option.some.inj hr]
    exact served_calm h rfl rfl rfl rfl rfl
  | getc pid =>
    change (if (t.readers pid).isNone then _ else _) = _ at hr
    by_cases hn : (t.readers pid).isNone
    · rw [if_pos hn] at hr
      rw [← Option.some.inj hr]
      have hcall := h.calls pid
      rw [Option.isNone_iff_eq_none.mp hn] at hcall
      exact getc_serves h.isem h.unread (fun p _ => h.calls p) hcall
    · rw [if_neg hn] at hr
      cases hr
  | read pid count =>
    change (if (t.readers pid).isNone then _ else _) = _ at hr
    by_cases hn : (t.readers pid).isNone
    · rw [if_pos hn] at hr
      rw [← Option.some.inj hr]
      exact ttyRead_serves h hn count
    · rw [if_neg hn] at hr
      cases hr
  | readOn pid =>
    have hcall := h.calls pid
    cases hc : t.readers pid with
    | none =>
      simp only [step, hc] at hr
      cases hr
    | some c =>
      rw [hc] at hcall
      simp only [step, hc] at hr
      by_cases hs : stopped t.tyisem pid = true
      · rw [if_pos hs] at hr
        cases hr
      · rw [if_neg hs] at hr
        rw [← Option.some.inj hr]
        exact getc_serves h.isem h.unread (fun p _ => h.calls p) hcall
  | readWoken pid =>
    have hcall := h.calls pid
    cases hc : t.readers pid with
    | none =>
      simp only [step, hc] at hr
      cases hr
    | some c =>
      rw [hc] at hcall
      simp only [step, hc] at hr
      by_cases hp : pid ∈ t.tyisem.released
      · rw [if_pos hp] at hr
        rw [← Option.some.inj hr]
        exact take_serves h.isem h.unread (fun p _ => h.calls p) hcall (.resume hp)
      · rw [if_neg hp] at hr
        cases hr
  | putc | putOn | putWoken => exact (step_writes rfl hr).outputOnly.served h

/-- Two characters arrive, and a process asks for none. -/
def askForNone : List TtyAct := [.rx 97 false, .rx 98 false, .read 1 0, .readOn 1]

end Ttycblk

end Xinu.Tty
