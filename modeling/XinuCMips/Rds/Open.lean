import XinuCMips.Net.Exchange
import XinuCMips.Rds.Device

/-!
# Opening a remote disk

`rdsOpen` marks the device as pending before it looks at the name and before it
asks the server, and no error exit takes the mark back. What the server does is
a parameter: three rounds of sending and receiving.

* `Answered`       — the server's answer is one that `rdscomm` takes;
* `Opens`          — the calls that open the device;
* `rdsOpen_ok_iff` — these are exactly the calls that do;
* `rdsOpen_stuck`  — after any other call on a free device it stays pending;
* `rdsOpen_restored_iff` — **a call that fails leaves the device as it was
  exactly if the device was not free**.
-/

namespace Xinu.Rds

open Net

def RD_IDLEN : Nat := 64

def RD_MSG_OREQ : UInt16 := 0x0030

/-- `sizeof(struct rd_msg_ores)` -/
def ORES_LEN : Nat := HDR_LEN + RD_IDLEN

/-- The fields of `struct rdscblk` that an open uses. -/
structure Rdscblk where
  rdState : RdState
  rdId : List UInt8
  /-- `rd_seq` and `rd_registered` -/
  comm : Comm

/-- What a call finds around it. -/
structure Surroundings where
  /-- `getlocalip` -/
  localip : Option UInt32
  rounds : Nat → Round
  /-- `resp` before the exchange -/
  resp : List UInt8

/-- The loop that copies the name into `rd_id`. It gives the length, or nothing
if the name is too long. -/
def copyId : List UInt8 → Nat → List UInt8 → Option Nat × List UInt8
  | [], len, id => (some len, id.set len 0)
  | c :: diskid, len, id =>
    if c = 0 then (some len, id.set len c)
    else if RD_IDLEN ≤ len + 1 then (none, id.set len c)
    else copyId diskid (len + 1) (id.set len c)

/-- `rdsOpen`; a string is its bytes, up to the first zero. -/
def rdsOpen (dvnum : Nat) (w : Surroundings) (diskid : List UInt8) (d : Rdscblk) : Int × Rdscblk :=
  if d.rdState ≠ .free then (SYSERR, d)
  else
    let d := { d with rdState := .pend }
    match copyId diskid 0 d.rdId with
    | (none, id) => (SYSERR, { d with rdId := id })
    | (some len, id) =>
      let d := { d with rdId := id }
      if len = 0 then (SYSERR, d)
      else
        let r := rdscomm w.localip RD_MSG_OREQ ORES_LEN w.rounds w.resp d.comm
        let d := { d with comm := r.2 }
        if r.1.value = SYSERR then (SYSERR, d)
        else if r.1.value = TIMEOUT then (SYSERR, d)
        else if statusOf r.1.buf ≠ 0 then (SYSERR, d)
        else (dvnum, { d with rdState := .open })

/-! ## The server's answer -/

/-- In one of the rounds the request has been sent and is answered: earlier
rounds time out or bring replies that are passed over. `xmit` tells whether the
round begins with sending, and `buf` is the reply buffer. -/
inductive Answered (seq : UInt32) (mtype : UInt16) (rlen : Nat) :
    List Round → Bool → List UInt8 → Prop
  | reply {r : Round} {rounds xmit buf bytes} : (xmit = true → r.send = true) →
      r.recv = .data bytes → seqOf (fill rlen bytes buf) ≤ seq.toNat →
      typeMatches mtype (fill rlen bytes buf) = true → statusOf (fill rlen bytes buf) = 0 →
      Answered seq mtype rlen (r :: rounds) xmit buf
  | timeout {r : Round} {rounds xmit buf} : (xmit = true → r.send = true) → r.recv = .timeout →
      Answered seq mtype rlen rounds true buf → Answered seq mtype rlen (r :: rounds) xmit buf
  /-- a reply to a later request -/
  | later {r : Round} {rounds xmit buf bytes} : (xmit = true → r.send = true) →
      r.recv = .data bytes → seq.toNat < seqOf (fill rlen bytes buf) →
      Answered seq mtype rlen rounds true (fill rlen bytes buf) →
      Answered seq mtype rlen (r :: rounds) xmit buf
  /-- a reply of another type; after an older one the request is not sent again -/
  | other {r : Round} {rounds xmit buf bytes} : (xmit = true → r.send = true) →
      r.recv = .data bytes → seqOf (fill rlen bytes buf) ≤ seq.toNat →
      typeMatches mtype (fill rlen bytes buf) = false →
      Answered seq mtype rlen rounds (decide (¬ seqOf (fill rlen bytes buf) < seq.toNat))
        (fill rlen bytes buf) →
      Answered seq mtype rlen (r :: rounds) xmit buf

variable {seq : UInt32} {mtype : UInt16} {rlen : Nat}

theorem rdsJudge_later {buf : List UInt8} {len : Nat} (h : seq.toNat < seqOf buf) :
    rdsJudge seq mtype buf len = .again true := if_pos (by omega)

theorem rdsJudge_other {buf : List UInt8} {len : Nat} (h : seqOf buf ≤ seq.toNat)
    (ht : typeMatches mtype buf = false) :
    rdsJudge seq mtype buf len = .again (decide (¬ seqOf buf < seq.toNat)) := by
  unfold rdsJudge
  rw [if_neg (by omega), ht]
  rfl

theorem rdsJudge_refused {buf : List UInt8} {len : Nat} (h : seqOf buf ≤ seq.toNat)
    (ht : typeMatches mtype buf = true) (hst : statusOf buf ≠ 0) :
    rdsJudge seq mtype buf len = .done SYSERR := by
  unfold rdsJudge
  rw [if_neg (by omega), if_neg (not_not_intro ht), if_pos hst]

/-- A round that brings a reply answers the request, or the next ones do. -/
theorem answered_data {r : Round} {rounds : List Round} {xmit : Bool} {buf bytes : List UInt8}
    (hsent : xmit = true → r.send = true) (hr : r.recv = .data bytes) :
    Answered seq mtype rlen (r :: rounds) xmit buf ↔
      (seqOf (fill rlen bytes buf) ≤ seq.toNat ∧ typeMatches mtype (fill rlen bytes buf) = true ∧
        statusOf (fill rlen bytes buf) = 0) ∨
      (seq.toNat < seqOf (fill rlen bytes buf) ∧
        Answered seq mtype rlen rounds true (fill rlen bytes buf)) ∨
      (seqOf (fill rlen bytes buf) ≤ seq.toNat ∧ typeMatches mtype (fill rlen bytes buf) = false ∧
        Answered seq mtype rlen rounds (decide (¬ seqOf (fill rlen bytes buf) < seq.toNat))
          (fill rlen bytes buf)) := by
  constructor
  · intro h
    cases h with
    | reply _ hd h1 h2 h3 =>
      obtain rfl := Recv.data.inj (hr.symm.trans hd)
      exact Or.inl ⟨h1, h2, h3⟩
    | timeout _ hd _ =>
      rw [hr] at hd
      cases hd
    | later _ hd h1 h2 =>
      obtain rfl := Recv.data.inj (hr.symm.trans hd)
      exact Or.inr (Or.inl ⟨h1, h2⟩)
    | other _ hd h1 h2 h3 =>
      obtain rfl := Recv.data.inj (hr.symm.trans hd)
      exact Or.inr (Or.inr ⟨h1, h2, h3⟩)
  · rintro (⟨h1, h2, h3⟩ | ⟨h1, h2⟩ | ⟨h1, h2, h3⟩)
    · exact .reply hsent hr h1 h2 h3
    · exact .later hsent hr h1 h2
    · exact .other hsent hr h1 h2 h3

theorem answered_sent {r : Round} {rounds : List Round} {xmit : Bool} {buf : List UInt8}
    (h : Answered seq mtype rlen (r :: rounds) xmit buf) : xmit = true → r.send = true := by
  cases h <;> assumption

/-- **`rdscomm` succeeds exactly if it is answered.** -/
theorem exchange_ok_iff (rounds : List Round) : ∀ (xmit : Bool) (sends : Nat) (buf : List UInt8),
    (exchange (rdsJudge seq mtype) rlen rounds xmit sends buf).value = OK ↔
      Answered seq mtype rlen rounds xmit buf := by
  induction rounds with
  | nil => exact fun _ _ _ => iff_of_false (show ¬ TIMEOUT = OK by decide) nofun
  | cons r rounds ih =>
    intro xmit sends buf
    unfold exchange
    by_cases hs : xmit = true ∧ ¬ r.send = true
    · rw [if_pos hs]
      exact iff_of_false (show ¬ SYSERR = OK by decide) fun h => hs.2 (answered_sent h hs.1)
    rw [if_neg hs]
    have hsent : xmit = true → r.send = true := fun hx => by
      by_contra hno
      exact hs ⟨hx, hno⟩
    dsimp only
    rcases hr : r.recv with _ | _ | bytes
    · refine (ih _ _ _).trans ⟨.timeout hsent hr, fun h => ?_⟩
      cases h with
      | timeout _ _ h => exact h
      | reply _ hd => rw [hr] at hd; cases hd
      | later _ hd => rw [hr] at hd; cases hd
      | other _ hd => rw [hr] at hd; cases hd
    · refine iff_of_false (show ¬ SYSERR = OK by decide) fun h => ?_
      cases h with
      | timeout _ hd => rw [hr] at hd; cases hd
      | reply _ hd => rw [hr] at hd; cases hd
      | later _ hd => rw [hr] at hd; cases hd
      | other _ hd => rw [hr] at hd; cases hd
    · rw [answered_data hsent hr]
      dsimp only
      -- the reply is to a later request, or of another type, or it is the answer
      by_cases hlater : seq.toNat < seqOf (fill rlen bytes buf)
      · rw [rdsJudge_later hlater]
        dsimp only
        rw [ih]
        refine ⟨fun h => Or.inr (Or.inl ⟨hlater, h⟩), ?_⟩
        rintro (⟨h1, -⟩ | ⟨-, h⟩ | ⟨h1, -⟩)
        · omega
        · exact h
        · omega
      have hle := not_lt.mp hlater
      by_cases htype : typeMatches mtype (fill rlen bytes buf) = true
      · by_cases hst : statusOf (fill rlen bytes buf) = 0
        · rw [rdsJudge_ok.mpr ⟨hle, htype, hst⟩]
          exact iff_of_true rfl (Or.inl ⟨hle, htype, hst⟩)
        · rw [rdsJudge_refused hle htype hst]
          refine iff_of_false (show ¬ SYSERR = OK by decide) ?_
          rintro (⟨-, -, h⟩ | ⟨h, -⟩ | ⟨-, h, -⟩)
          · exact hst h
          · omega
          · rw [htype] at h
            cases h
      · have hfalse : typeMatches mtype (fill rlen bytes buf) = false := Bool.eq_false_iff.mpr htype
        rw [rdsJudge_other hle hfalse]
        dsimp only
        rw [ih]
        refine ⟨fun h => Or.inr (Or.inr ⟨hle, hfalse, h⟩), ?_⟩
        rintro (⟨-, h, -⟩ | ⟨h, -⟩ | ⟨-, -, h⟩)
        · exact absurd h htype
        · omega
        · exact h

/-- When it succeeds the status in the buffer is zero, and otherwise it fails in
one of two ways. -/
theorem exchange_values (rounds : List Round) : ∀ (xmit : Bool) (sends : Nat) (buf : List UInt8),
    let o := exchange (rdsJudge seq mtype) rlen rounds xmit sends buf
    o.value = SYSERR ∨ o.value = TIMEOUT ∨ o.value = OK ∧ statusOf o.buf = 0 := by
  induction rounds with
  | nil => exact fun _ _ _ => Or.inr (Or.inl rfl)
  | cons r rounds ih =>
    intro xmit sends buf
    unfold exchange
    by_cases hs : xmit = true ∧ ¬ r.send = true
    · rw [if_pos hs]
      exact Or.inl rfl
    rw [if_neg hs]
    dsimp only
    rcases r.recv with _ | _ | bytes
    · exact ih _ _ _
    · exact Or.inl rfl
    · dsimp only
      rcases hj : rdsJudge seq mtype (fill rlen bytes buf) (min bytes.length rlen) with x | v
      · exact ih _ _ _
      · by_cases hv : v = OK
        · subst hv
          exact Or.inr (Or.inr ⟨rfl, (rdsJudge_ok.mp hj).2.2⟩)
        · refine Or.inl ?_
          unfold rdsJudge at hj
          split at hj
          · cases hj
          · dsimp only at hj
            split at hj
            · cases hj
            · split at hj
              · exact (Verdict.done.inj hj).symm
              · exact absurd (Verdict.done.inj hj).symm hv

/-! ## The calls that open the device -/

/-- The name as a C string. -/
def nameOf (diskid : List UInt8) : List UInt8 := diskid.takeWhile (· ≠ 0)

/-- A name that a device may have. -/
def NameOk (diskid : List UInt8) : Prop :=
  0 < (nameOf diskid).length ∧ (nameOf diskid).length < RD_IDLEN

/-- The device is free, the name is one that it may have, and the server
answers. -/
structure Opens (w : Surroundings) (diskid : List UInt8) (d : Rdscblk) : Prop where
  free : d.rdState = .free
  name : NameOk diskid
  localip : w.localip.isSome
  answered : Answered d.comm.seq RD_MSG_OREQ ORES_LEN ((List.range RD_RETRIES).map w.rounds) true
    w.resp

theorem copyId_fst (diskid : List UInt8) : ∀ (len : Nat) (id : List UInt8), len < RD_IDLEN →
    (copyId diskid len id).1 = if len + (nameOf diskid).length < RD_IDLEN then
      some (len + (nameOf diskid).length) else none := by
  induction diskid with
  | nil => exact fun len id h => (if_pos h).symm
  | cons c diskid ih =>
    intro len id h
    unfold copyId nameOf
    by_cases hc : c = 0
    · rw [if_pos hc, List.takeWhile_cons_of_neg (by simpa using hc)]
      exact (if_pos h).symm
    · rw [if_neg hc, List.takeWhile_cons_of_pos (by simpa using hc), List.length_cons]
      by_cases hlong : RD_IDLEN ≤ len + 1
      · rw [if_pos hlong, if_neg (by omega)]
      · rw [if_neg hlong, ih _ _ (not_le.mp hlong), show len + 1 + (nameOf diskid).length =
          len + ((nameOf diskid).length + 1) by omega]
        rfl

/-- **What a call leaves of a free device**: it is open if the call opens it,
and pending otherwise. -/
theorem rdsOpen_free {dvnum : Nat} {w : Surroundings} {diskid : List UInt8} {d : Rdscblk}
    (hfree : d.rdState = .free) :
    (Opens w diskid d ∧ (rdsOpen dvnum w diskid d).1 = dvnum ∧
      (rdsOpen dvnum w diskid d).2.rdState = .open) ∨
    (¬ Opens w diskid d ∧ (rdsOpen dvnum w diskid d).1 = SYSERR ∧
      (rdsOpen dvnum w diskid d).2.rdState = .pend) := by
  have hcopy := copyId_fst diskid 0 d.rdId (by decide)
  rw [Nat.zero_add] at hcopy
  unfold rdsOpen
  rw [if_neg (not_not_intro hfree)]
  dsimp only
  rcases hid : copyId diskid 0 d.rdId with ⟨len, id⟩
  rw [hid] at hcopy
  dsimp only at hcopy
  by_cases hlong : (nameOf diskid).length < RD_IDLEN
  · rw [if_pos hlong] at hcopy
    subst hcopy
    dsimp only
    by_cases hzero : (nameOf diskid).length = 0
    · rw [if_pos hzero]
      exact Or.inr ⟨fun h => absurd h.name.1 (by omega), rfl, rfl⟩
    rw [if_neg hzero]
    unfold rdscomm
    cases hip : w.localip with
    | none =>
      refine Or.inr ⟨fun h => ?_, rfl, rfl⟩
      have hsome := h.localip
      rw [hip] at hsome
      cases hsome
    | some ip =>
      dsimp only
      have hok := @exchange_ok_iff d.comm.seq RD_MSG_OREQ ORES_LEN
        ((List.range RD_RETRIES).map w.rounds) true 0 w.resp
      have hval := @exchange_values d.comm.seq RD_MSG_OREQ ORES_LEN
        ((List.range RD_RETRIES).map w.rounds) true 0 w.resp
      set o := exchange (rdsJudge d.comm.seq RD_MSG_OREQ) ORES_LEN
        ((List.range RD_RETRIES).map w.rounds) true 0 w.resp with ho
      have hopens : Opens w diskid d ↔ o.value = OK := by
        refine ⟨fun h => hok.mpr h.answered, fun h => ⟨hfree, ⟨by omega, hlong⟩, ?_, hok.mp h⟩⟩
        rw [hip]
        rfl
      rw [hopens]
      rcases hval with hv | hv | ⟨hv, hst⟩
      · rw [if_pos hv, hv]
        exact Or.inr ⟨by decide, rfl, rfl⟩
      · rw [if_neg (by rw [hv]; decide), if_pos hv, hv]
        exact Or.inr ⟨by decide, rfl, rfl⟩
      · rw [if_neg (by rw [hv]; decide), if_neg (by rw [hv]; decide), if_neg (not_not_intro hst)]
        exact Or.inl ⟨hv, rfl, rfl⟩
  · rw [if_neg hlong] at hcopy
    subst hcopy
    exact Or.inr ⟨fun h => hlong h.name.2, rfl, rfl⟩

/-- A device that is not free is refused, and nothing is touched. -/
theorem rdsOpen_busy {dvnum : Nat} {w : Surroundings} {diskid : List UInt8} {d : Rdscblk}
    (h : d.rdState ≠ .free) : rdsOpen dvnum w diskid d = (SYSERR, d) := if_pos h

theorem dvnum_ne_syserr (dvnum : Nat) : (dvnum : Int) ≠ SYSERR := by
  unfold SYSERR
  omega

/-- **The calls that open the device.** -/
theorem rdsOpen_ok_iff {dvnum : Nat} {w : Surroundings} {diskid : List UInt8} {d : Rdscblk} :
    (rdsOpen dvnum w diskid d).1 = dvnum ↔ Opens w diskid d := by
  by_cases hfree : d.rdState = .free
  · rcases @rdsOpen_free dvnum w diskid d hfree with ⟨ho, hv, -⟩ | ⟨ho, hv, -⟩
    · exact iff_of_true hv ho
    · exact iff_of_false (fun h => dvnum_ne_syserr dvnum (h.symm.trans hv)) ho
  · rw [rdsOpen_busy hfree]
    exact iff_of_false (fun h => dvnum_ne_syserr dvnum h.symm) fun h => hfree h.free

/-- **A device whose open has failed stays pending**: every later call is
refused. -/
theorem rdsOpen_stuck {dvnum : Nat} {w : Surroundings} {diskid : List UInt8} {d : Rdscblk}
    (hfree : d.rdState = .free) (h : ¬ Opens w diskid d) (calls : List (Surroundings × List UInt8)) :
    calls.foldl (fun d c => (rdsOpen dvnum c.1 c.2 d).2) (rdsOpen dvnum w diskid d).2 =
        (rdsOpen dvnum w diskid d).2 ∧
      ∀ w' diskid', (rdsOpen dvnum w' diskid' (rdsOpen dvnum w diskid d).2).1 = SYSERR := by
  have hpend : (rdsOpen dvnum w diskid d).2.rdState ≠ .free := by
    rcases @rdsOpen_free dvnum w diskid d hfree with ⟨ho, -⟩ | ⟨-, -, hp⟩
    · exact absurd ho h
    · rw [hp]
      decide
  refine ⟨?_, fun w' diskid' => by rw [rdsOpen_busy hpend]⟩
  induction calls with
  | nil => rfl
  | cons c calls ih =>
    rw [List.foldl_cons, rdsOpen_busy hpend]
    exact ih

/-! ## Failure -/

/-- From `d` to `d'` a call has left no trace that a later open could meet. -/
structure Restored (dvnum : Nat) (d d' : Rdscblk) : Prop where
  /-- the device is again in the state in which the call found it -/
  state : d'.rdState = d.rdState
  /-- the number of the next request, and whether the port is registered -/
  comm : d'.comm = d.comm
  /-- if it could be opened, it still can -/
  opens : d.rdState = .free → ∃ w diskid, (rdsOpen dvnum w diskid d').1 = dvnum

/-- **A failing open leaves the device as it was exactly if it was not free.** -/
theorem rdsOpen_restored_iff (dvnum : Nat) (w : Surroundings) (diskid : List UInt8) (d : Rdscblk) :
    ((rdsOpen dvnum w diskid d).1 = SYSERR → Restored dvnum d (rdsOpen dvnum w diskid d).2) ↔
      d.rdState ≠ .free ∨ Opens w diskid d := by
  by_cases hfree : d.rdState = .free
  · rw [or_iff_right (not_not_intro hfree)]
    rcases @rdsOpen_free dvnum w diskid d hfree with ⟨ho, hv, -⟩ | ⟨ho, hv, hp⟩
    · exact iff_of_true (fun h => absurd (hv.symm.trans h) (dvnum_ne_syserr dvnum)) ho
    · refine iff_of_false (fun h => ?_) ho
      have hstate := (h hv).state
      rw [hp, hfree] at hstate
      cases hstate
  · rw [rdsOpen_busy hfree]
    exact iff_of_true (fun _ => ⟨rfl, rfl, fun h => absurd h hfree⟩) (Or.inl hfree)

/-- The server does not answer; the device stays pending for good. -/
theorem rdsOpen_not_restored :
    ¬ ∀ (dvnum : Nat) (w : Surroundings) (diskid : List UInt8) (d : Rdscblk),
      (rdsOpen dvnum w diskid d).1 = SYSERR → Restored dvnum d (rdsOpen dvnum w diskid d).2 := by
  intro h
  have hstate := (h 17 ⟨some 1, fun _ => ⟨true, .timeout⟩, []⟩ [100]
    ⟨.free, List.replicate RD_IDLEN 0, ⟨1, false⟩⟩ (by decide)).state
  exact absurd hstate (by decide)

end Xinu.Rds
