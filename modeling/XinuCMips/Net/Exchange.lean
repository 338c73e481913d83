import XinuCMips.Kernel.Table
import XinuCMips.Lib.Codec

/-!
# Requests and replies

`rdscomm` and `rfscomm` send a request to a server and wait for the reply, up
to three times. A reply is whatever UDP delivers; it is copied over the reply
buffer, of which a short one leaves the rest as it was. `exchange` is the loop
of both, with the tests that a reply has to pass as a parameter.

* `exchange_sends` — a call never sends more often than it is told to;
* `own_reply_iff`  — a call that succeeds has got the reply to its own request,
  unless `rdscomm` takes an older one for it, or a short reply is completed by
  what the buffer held before.
-/

namespace Xinu.Net

open Bytes

/-! ## The header of a message -/

/-- `struct rd_msg_hdr` and `struct rf_msg_hdr` without the name. -/
def HDR_LEN : Nat := 8

def MSG_RESPONSE : Nat := 0x0100
def RD_RETRIES : Nat := 3
def RF_RETRIES : Nat := 3

def typeOf (buf : List UInt8) : Nat := ofLe (slice 0 2 buf)

def statusOf (buf : List UInt8) : Nat := ofLe (slice 2 2 buf)

def seqOf (buf : List UInt8) : Nat := ofLe (slice 4 4 buf)

/-- `rtype == (type of the request | RESPONSE)`, with `rtype` an `int16`. -/
def typeMatches (mtype : UInt16) (buf : List UInt8) : Bool :=
  (typeOf buf : Int).bmod (2 ^ 16) == (mtype.toNat ||| MSG_RESPONSE : Nat)

/-- The reply itself names the request: its header is complete, with the
sequence number and the response type of the request. -/
def Carries (seq : UInt32) (mtype : UInt16) (bytes : List UInt8) : Prop :=
  HDR_LEN ≤ bytes.length ∧ seqOf bytes = seq.toNat ∧ typeMatches mtype bytes = true

instance (seq : UInt32) (mtype : UInt16) (bytes : List UInt8) :
    Decidable (Carries seq mtype bytes) := inferInstanceAs (Decidable (_ ∧ _))

/-! ## The loop -/

/-- What `udp_recv` gives. -/
inductive Recv where
  | timeout
  | error
  | data (bytes : List UInt8)

/-- One pass of the loop: whether `udp_send` succeeds, if it is called, and what
is received. -/
structure Round where
  send : Bool
  recv : Recv

/-- What becomes of a call when a reply is in the buffer: it goes on, and sends
the request again or not, or it returns. -/
inductive Verdict where
  | again (xmit : Bool)
  | done (value : Int)
  deriving DecidableEq

structure Outcome where
  value : Int
  /-- How often the request was sent. -/
  sends : Nat
  buf : List UInt8
  /-- The reply because of which the call has returned. -/
  last : Option (List UInt8)

/-- The reply buffer when a reply has been copied into it. -/
def fill (rlen : Nat) (bytes buf : List UInt8) : List UInt8 := splice 0 (bytes.take rlen) buf

/-- The loop over the rounds. `judge` looks at the buffer and at the length of
what was received. -/
def exchange (judge : List UInt8 → Nat → Verdict) (rlen : Nat) :
    List Round → Bool → Nat → List UInt8 → Outcome
  | [], _, sends, buf => ⟨TIMEOUT, sends, buf, none⟩
  | r :: rounds, xmit, sends, buf =>
    if xmit ∧ ¬ r.send then ⟨SYSERR, sends + 1, buf, none⟩
    else
      let sends := if xmit then sends + 1 else sends
      match r.recv with
      | .timeout => exchange judge rlen rounds true sends buf
      | .error => ⟨SYSERR, sends, buf, none⟩
      | .data bytes =>
        let buf := fill rlen bytes buf
        match judge buf (min bytes.length rlen) with
        | .again xmit => exchange judge rlen rounds xmit sends buf
        | .done value => ⟨value, sends, buf, some bytes⟩

/-! ## `rdscomm` and `rfscomm` -/

/-- The tests of `rdscomm`. After a smaller sequence number the request is not
sent again, but the tests go on. -/
def rdsJudge (seq : UInt32) (mtype : UInt16) (buf : List UInt8) (_ : Nat) : Verdict :=
  if ¬ seqOf buf < seq.toNat ∧ seqOf buf ≠ seq.toNat then .again true
  else
    let xmit := decide (¬ seqOf buf < seq.toNat)
    if ¬ typeMatches mtype buf then .again xmit
    else if statusOf buf ≠ 0 then .done SYSERR
    else .done OK

/-- The tests of `rfscomm`, which returns the length of the reply. -/
def rfsJudge (seq : UInt32) (mtype : UInt16) (buf : List UInt8) (len : Nat) : Verdict :=
  if seqOf buf ≠ seq.toNat then .again true
  else if ¬ typeMatches mtype buf then .again true
  else .done len

/-- The fields of `struct rdscblk` and `struct rfdata` for the exchange. -/
structure Comm where
  seq : UInt32
  registered : Bool

/-- `rdscomm`, with the result of `getlocalip`. -/
def rdscomm (localip : Option UInt32) (mtype : UInt16) (rlen : Nat) (rounds : Nat → Round)
    (buf : List UInt8) (d : Comm) : Outcome × Comm :=
  let d := { d with registered := true }
  match localip with
  | none => (⟨SYSERR, 0, buf, none⟩, d)
  | some _ =>
    (exchange (rdsJudge d.seq mtype) rlen ((List.range RD_RETRIES).map rounds) true 0 buf,
      { d with seq := d.seq + 1 })

/-- `rfscomm`. -/
def rfscomm (mtype : UInt16) (rlen : Nat) (rounds : Nat → Round) (buf : List UInt8) (d : Comm) :
    Outcome × Comm :=
  (exchange (rfsJudge d.seq mtype) rlen ((List.range RF_RETRIES).map rounds) true 0 buf,
    { seq := d.seq + 1, registered := true })

/-! ## Replies that are mistaken -/

/-- `rdscomm` mistakes the reply: it is short or has a smaller sequence number,
and what is in the buffer passes for a successful response. -/
def RdsSlip (seq : UInt32) (mtype : UInt16) (bytes buf : List UInt8) : Prop :=
  (bytes.length < HDR_LEN ∨ seqOf buf < seq.toNat) ∧ seqOf buf ≤ seq.toNat ∧
    typeMatches mtype buf = true ∧ statusOf buf = 0

/-- `rfscomm` mistakes the reply: it is short, and the buffer completes it. -/
def RfsSlip (seq : UInt32) (mtype : UInt16) (bytes buf : List UInt8) : Prop :=
  bytes.length < HDR_LEN ∧ seqOf buf = seq.toNat ∧ typeMatches mtype buf = true

/-- Of the replies that a call looks at, none is mistaken. `slip` speaks of a
reply and of the buffer into which it has been copied. -/
def NoSlip (judge : List UInt8 → Nat → Verdict) (slip : List UInt8 → List UInt8 → Prop)
    (rlen : Nat) : List Round → Bool → List UInt8 → Prop
  | [], _, _ => True
  | r :: rounds, xmit, buf =>
    xmit ∧ ¬ r.send ∨
      match r.recv with
      | .timeout => NoSlip judge slip rlen rounds true buf
      | .error => True
      | .data bytes =>
        ¬ slip bytes (fill rlen bytes buf) ∧
          match judge (fill rlen bytes buf) (min bytes.length rlen) with
          | .again xmit => NoSlip judge slip rlen rounds xmit (fill rlen bytes buf)
          | .done _ => True

variable {seq : UInt32} {mtype : UInt16} {rlen : Nat}

/-- **Each round sends once at most.** -/
theorem exchange_sends (judge : List UInt8 → Nat → Verdict) (rlen : Nat) : ∀ (rounds : List Round) (xmit : Bool) (sends : Nat) (buf : List UInt8),
    (exchange judge rlen rounds xmit sends buf).sends ≤ sends + rounds.length
  | [], _, sends, _ => Nat.le_refl sends
  | r :: rounds, xmit, sends, buf => by
    have hlen : (r :: rounds).length = rounds.length + 1 := rfl
    have hsends : (if xmit = true then sends + 1 else sends) ≤ sends + 1 := by
      split <;> omega
    unfold exchange
    by_cases hs : xmit = true ∧ ¬ r.send = true
    · rw [if_pos hs]
      dsimp only
      omega
    · rw [if_neg hs]
      dsimp only
      cases r.recv with
      | timeout =>
        have ih := exchange_sends judge rlen rounds true
          (if xmit = true then sends + 1 else sends) buf
        dsimp only
        omega
      | error =>
        dsimp only
        omega
      | data bytes =>
        dsimp only
        cases judge (fill rlen bytes buf) (min bytes.length rlen) with
        | again x =>
          have ih := exchange_sends judge rlen rounds x
            (if xmit = true then sends + 1 else sends) (fill rlen bytes buf)
          dsimp only
          omega
        | done v =>
          dsimp only
          omega

/-- **A successful call has a reply of the right kind exactly when it mistakes
none.** A reply that lets the call succeed is mistaken or of that kind, and not
both. -/
theorem exchange_iff {judge : List UInt8 → Nat → Verdict} {slip : List UInt8 → List UInt8 → Prop}
    {good : Int → Prop} {P : List UInt8 → Prop} (htime : ¬ good TIMEOUT) (herr : ¬ good SYSERR)
    (hright : ∀ bytes buf v, judge (fill rlen bytes buf) (min bytes.length rlen) = .done v → good v →
      ¬ slip bytes (fill rlen bytes buf) → P bytes)
    (hslip : ∀ bytes buf, slip bytes (fill rlen bytes buf) → ¬ P bytes ∧
      ∃ v, judge (fill rlen bytes buf) (min bytes.length rlen) = .done v ∧ good v) :
    ∀ (rounds : List Round) (xmit : Bool) (sends : Nat) (buf : List UInt8),
      (good (exchange judge rlen rounds xmit sends buf).value →
        ∃ bytes, (exchange judge rlen rounds xmit sends buf).last = some bytes ∧ P bytes) ↔
      NoSlip judge slip rlen rounds xmit buf
  | [], _, _, _ => iff_of_true (fun hg => absurd hg htime) trivial
  | r :: rounds, xmit, sends, buf => by
    unfold exchange NoSlip
    by_cases hs : xmit = true ∧ ¬ r.send = true
    · rw [if_pos hs]
      exact iff_of_true (fun hg => absurd hg herr) (Or.inl hs)
    · rw [if_neg hs, or_iff_right hs]
      dsimp only
      cases r.recv with
      | timeout => exact exchange_iff htime herr hright hslip rounds true _ buf
      | error => exact iff_of_true (fun hg => absurd hg herr) trivial
      | data bytes =>
        dsimp only
        cases hj : judge (fill rlen bytes buf) (min bytes.length rlen) with
        | again x =>
          -- a mistaken reply would have ended the call
          have hno : ¬ slip bytes (fill rlen bytes buf) := by
            intro h
            obtain ⟨-, v, hv, -⟩ := hslip bytes buf h
            rw [hj] at hv
            cases hv
          rw [and_iff_right hno]
          exact exchange_iff htime herr hright hslip rounds x _ _
        | done v =>
          rw [and_true]
          constructor
          · intro h hs'
            obtain ⟨hP, w, hw, hg⟩ := hslip bytes buf hs'
            rw [hj] at hw
            injection hw with hw
            obtain ⟨b, hb, hPb⟩ := h (hw ▸ hg)
            exact hP (Option.some.inj hb ▸ hPb)
          · intro h hg
            exact ⟨bytes, rfl, hright bytes buf v hj hg h⟩

/-! ## The headers -/

/-- A complete header is read from the reply itself. -/
theorem slice_fill (hr : HDR_LEN ≤ rlen) {bytes : List UInt8} (hb : HDR_LEN ≤ bytes.length)
    (buf : List UInt8) {o n : Nat} (hon : o + n ≤ HDR_LEN) :
    slice o n (fill rlen bytes buf) = slice o n bytes := by
  have hlen : o + n ≤ (bytes.take rlen).length := by
    rw [List.length_take]
    omega
  unfold fill splice slice
  rw [List.take_zero, List.nil_append, List.drop_append_of_le_length (by omega),
    List.take_append_of_le_length (by rw [List.length_drop]; omega), List.drop_take, List.take_take,
    Nat.min_eq_left (by omega)]

theorem seqOf_fill (hr : HDR_LEN ≤ rlen) {bytes : List UInt8} (hb : HDR_LEN ≤ bytes.length)
    (buf : List UInt8) : seqOf (fill rlen bytes buf) = seqOf bytes := by
  unfold seqOf
  rw [slice_fill hr hb buf (by decide)]

theorem typeMatches_fill (hr : HDR_LEN ≤ rlen) {bytes : List UInt8} (hb : HDR_LEN ≤ bytes.length)
    (buf : List UInt8) : typeMatches mtype (fill rlen bytes buf) = typeMatches mtype bytes := by
  unfold typeMatches typeOf
  rw [slice_fill hr hb buf (by decide)]

/-- `rdscomm` succeeds with this reply. -/
theorem rdsJudge_ok {buf : List UInt8} {len : Nat} : rdsJudge seq mtype buf len = .done OK ↔
    seqOf buf ≤ seq.toNat ∧ typeMatches mtype buf = true ∧ statusOf buf = 0 := by
  unfold rdsJudge
  by_cases hseq : ¬ seqOf buf < seq.toNat ∧ seqOf buf ≠ seq.toNat
  · rw [if_pos hseq]
    refine iff_of_false nofun fun h => ?_
    omega
  · rw [if_neg hseq]
    have hle : seqOf buf ≤ seq.toNat := by omega
    cases htype : typeMatches mtype buf with
    | false =>
      rw [if_pos nofun]
      exact iff_of_false nofun nofun
    | true =>
      rw [if_neg (not_not_intro rfl)]
      by_cases hst : statusOf buf ≠ 0
      · rw [if_pos hst]
        exact iff_of_false (by decide) fun h => hst h.2.2
      · rw [if_neg hst]
        exact iff_of_true rfl ⟨hle, rfl, not_not.mp hst⟩

theorem rfsJudge_done {buf : List UInt8} {len : Nat} {v : Int} :
    rfsJudge seq mtype buf len = .done v ↔
      seqOf buf = seq.toNat ∧ typeMatches mtype buf = true ∧ v = len := by
  unfold rfsJudge
  by_cases hseq : seqOf buf ≠ seq.toNat
  · rw [if_pos hseq]
    exact iff_of_false nofun fun h => hseq h.1
  · rw [if_neg hseq]
    cases htype : typeMatches mtype buf with
    | false =>
      rw [if_pos nofun]
      exact iff_of_false nofun nofun
    | true =>
      rw [if_neg (not_not_intro rfl)]
      constructor
      · intro h
        injection h with h
        exact ⟨not_not.mp hseq, rfl, h.symm⟩
      · rintro ⟨-, -, rfl⟩
        rfl

/-! ## Both calls -/

/-- A call succeeds only with a reply to its own request, and sends the request
at most `retries` times. -/
def OwnReply (good : Int → Prop) (retries : Nat) (seq : UInt32) (mtype : UInt16) (o : Outcome) :
    Prop :=
  (good o.value → ∃ bytes, o.last = some bytes ∧ Carries seq mtype bytes) ∧ o.sends ≤ retries

/-- What `rdscomm` returns when it succeeds. -/
def IsOK (v : Int) : Prop := v = OK

/-- What `rfscomm` returns when it succeeds is a length. -/
def IsLength (v : Int) : Prop := v ≠ SYSERR ∧ v ≠ TIMEOUT

theorem rds_exchange_iff (hr : HDR_LEN ≤ rlen) (seq : UInt32) (mtype : UInt16)
    (rounds : List Round) (buf : List UInt8) :
    (IsOK (exchange (rdsJudge seq mtype) rlen rounds true 0 buf).value →
      ∃ bytes, (exchange (rdsJudge seq mtype) rlen rounds true 0 buf).last = some bytes ∧
        Carries seq mtype bytes) ↔
      NoSlip (rdsJudge seq mtype) (RdsSlip seq mtype) rlen rounds true buf := by
  have htime : ¬ IsOK TIMEOUT := by
    unfold IsOK
    decide
  have herr : ¬ IsOK SYSERR := by
    unfold IsOK
    decide
  refine exchange_iff htime herr ?_ ?_ rounds true 0 buf
  · -- a reply that is not mistaken is complete and has the number of the request
    rintro bytes buf v hj rfl hno
    obtain ⟨hle, htype, hst⟩ := rdsJudge_ok.mp hj
    have hfull : ¬ (bytes.length < HDR_LEN ∨ seqOf (fill rlen bytes buf) < seq.toNat) :=
      fun h => hno ⟨h, hle, htype, hst⟩
    rw [not_or, not_lt, not_lt] at hfull
    refine ⟨hfull.1, ?_, ?_⟩
    · rw [← seqOf_fill hr hfull.1 buf]
      exact Nat.le_antisymm hle hfull.2
    · rw [← typeMatches_fill hr hfull.1 buf]
      exact htype
  · rintro bytes buf ⟨hbad, hle, htype, hst⟩
    refine ⟨?_, OK, rdsJudge_ok.mpr ⟨hle, htype, hst⟩, rfl⟩
    rintro ⟨hlen, hseq, -⟩
    rw [seqOf_fill hr hlen buf] at hbad
    omega

theorem rfs_exchange_iff (hr : HDR_LEN ≤ rlen) (seq : UInt32) (mtype : UInt16)
    (rounds : List Round) (buf : List UInt8) :
    (IsLength (exchange (rfsJudge seq mtype) rlen rounds true 0 buf).value →
      ∃ bytes, (exchange (rfsJudge seq mtype) rlen rounds true 0 buf).last = some bytes ∧
        Carries seq mtype bytes) ↔
      NoSlip (rfsJudge seq mtype) (RfsSlip seq mtype) rlen rounds true buf := by
  refine exchange_iff (fun h => h.2 rfl) (fun h => h.1 rfl) ?_ ?_ rounds true 0 buf
  · rintro bytes buf v hj - hno
    obtain ⟨hseq, htype, -⟩ := rfsJudge_done.mp hj
    have hfull : HDR_LEN ≤ bytes.length := by
      by_contra hlt
      exact hno ⟨not_le.mp hlt, hseq, htype⟩
    refine ⟨hfull, ?_, ?_⟩
    · rw [← seqOf_fill hr hfull buf]
      exact hseq
    · rw [← typeMatches_fill hr hfull buf]
      exact htype
  · rintro bytes buf ⟨hshort, hseq, htype⟩
    refine ⟨?_, _, rfsJudge_done.mpr ⟨hseq, htype, rfl⟩, ?_, ?_⟩
    · rintro ⟨hlen, -⟩
      omega
    · unfold SYSERR
      omega
    · unfold TIMEOUT
      omega

/-- **A call succeeds only with the reply to its own request, exactly when it
mistakes none of the replies that it looks at.** -/
theorem own_reply_iff (hr : HDR_LEN ≤ rlen) (mtype : UInt16) (localip : Option UInt32)
    (rounds : Nat → Round) (buf : List UInt8) (d : Comm) :
    (OwnReply IsOK RD_RETRIES d.seq mtype (rdscomm localip mtype rlen rounds buf d).1 ↔
      (localip.isSome → NoSlip (rdsJudge d.seq mtype) (RdsSlip d.seq mtype) rlen
        ((List.range RD_RETRIES).map rounds) true buf)) ∧
    (OwnReply IsLength RF_RETRIES d.seq mtype (rfscomm mtype rlen rounds buf d).1 ↔
      NoSlip (rfsJudge d.seq mtype) (RfsSlip d.seq mtype) rlen
        ((List.range RF_RETRIES).map rounds) true buf) := by
  constructor
  · cases localip with
    | none =>
      refine iff_of_true ⟨fun h => ?_, Nat.zero_le _⟩ nofun
      exact absurd (show SYSERR = OK from h) (by decide)
    | some ip =>
      have hsends := exchange_sends (rdsJudge d.seq mtype) rlen
        ((List.range RD_RETRIES).map rounds) true 0 buf
      rw [List.length_map, List.length_range, Nat.zero_add] at hsends
      rw [forall_prop_of_true (show (some ip).isSome from rfl)]
      exact (and_iff_left hsends).trans (rds_exchange_iff hr d.seq mtype _ buf)
  · have hsends := exchange_sends (rfsJudge d.seq mtype) rlen
      ((List.range RF_RETRIES).map rounds) true 0 buf
    rw [List.length_map, List.length_range, Nat.zero_add] at hsends
    exact (and_iff_left hsends).trans (rfs_exchange_iff hr d.seq mtype _ buf)

/-! ## An older reply -/

/-- A reply of the type `0x0110` with the status 0 and a sequence number. -/
def replyTo (seq : UInt8) : List UInt8 := [0x10, 1, 0, 0, seq, 0, 0, 0]

/-- The reply to the request number 5, and nothing else. -/
theorem own_reply_iff_five :
    OwnReply IsOK RD_RETRIES 5 0x10
      (rdscomm (some 1) 0x10 8 (fun _ => ⟨true, .data (replyTo 5)⟩) [] ⟨5, true⟩).1 ∧
    OwnReply IsLength RF_RETRIES 5 0x10
      (rfscomm 0x10 8 (fun _ => ⟨true, .data (replyTo 5)⟩) [] ⟨5, true⟩).1 := by
  have h := own_reply_iff (show HDR_LEN ≤ 8 by decide) 0x10 (some 1)
    (fun _ => ⟨true, .data (replyTo 5)⟩) [] ⟨5, true⟩
  refine ⟨h.1.mpr fun _ => Or.inr ⟨?_, trivial⟩, h.2.mpr (Or.inr ⟨?_, trivial⟩)⟩
  · rintro ⟨hbad, -⟩
    revert hbad
    decide
  · rintro ⟨hshort, -⟩
    revert hshort
    decide

/-- **`rdscomm` takes the reply to the request number 4 for the reply to the
request number 5.** -/
theorem not_own_reply :
    ¬ ∀ (rlen : Nat) (mtype : UInt16) (localip : Option UInt32) (rounds : Nat → Round)
      (buf : List UInt8) (d : Comm), HDR_LEN ≤ rlen →
      OwnReply IsOK RD_RETRIES d.seq mtype (rdscomm localip mtype rlen rounds buf d).1 ∧
      OwnReply IsLength RF_RETRIES d.seq mtype (rfscomm mtype rlen rounds buf d).1 := by
  intro h
  obtain ⟨⟨hown, -⟩, -⟩ := h 8 0x10 (some 1) (fun _ => ⟨true, .data (replyTo 4)⟩) [] ⟨5, true⟩
    (by decide)
  obtain ⟨bytes, hlast, hcar⟩ := hown rfl
  obtain rfl := Option.some.inj hlast
  revert hcar
  decide

end Xinu.Net
