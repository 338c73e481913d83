import XinuCMips.Net.Exchange

/-!
# `rflRead`: reading a remote file

`rflRead` asks the server for `count` bytes, and copies as many bytes out of the
reply as the field `rf_len` of the reply says, into the buffer of its caller. The
fields of the reply are read where they lie in `resp`, whatever has been received.

The copy is a list; `none` stands for a byte behind the end of `resp`.

* `rfscomm_ended`   — what `rfscomm` leaves of the reply;
* `rflRead_bounded_iff` — a reading call keeps to its bounds exactly when the reply does.
-/

namespace Xinu.Rfs

open Bytes Net

def RF_NAMLEN : Nat := 128
def RF_DATALEN : Nat := 1024
def RF_MODE_R : UInt32 := 1
def RF_MSG_RREQ : UInt16 := 1

/-- The offsets of `rf_len` and `rf_data` in `struct rf_msg_rres`, and its size. -/
def lenAt : Nat := HDR_LEN + RF_NAMLEN + 4
def dataAt : Nat := lenAt + 4
def rresSize : Nat := dataAt + RF_DATALEN

/-- `struct rflcblk`. -/
structure Rflcblk where
  /-- `rfstate` is not `RF_FREE`. -/
  used : Bool
  rfname : List UInt8
  rfpos : UInt32
  rfmode : UInt32
  deriving DecidableEq

/-- What a call comes to: its value, what it has stored in the buffer of its caller,
the control block, and the reply that `rfscomm` has accepted. -/
structure Result where
  value : Int
  stored : List (Option UInt8)
  cblk : Rflcblk
  reply : Option (List UInt8)
  deriving DecidableEq

/-- The name is copied up to its null character, or is too long. -/
def nameFits (rfname : List UInt8) : Prop := 0 ∈ rfname.take RF_NAMLEN

instance (rfname : List UInt8) : Decidable (nameFits rfname) :=
  inferInstanceAs (Decidable (_ ∈ _))

/-- `ntohs(resp.rf_status)` and `htonl(resp.rf_len)`: the macros change nothing. -/
def rfLen (resp : List UInt8) : Nat := ofLe (slice lenAt 4 resp)

/-- `return SYSERR`. -/
def fails (rfptr : Rflcblk) (reply : Option (List UInt8)) : Result := ⟨SYSERR, [], rfptr, reply⟩

/-- The loop that copies the data, and the new position. -/
def copies (resp : List UInt8) (rfptr : Rflcblk) (reply : Option (List UInt8)) : Result :=
  let len := rfLen resp
  ⟨int32 len, (List.range len).map fun i => resp[dataAt + i]?,
    { rfptr with rfpos := rfptr.rfpos + UInt32.ofNat len }, reply⟩

/-- `rflRead` behind `rfscomm`. -/
def checkResponse (rfptr : Rflcblk) (o : Outcome) : Result :=
  if o.value = SYSERR then fails rfptr o.last
  else if o.value = TIMEOUT then fails rfptr o.last
  else if statusOf o.buf ≠ 0 then fails rfptr o.last
  else copies o.buf rfptr o.last

/-- `rflRead`. `resp` is what the buffer for the reply contains before. -/
def rflRead (count : Int) (rounds : Nat → Round) (resp : List UInt8) (rfptr : Rflcblk) (d : Comm) :
    Result × Comm :=
  if count ≤ 0 ∨ count > RF_DATALEN then (fails rfptr none, d)
  else if ¬rfptr.used then (fails rfptr none, d)
  else if rfptr.rfmode &&& RF_MODE_R = 0 then (fails rfptr none, d)
  else if ¬nameFits rfptr.rfname then (fails rfptr none, d)
  else
    let r := rfscomm RF_MSG_RREQ rresSize rounds resp d
    (checkResponse rfptr r.1, r.2)

-- ---------------------------------------------------------------------------
-- What is wanted
-- ---------------------------------------------------------------------------

/-- A call that keeps to its bounds: it stores at most `count` bytes, all of them
bytes of the message that was received; it moves the position by the number of bytes
that it returns, and not at all when it fails. -/
structure Bounded (count : Int) (rfptr : Rflcblk) (r : Result) : Prop where
  atMost : r.stored ≠ [] → (r.stored.length : Int) ≤ count
  received : ∀ i < r.stored.length, ∃ bytes b, r.reply = some bytes ∧
    bytes[dataAt + i]? = some b ∧ r.stored[i]? = some (some b)
  moved : r.value ≠ SYSERR → r.value = r.stored.length ∧
    r.cblk = { rfptr with rfpos := rfptr.rfpos + UInt32.ofNat r.value.toNat }
  failed : r.value = SYSERR → r.stored = [] ∧ r.cblk = rfptr

/-- A reply that `rflRead` may copy: `rf_len` is at most `count`, and the message has so
many bytes of data. -/
def Copies (count : Int) (bytes resp : List UInt8) : Prop :=
  (rfLen resp : Int) ≤ count ∧ (0 < rfLen resp → dataAt + rfLen resp ≤ bytes.length)

instance (count : Int) (bytes resp : List UInt8) : Decidable (Copies count bytes resp) :=
  inferInstanceAs (Decidable (_ ∧ _))

/-- The arguments that `rflRead` does not refuse. -/
structure Asks (count : Int) (rfptr : Rflcblk) : Prop where
  count : 0 < count ∧ count ≤ RF_DATALEN
  used : rfptr.used = true
  mode : rfptr.rfmode &&& RF_MODE_R ≠ 0
  name : nameFits rfptr.rfname

/-- The reply that the call accepts, if it is one of success, may be copied. -/
def Trusted (count : Int) (rounds : Nat → Round) (resp : List UInt8) (rfptr : Rflcblk) (d : Comm) :
    Prop :=
  let o := (rfscomm RF_MSG_RREQ rresSize rounds resp d).1
  Asks count rfptr → ∀ bytes, o.last = some bytes → statusOf o.buf = 0 → Copies count bytes o.buf

-- ---------------------------------------------------------------------------
-- The exchange
-- ---------------------------------------------------------------------------

variable {count : Int} {rounds : Nat → Round} {resp : List UInt8} {rfptr : Rflcblk} {d : Comm}

/-- `rfscomm` fails, or accepts a reply that it has copied into the buffer. -/
inductive Ended (rlen : Nat) (o : Outcome) : Prop
  | failed (last : o.last = none) (value : o.value = SYSERR ∨ o.value = TIMEOUT)
  | accepted (bytes old : List UInt8) (last : o.last = some bytes)
      (value : o.value = (min bytes.length rlen : Nat)) (buf : o.buf = fill rlen bytes old)

theorem exchange_ended {seq : UInt32} {mtype : UInt16} {rlen : Nat} (rs : List Round) (xmit : Bool)
    (sends : Nat) (buf : List UInt8) :
    Ended rlen (exchange (rfsJudge seq mtype) rlen rs xmit sends buf) := by
  induction rs generalizing xmit sends buf with
  | nil => exact .failed rfl (.inr rfl)
  | cons r rs ih =>
    unfold exchange
    by_cases hs : xmit = true ∧ ¬r.send = true
    · rw [if_pos hs]
      exact .failed rfl (.inl rfl)
    · rw [if_neg hs]
      dsimp only
      cases r.recv with
      | timeout => exact ih _ _ buf
      | error => exact .failed rfl (.inl rfl)
      | data bytes =>
        dsimp only
        cases hj : rfsJudge seq mtype (fill rlen bytes buf) (min bytes.length rlen) with
        | again x => exact ih _ _ _
        | done v =>
          obtain ⟨-, -, hv⟩ := rfsJudge_done.mp hj
          exact .accepted bytes buf rfl hv rfl

/-- **What `rfscomm` leaves.** -/
theorem rfscomm_ended {mtype : UInt16} {rlen : Nat} :
    Ended rlen (rfscomm mtype rlen rounds resp d).1 := exchange_ended _ _ _ resp

/-- A byte of the buffer is one of the message, as far as that reaches. -/
theorem fill_getElem? {bytes old : List UInt8} {rlen i : Nat} (h : i < min bytes.length rlen) :
    (fill rlen bytes old)[i]? = bytes[i]? := by
  have hlen : (bytes.take rlen).length = min rlen bytes.length := List.length_take
  unfold fill
  rw [getElem?_splice_of_le (Nat.zero_le _), if_pos ⟨Nat.zero_le i, by omega⟩, Nat.sub_zero,
    List.getElem?_take_of_lt (by omega)]

-- ---------------------------------------------------------------------------
-- The call
-- ---------------------------------------------------------------------------

/-- A call that fails changes nothing. -/
theorem bounded_fails (reply : Option (List UInt8)) : Bounded count rfptr (fails rfptr reply) where
  atMost h := absurd rfl h
  received i hi := absurd hi (Nat.not_lt_zero i)
  moved h := absurd rfl h
  failed _ := ⟨rfl, rfl⟩

theorem rflRead_refused (h : ¬Asks count rfptr) :
    rflRead count rounds resp rfptr d = (fails rfptr none, d) := by
  unfold rflRead
  by_cases hcount : count ≤ 0 ∨ count > RF_DATALEN
  · exact if_pos hcount
  rw [if_neg hcount]
  by_cases hused : ¬rfptr.used = true
  · exact if_pos hused
  rw [if_neg hused]
  by_cases hmode : rfptr.rfmode &&& RF_MODE_R = 0
  · exact if_pos hmode
  rw [if_neg hmode]
  by_cases hname : ¬nameFits rfptr.rfname
  · exact if_pos hname
  · exact absurd ⟨by omega, not_not.mp hused, hmode, not_not.mp hname⟩ h

theorem rflRead_asks (h : Asks count rfptr) : (rflRead count rounds resp rfptr d).1 =
    checkResponse rfptr (rfscomm RF_MSG_RREQ rresSize rounds resp d).1 := by
  have hcount := h.count
  unfold rflRead
  rw [if_neg (by omega), if_neg (not_not.mpr h.used), if_neg h.mode, if_neg (not_not.mpr h.name)]

theorem rfLen_lt (buf : List UInt8) : rfLen buf < 2 ^ 32 := by
  have hlt := ofLe_lt (slice lenAt 4 buf)
  have hlen : (slice lenAt 4 buf).length ≤ 4 := by
    unfold slice
    exact List.length_take_le _ _
  exact lt_of_lt_of_le hlt (Nat.pow_le_pow_right (by decide) hlen)

theorem copies_length (buf : List UInt8) (reply : Option (List UInt8)) :
    (copies buf rfptr reply).stored.length = rfLen buf := by
  simp [copies]

theorem copies_value (buf : List UInt8) (reply : Option (List UInt8)) :
    (copies buf rfptr reply).value = int32 (rfLen buf) := by
  unfold copies
  dsimp only

/-- **A reply is copied within the bounds** exactly when it may be. -/
theorem bounded_copies_iff {bytes old : List UInt8} (hcount : 0 < count ∧ count ≤ RF_DATALEN) :
    Bounded count rfptr (copies (fill rresSize bytes old) rfptr (some bytes)) ↔
      Copies count bytes (fill rresSize bytes old) := by
  obtain ⟨buf, hbuf⟩ : ∃ buf, buf = fill rresSize bytes old := ⟨_, rfl⟩
  have hlen : (copies buf rfptr (some bytes)).stored.length = rfLen buf :=
    copies_length buf (some bytes)
  have hsmall := rfLen_lt buf
  have hmax : RF_DATALEN = 1024 := rfl
  rw [← hbuf]
  constructor
  · intro h
    have hle : rfLen buf ≠ 0 → (rfLen buf : Int) ≤ count := by
      intro hne
      rw [← hlen]
      exact h.atMost (fun hnil => hne (by rw [← hlen, hnil]; rfl))
    refine ⟨?_, fun hpos => ?_⟩
    · by_cases hzero : rfLen buf = 0
      · omega
      · exact hle hzero
    · -- the last byte was received
      obtain ⟨bytes', b, hreply, hb, -⟩ := h.received (rfLen buf - 1) (by rw [hlen]; omega)
      obtain rfl : bytes = bytes' := Option.some.inj hreply
      obtain ⟨hlt, -⟩ := List.getElem?_eq_some_iff.mp hb
      omega
  · rintro ⟨hle, hdata⟩
    have hint : int32 (rfLen buf) = rfLen buf := by
      unfold int32
      exact Int.bmod_eq_of_le (by omega) (by omega)
    refine ⟨fun _ => by rw [hlen]; exact hle, fun i hi => ?_, fun _ => ⟨?_, ?_⟩, fun herr => ?_⟩
    · rw [hlen] at hi
      have hfits := hdata (by omega)
      have hsize : rresSize = dataAt + RF_DATALEN := rfl
      have hin : dataAt + i < min bytes.length rresSize := by omega
      have hlt : dataAt + i < bytes.length := by omega
      refine ⟨bytes, bytes[dataAt + i], rfl, List.getElem?_eq_getElem hlt, ?_⟩
      have hget : buf[dataAt + i]? = some bytes[dataAt + i] := by
        rw [hbuf, fill_getElem? hin]
        exact List.getElem?_eq_getElem hlt
      simp [copies, hi, hget]
    · rw [hlen, copies_value, hint]
    · simp [copies, hint]
    · have hsys : SYSERR = -1 := rfl
      rw [copies_value, hint] at herr
      omega

/-- **For every count, position and reply**, `rflRead` keeps to its bounds exactly when
the reply that it accepts has an `rf_len` of at most `count` and so many bytes of
data. -/
theorem rflRead_bounded_iff (count : Int) (rounds : Nat → Round) (resp : List UInt8)
    (rfptr : Rflcblk) (d : Comm) : Bounded count rfptr (rflRead count rounds resp rfptr d).1 ↔
      Trusted count rounds resp rfptr d := by
  by_cases hasks : Asks count rfptr
  swap
  · rw [rflRead_refused hasks]
    exact iff_of_true (bounded_fails none) fun h => absurd h hasks
  rw [rflRead_asks hasks]
  unfold Trusted
  dsimp only
  rw [forall_prop_of_true hasks]
  have hended : Ended rresSize (rfscomm RF_MSG_RREQ rresSize rounds resp d).1 :=
    rfscomm_ended
  generalize (rfscomm RF_MSG_RREQ rresSize rounds resp d).1 = o at *
  cases hended with
  | failed hlast hvalue =>
    have hfails : checkResponse rfptr o = fails rfptr o.last := by
      unfold checkResponse
      rcases hvalue with hv | hv
      · exact if_pos hv
      · rw [if_pos hv, ite_self]
    rw [hfails, hlast]
    exact iff_of_true (bounded_fails none) nofun
  | accepted bytes old hlast hvalue hbuf =>
    have hsys : o.value ≠ SYSERR := by
      rw [hvalue]
      unfold SYSERR
      omega
    have htime : o.value ≠ TIMEOUT := by
      rw [hvalue]
      unfold TIMEOUT
      omega
    unfold checkResponse
    rw [if_neg hsys, if_neg htime]
    by_cases hstatus : statusOf o.buf = 0
    · rw [if_neg (not_not.mpr hstatus), hlast, hbuf, bounded_copies_iff hasks.count]
      constructor
      · intro h b hb _
        exact Option.some.inj hb ▸ h
      · exact fun h => h bytes rfl (hbuf ▸ hstatus)
    · rw [if_pos hstatus]
      exact iff_of_true (bounded_fails o.last) fun _ _ h => absurd h hstatus

-- ---------------------------------------------------------------------------
-- A reply that is too long
-- ---------------------------------------------------------------------------

/-- A file that is open for reading, and a reply of 145 bytes to the request number 0
whose `rf_len` is `len`. -/
def openFile : Rflcblk := { used := true, rfname := [97, 0], rfpos := 0, rfmode := 1 }

def resTo (len : UInt8) : List UInt8 :=
  [1, 1, 0, 0, 0, 0, 0, 0] ++ List.replicate RF_NAMLEN 0 ++ [0, 0, 0, 0, len, 0, 0, 0, 7]

/-- The server answers a request for one byte with two. -/
theorem rflRead_not_bounded : ¬∀ (count : Int) (rounds : Nat → Round) (resp : List UInt8)
    (rfptr : Rflcblk) (d : Comm), Bounded count rfptr (rflRead count rounds resp rfptr d).1 := by
  intro hall
  have hmost := (hall 1 (fun _ => ⟨true, .data (resTo 2)⟩) (List.replicate rresSize 0) openFile
    ⟨0, true⟩).atMost
  revert hmost
  decide +kernel

end Xinu.Rfs
