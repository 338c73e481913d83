import XinuCMips.Lib.Tlv
import XinuCMips.Net.Exchange

/-!
# `getlocalip`: the options of a DHCP reply

`getlocalip` waits three times for a reply, in one buffer on its stack, and steps through
the options of the reply by their lengths. What `udp_recv` returns is the length of the
reply: an error is taken for a length as well. Whether a reply is an acknowledgement is
read from the third byte of the options.

The memory is a function of the offset from `dmsg2` on; it goes on behind the message.
`reads` are the offsets that have been looked at.

* `optLoop_eq`        — the loop stops over the steps of the list;
* `attempt_right_iff` — when a reply is understood;
* `getlocalip_right`  — what becomes of three understood replies.
-/

namespace Xinu.Net.Dhcp

open Bytes

def DHCP_OFFER : UInt8 := 2
def DHCP_ACK : UInt8 := 5

/-- The offsets of `dc_xid`, `dc_yip` and `dc_opt` in `struct dhcpmsg`, and its size. -/
def xidAt : Nat := 4
def yipAt : Nat := 16
def optAt : Nat := 240
def msgSize : Nat := optAt + 1024

/-- `struct network`. -/
structure Network where
  ipaddr : UInt32
  addrmask : UInt32
  routeraddr : UInt32
  ipvalid : Bool
  ethaddr : List UInt8
  deriving DecidableEq

abbrev Memory := Nat → UInt8

/-- The four bytes from an offset on. -/
def word (mem : Memory) (p : Nat) : UInt32 :=
  UInt32.ofNat (ofLe [mem p, mem (p + 1), mem (p + 2), mem (p + 3)])

/-- What `udp_recv` copies of a message. -/
def message (bytes : List UInt8) : List UInt8 := bytes.take msgSize

/-- The message is copied over `dmsg2`. -/
def received (bytes : List UInt8) (mem : Memory) : Memory :=
  fun i => ((message bytes)[i]?).getD (mem i)

/-- What the loop has found. -/
structure Parse where
  msgtype : UInt8 := 0
  addrmask : UInt32 := 0
  routeraddr : UInt32 := 0
  deriving DecidableEq

/-- The `switch`. -/
def takeOption (mem : Memory) (s : Parse) (optptr : Nat) : Parse :=
  if mem optptr = 53 then { s with msgtype := mem (optptr + 2) }
  else if mem optptr = 1 then { s with addrmask := word mem (optptr + 2) }
  else if mem optptr = 3 then { s with routeraddr := word mem (optptr + 2) }
  else s

/-- The bytes that one turn of the loop looks at. -/
def optReads (mem : Memory) (optptr : Nat) : List Nat :=
  (if mem optptr = 53 then [optptr + 2]
    else if mem optptr = 1 ∨ mem optptr = 3 then
      [optptr + 2, optptr + 3, optptr + 4, optptr + 5]
    else []) ++ [optptr, optptr + 1]

/-- The loop: what it has found, and where it has stopped over. -/
def optLoop (mem : Memory) (eop : Int) (optptr : Nat) (s : Parse) : Parse × List Nat :=
  if (optptr : Int) < eop then
    let r := optLoop mem eop (optptr + 1 + ((mem (optptr + 1)).toNat + 1)) (takeOption mem s optptr)
    (r.1, optptr :: r.2)
  else (s, [])
termination_by (eop - optptr).toNat

/-- A try: what has been looked at, where the loop has stopped over, and what is stored. -/
structure Attempt where
  reads : List Nat
  stops : List Nat
  stored : Option Network
  deriving DecidableEq

def store (s : Parse) (ip : UInt32) (nd : Network) : Network :=
  { nd with
    addrmask := if s.addrmask ≠ 0 then s.addrmask else nd.addrmask
    routeraddr := if s.routeraddr ≠ 0 then s.routeraddr else nd.routeraddr
    ipaddr := ip
    ipvalid := true }

/-- A try behind its `udp_recv`. -/
def interpret (xid : UInt32) (len : Int) (mem : Memory) (nd : Network) : Attempt :=
  let reads := [xidAt, xidAt + 1, xidAt + 2, xidAt + 3]
  if word mem xidAt ≠ xid then ⟨reads, [], none⟩
  else
    let (s, stops) := optLoop mem (len - 1) optAt {}
    let reads := reads ++ stops.flatMap (optReads mem)
    let yip := [yipAt, yipAt + 1, yipAt + 2, yipAt + 3]
    let accepted := some (store s (word mem yipAt) nd)
    if s.msgtype = DHCP_OFFER then ⟨reads ++ yip, stops, accepted⟩
    else if mem (optAt + 2) ≠ DHCP_ACK then ⟨reads ++ [optAt + 2], stops, none⟩
    else ⟨reads ++ [optAt + 2] ++ yip, stops, accepted⟩

/-- A try. -/
def attempt (xid : UInt32) (reply : Recv) (mem : Memory) (nd : Network) : Attempt :=
  match reply with
  | .timeout => ⟨[], [], none⟩
  | .error => interpret xid SYSERR mem nd
  | .data bytes => interpret xid (message bytes).length (received bytes mem) nd

/-- `dmsg2` after a try that has stored nothing. -/
def afterwards (reply : Recv) (mem : Memory) : Memory :=
  match reply with
  | .data bytes => received bytes mem
  | _ => mem

/-- The loop over the tries. -/
def tries (xid : UInt32) : List Recv → Memory → Network → UInt32 × Network
  | [], _, nd => (0xFFFFFFFF, nd)
  | reply :: replies, mem, nd =>
    match (attempt xid reply mem nd).stored with
    | some nd => (nd.ipaddr, nd)
    | none => tries xid replies (afterwards reply mem) nd

/-- `memcpy(&xid, NetData.ethaddr, 4)`. -/
def xidOf (nd : Network) : UInt32 := word (fun i => nd.ethaddr.getD i 0) 0

/-- `getlocalip`. -/
def getlocalip (replies : Nat → Recv) (mem : Memory) (nd : Network) : UInt32 × Network :=
  if nd.ipvalid then (nd.ipaddr, nd)
  else tries (xidOf nd) ((List.range 3).map replies) mem nd

-- ---------------------------------------------------------------------------
-- What a reply says
-- ---------------------------------------------------------------------------

/-- The bytes of a message. -/
def byteOf (bytes : List UInt8) : Memory := fun i => (message bytes).getD i 0

/-- The message type, the mask and the router address are looked for. -/
def want : Tlv.Wants where
  bytes t := if t = 53 then 1 else if t = 1 ∨ t = 3 then 4 else 0
  pad := rfl
  last := rfl

def optionsOf (bytes : List UInt8) : List Nat :=
  Tlv.options (byteOf bytes) (message bytes).length optAt

/-- What the options say that are long enough. -/
def parseOf (bytes : List UInt8) : Parse :=
  ((optionsOf bytes).filter fun p =>
    want.bytes (byteOf bytes p) ≤ (byteOf bytes (p + 1)).toNat).foldl (takeOption (byteOf bytes)) {}

/-- What should be stored: an offer or an acknowledgement is accepted. -/
def promised (xid : UInt32) (bytes : List UInt8) (nd : Network) : Option Network :=
  if word (byteOf bytes) xidAt = xid ∧
      ((parseOf bytes).msgtype = DHCP_OFFER ∨ (parseOf bytes).msgtype = DHCP_ACK) then
    some (store (parseOf bytes) (word (byteOf bytes) yipAt) nd)
  else none

/-- A reply is understood: only its bytes are looked at, the loop finds the options of its
list, takes values from whole options only, and stores what they say. Without a reply
nothing is looked at. -/
def Right (xid : UInt32) (reply : Recv) (nd : Network) (r : Attempt) : Prop :=
  match reply with
  | .data bytes =>
    (∀ i ∈ r.reads, i < (message bytes).length) ∧
      (word (byteOf bytes) xidAt = xid →
        (r.stops.filter fun p => Tlv.Ordinary (byteOf bytes p) ∧
          Tlv.Whole (byteOf bytes) (message bytes).length p) = optionsOf bytes) ∧
      (∀ p ∈ r.stops, Tlv.Sound (byteOf bytes) (message bytes).length want p) ∧
      r.stored = promised xid bytes nd
  | _ => r.reads = [] ∧ r.stored = none

/-- A reply whose options are where their lengths say, with a third byte that tells an
acknowledgement. An error is no reply. -/
def Plain (xid : UInt32) : Recv → Prop
  | .timeout => True
  | .error => False
  | .data bytes =>
    xidAt + 4 ≤ (message bytes).length ∧
      (word (byteOf bytes) xidAt = xid →
        Tlv.Agree (byteOf bytes) (message bytes).length want optAt ∧
          ((parseOf bytes).msgtype = DHCP_OFFER ∨
            optAt + 2 < (message bytes).length ∧
              (byteOf bytes (optAt + 2) = DHCP_ACK ↔ (parseOf bytes).msgtype = DHCP_ACK)))

-- ---------------------------------------------------------------------------
-- The loop
-- ---------------------------------------------------------------------------

variable {mem : Memory} {bytes : List UInt8} {xid : UInt32} {nd : Network} {len : Nat}

/-- **The loop stops over the steps of the list.** -/
theorem optLoop_eq (mem : Memory) (len p : Nat) (s : Parse) :
    optLoop mem ((len : Int) - 1) p s =
      ((Tlv.steps mem len p).foldl (takeOption mem) s, Tlv.steps mem len p) := by
  induction p using Tlv.steps.induct mem len generalizing s with
  | case1 p hlt ih =>
    have hbehind : p + 1 + ((mem (p + 1)).toNat + 1) = Tlv.behind mem p := by
      unfold Tlv.behind
      omega
    rw [optLoop, if_pos (by omega), Tlv.steps_of_lt hlt, List.foldl_cons, hbehind, ih]
  | case2 p hnot =>
    rw [optLoop, if_neg (by omega), Tlv.steps_of_not_lt hnot]
    rfl

theorem takeOption_skip {p : Nat} (h : want.bytes (mem p) = 0) (s : Parse) :
    takeOption mem s p = s := by
  have hne : mem p ≠ 53 ∧ mem p ≠ 1 ∧ mem p ≠ 3 := by
    refine ⟨fun heq => ?_, fun heq => ?_, fun heq => ?_⟩
    · rw [heq] at h
      cases h
    · rw [heq] at h
      cases h
    · rw [heq] at h
      cases h
  unfold takeOption
  rw [if_neg hne.1, if_neg hne.2.1, if_neg hne.2.2]

theorem word_congr {b : Memory} {p : Nat} (h : ∀ i < len, mem i = b i) (hp : p + 4 ≤ len) :
    word mem p = word b p := by
  unfold word
  rw [h p (by omega), h (p + 1) (by omega), h (p + 2) (by omega), h (p + 3) (by omega)]

/-- Where bytes are taken from a whole option, what lies behind the message is of no
account. -/
theorem takeOption_congr {b : Memory} {p : Nat} (h : ∀ i < len, mem i = b i) (hp : p + 1 < len)
    (hsound : Tlv.Sound b len want p) (s : Parse) : takeOption mem s p = takeOption b s p := by
  unfold takeOption
  rw [h p (by omega)]
  by_cases htype : b p = 53
  · have hwant : want.bytes (b p) = 1 := by rw [htype]; rfl
    obtain ⟨⟨-, hin⟩, hlen⟩ := hsound (by omega)
    unfold Tlv.behind at hin
    rw [if_pos htype, if_pos htype, h (p + 2) (by omega)]
  rw [if_neg htype, if_neg htype]
  by_cases hmask : b p = 1
  · have hwant : want.bytes (b p) = 4 := by rw [hmask]; rfl
    obtain ⟨⟨-, hin⟩, hlen⟩ := hsound (by omega)
    unfold Tlv.behind at hin
    rw [if_pos hmask, if_pos hmask, word_congr h (by omega)]
  rw [if_neg hmask, if_neg hmask]
  by_cases hrouter : b p = 3
  · have hwant : want.bytes (b p) = 4 := by rw [hrouter]; rfl
    obtain ⟨⟨-, hin⟩, hlen⟩ := hsound (by omega)
    unfold Tlv.behind at hin
    rw [if_pos hrouter, if_pos hrouter, word_congr h (by omega)]
  rw [if_neg hrouter, if_neg hrouter]

/-- A turn that takes bytes from a whole option looks at the message only. -/
theorem optReads_inside {b : Memory} {p i : Nat} (h : ∀ i < len, mem i = b i) (hp : p + 1 < len)
    (hsound : Tlv.Sound b len want p) (hi : i ∈ optReads mem p) : i < len := by
  unfold optReads at hi
  rw [h p (by omega)] at hi
  rcases List.mem_append.mp hi with hi | hi
  · by_cases htype : b p = 53
    · have hwant : want.bytes (b p) = 1 := by rw [htype]; rfl
      obtain ⟨⟨-, hin⟩, hlen⟩ := hsound (by omega)
      unfold Tlv.behind at hin
      rw [if_pos htype, List.mem_singleton] at hi
      omega
    rw [if_neg htype] at hi
    by_cases haddr : b p = 1 ∨ b p = 3
    · have hwant : want.bytes (b p) = 4 := by
        rcases haddr with haddr | haddr
        · rw [haddr]
          rfl
        · rw [haddr]
          rfl
      obtain ⟨⟨-, hin⟩, hlen⟩ := hsound (by omega)
      unfold Tlv.behind at hin
      rw [if_pos haddr] at hi
      simp only [List.mem_cons, List.not_mem_nil, or_false] at hi
      omega
    · rw [if_neg haddr] at hi
      cases hi
  · simp only [List.mem_cons, List.not_mem_nil, or_false] at hi
    omega

theorem received_eq (bytes : List UInt8) (mem : Memory) :
    ∀ i < (message bytes).length, received bytes mem i = byteOf bytes i := by
  intro i hi
  unfold received byteOf
  rw [List.getD_eq_getElem?_getD, List.getElem?_eq_getElem hi]
  rfl

/-- **The loop finds what the options say**, when it stops at the options and takes
values from whole ones only. -/
theorem optLoop_parse (hfound : Tlv.found (byteOf bytes) (message bytes).length optAt = optionsOf bytes)
    (hsound : ∀ q ∈ Tlv.steps (byteOf bytes) (message bytes).length optAt,
      Tlv.Sound (byteOf bytes) (message bytes).length want q) :
    (optLoop (received bytes mem) ((message bytes).length - 1) optAt {}).1 = parseOf bytes := by
  have hmem := received_eq bytes mem
  have hfold : ∀ (l : List Nat) (s : Parse),
      (∀ q ∈ l, q + 1 < (message bytes).length ∧ Tlv.Sound (byteOf bytes) (message bytes).length want q) →
        l.foldl (takeOption (received bytes mem)) s = l.foldl (takeOption (byteOf bytes)) s := by
    intro l
    induction l with
    | nil => exact fun s _ => rfl
    | cons q l ih =>
      intro s hl
      obtain ⟨⟨hlt, hq⟩, hl⟩ := List.forall_mem_cons.mp hl
      rw [List.foldl_cons, List.foldl_cons, takeOption_congr hmem hlt hq, ih _ hl]
  rw [optLoop_eq, Tlv.steps_congr hmem]
  dsimp only
  rw [hfold _ _ fun q hq => ⟨(Tlv.le_of_mem_steps hq).2, hsound q hq⟩]
  exact Tlv.foldl_steps (fun q hq s => takeOption_skip hq s) hfound hsound {}

-- ---------------------------------------------------------------------------
-- A try
-- ---------------------------------------------------------------------------

theorem interpret_ne {len : Int} (h : word mem xidAt ≠ xid) : interpret xid len mem nd =
    ⟨[xidAt, xidAt + 1, xidAt + 2, xidAt + 3], [], none⟩ := if_pos h

/-- The bytes that are looked at before it is known what the reply is. -/
def parseReads (mem : Memory) (stops : List Nat) : List Nat :=
  [xidAt, xidAt + 1, xidAt + 2, xidAt + 3] ++ stops.flatMap (optReads mem)

theorem interpret_eq {len : Int} {s : Parse} {stops : List Nat} (h : word mem xidAt = xid)
    (hloop : optLoop mem (len - 1) optAt {} = (s, stops)) : interpret xid len mem nd =
      if s.msgtype = DHCP_OFFER then
        ⟨parseReads mem stops ++ [yipAt, yipAt + 1, yipAt + 2, yipAt + 3], stops,
          some (store s (word mem yipAt) nd)⟩
      else if mem (optAt + 2) ≠ DHCP_ACK then
        ⟨parseReads mem stops ++ [optAt + 2], stops, none⟩
      else
        ⟨parseReads mem stops ++ [optAt + 2] ++ [yipAt, yipAt + 1, yipAt + 2, yipAt + 3], stops,
          some (store s (word mem yipAt) nd)⟩ := by
  unfold interpret
  rw [if_neg (not_not.mpr h), hloop]
  rfl

/-- The transaction id is always looked at. -/
theorem xid_mem_reads (xid : UInt32) (len : Int) (mem : Memory) (nd : Network) {i : Nat}
    (hlo : xidAt ≤ i) (hhi : i < xidAt + 4) : i ∈ (interpret xid len mem nd).reads := by
  have hmem : i ∈ [xidAt, xidAt + 1, xidAt + 2, xidAt + 3] := by
    simp only [List.mem_cons, List.not_mem_nil, or_false]
    omega
  by_cases hxid : word mem xidAt = xid
  · rcases hr : optLoop mem (len - 1) optAt {} with ⟨s, stops⟩
    have hparse : i ∈ parseReads mem stops := List.mem_append_left _ hmem
    rw [interpret_eq hxid hr]
    split
    · exact List.mem_append_left _ hparse
    · split
      · exact List.mem_append_left _ hparse
      · exact List.mem_append_left _ (List.mem_append_left _ hparse)
  · rw [interpret_ne hxid]
    exact hmem

/-- A message type comes from an option. -/
theorem length_of_msgtype (h : (parseOf bytes).msgtype ≠ 0) : optAt + 1 < (message bytes).length := by
  by_contra hlt
  refine h ?_
  unfold parseOf optionsOf
  rw [Tlv.options_of_not_lt hlt]
  rfl

theorem xid_word (hlen : xidAt + 4 ≤ (message bytes).length) :
    word (received bytes mem) xidAt = word (byteOf bytes) xidAt :=
  word_congr (received_eq bytes mem) hlen

/-- A reply to another request is skipped. -/
theorem data_ne (hlen : xidAt + 4 ≤ (message bytes).length)
    (h : word (byteOf bytes) xidAt ≠ xid) : Right xid (.data bytes) nd (attempt xid (.data bytes) mem nd) := by
  have hmem : word (received bytes mem) xidAt ≠ xid := by
    rw [xid_word hlen]
    exact h
  unfold attempt
  dsimp only
  rw [interpret_ne hmem]
  refine ⟨fun i hi => ?_, fun heq => absurd heq h, nofun, ?_⟩
  · simp only [List.mem_cons, List.not_mem_nil, or_false] at hi
    omega
  · unfold promised
    rw [if_neg fun hand => h hand.1]

theorem parseReads_inside {stops : List Nat} (hlen : xidAt + 4 ≤ (message bytes).length)
    (hstops : ∀ p ∈ stops, p + 1 < (message bytes).length ∧
      Tlv.Sound (byteOf bytes) (message bytes).length want p) :
    ∀ i ∈ parseReads (received bytes mem) stops, i < (message bytes).length := by
  intro i hi
  unfold parseReads at hi
  rcases List.mem_append.mp hi with hi | hi
  · simp only [List.mem_cons, List.not_mem_nil, or_false] at hi
    omega
  · obtain ⟨p, hp, hi⟩ := List.mem_flatMap.mp hi
    obtain ⟨hlt, hsound⟩ := hstops p hp
    exact optReads_inside (received_eq bytes mem) hlt hsound hi

theorem yip_inside (h : optAt + 1 < (message bytes).length) :
    ∀ i ∈ [yipAt, yipAt + 1, yipAt + 2, yipAt + 3], i < (message bytes).length := by
  intro i hi
  simp only [List.mem_cons, List.not_mem_nil, or_false] at hi
  have hle : yipAt + 4 ≤ optAt := by decide
  omega

theorem yip_word (h : optAt + 1 < (message bytes).length) :
    word (received bytes mem) yipAt = word (byteOf bytes) yipAt := by
  have hle : yipAt + 4 ≤ optAt := by decide
  exact word_congr (received_eq bytes mem) (by omega)

theorem promised_offer (h : word (byteOf bytes) xidAt = xid)
    (hoffer : (parseOf bytes).msgtype = DHCP_OFFER) : promised xid bytes nd =
      some (store (parseOf bytes) (word (byteOf bytes) yipAt) nd) :=
  if_pos ⟨h, Or.inl hoffer⟩

theorem promised_ack (h : word (byteOf bytes) xidAt = xid)
    (hack : (parseOf bytes).msgtype = DHCP_ACK) : promised xid bytes nd =
      some (store (parseOf bytes) (word (byteOf bytes) yipAt) nd) :=
  if_pos ⟨h, Or.inr hack⟩

/-- What becomes of a reply whose options have been found. -/
theorem stored_iff {stops : List Nat} (hlen : xidAt + 4 ≤ (message bytes).length)
    (h : word (byteOf bytes) xidAt = xid)
    (hstops : ∀ p ∈ stops, p + 1 < (message bytes).length ∧
      Tlv.Sound (byteOf bytes) (message bytes).length want p)
    (hloop : optLoop (received bytes mem) ((message bytes).length - 1) optAt {} =
      (parseOf bytes, stops)) :
    let r := interpret xid (message bytes).length (received bytes mem) nd
    (∀ i ∈ r.reads, i < (message bytes).length) ∧ r.stored = promised xid bytes nd ↔
      (parseOf bytes).msgtype = DHCP_OFFER ∨
        optAt + 2 < (message bytes).length ∧
          (byteOf bytes (optAt + 2) = DHCP_ACK ↔ (parseOf bytes).msgtype = DHCP_ACK) := by
  have hparse : ∀ i ∈ parseReads (received bytes mem) stops, i < (message bytes).length :=
    parseReads_inside hlen hstops
  have hmem : word (received bytes mem) xidAt = xid := by
    rw [xid_word hlen]
    exact h
  dsimp only
  rw [interpret_eq hmem hloop]
  by_cases hoffer : (parseOf bytes).msgtype = DHCP_OFFER
  · -- an offer says so in an option, which lies behind the address
    have hopt : optAt + 1 < (message bytes).length := length_of_msgtype (by rw [hoffer]; decide)
    rw [if_pos hoffer, promised_offer h hoffer, yip_word hopt]
    exact iff_of_true ⟨List.forall_mem_append.mpr ⟨hparse, yip_inside hopt⟩, rfl⟩ (Or.inl hoffer)
  rw [if_neg hoffer, or_iff_right hoffer]
  by_cases hin : optAt + 2 < (message bytes).length
  · rw [and_iff_right hin, received_eq bytes mem _ hin]
    have hread : ∀ i ∈ parseReads (received bytes mem) stops ++ [optAt + 2],
        i < (message bytes).length :=
      List.forall_mem_append.mpr ⟨hparse, List.forall_mem_singleton.mpr hin⟩
    have hopt : optAt + 1 < (message bytes).length := by omega
    by_cases hack : (parseOf bytes).msgtype = DHCP_ACK
    · rw [promised_ack h hack]
      by_cases hthird : byteOf bytes (optAt + 2) = DHCP_ACK
      · rw [if_neg (not_not.mpr hthird), yip_word hopt]
        exact iff_of_true ⟨List.forall_mem_append.mpr ⟨hread, yip_inside hopt⟩, rfl⟩
          (iff_of_true hthird hack)
      · rw [if_pos hthird]
        exact iff_of_false (fun hand => nomatch hand.2) fun hiff => hthird (hiff.mpr hack)
    · have hnone : promised xid bytes nd = none :=
        if_neg fun hand => hand.2.elim hoffer hack
      rw [hnone]
      by_cases hthird : byteOf bytes (optAt + 2) = DHCP_ACK
      · rw [if_neg (not_not.mpr hthird)]
        exact iff_of_false (fun hand => nomatch hand.2) fun hiff => hack (hiff.mp hthird)
      · rw [if_pos hthird]
        exact iff_of_true ⟨hread, rfl⟩ (iff_of_false hthird hack)
  · -- the third byte is read behind the message
    refine iff_of_false (fun hand => hin (hand.1 (optAt + 2) ?_)) fun hand => hin hand.1
    split
    · exact List.mem_append_right _ List.mem_cons_self
    · exact List.mem_append_left _ (List.mem_append_right _ List.mem_cons_self)

theorem interpret_stops {len : Int} {s : Parse} {stops : List Nat} (h : word mem xidAt = xid)
    (hloop : optLoop mem (len - 1) optAt {} = (s, stops)) :
    (interpret xid len mem nd).stops = stops := by
  rw [interpret_eq h hloop]
  split
  · rfl
  · split
    · rfl
    · rfl

/-- A reply to the request. -/
theorem data_eq (hlen : xidAt + 4 ≤ (message bytes).length)
    (h : word (byteOf bytes) xidAt = xid) :
    Right xid (.data bytes) nd (attempt xid (.data bytes) mem nd) ↔
      Tlv.Agree (byteOf bytes) (message bytes).length want optAt ∧
        ((parseOf bytes).msgtype = DHCP_OFFER ∨
          optAt + 2 < (message bytes).length ∧
            (byteOf bytes (optAt + 2) = DHCP_ACK ↔ (parseOf bytes).msgtype = DHCP_ACK)) := by
  have hmem : word (received bytes mem) xidAt = xid := by
    rw [xid_word hlen]
    exact h
  rcases hloop : optLoop (received bytes mem) ((message bytes).length - 1) optAt {} with ⟨s, stops⟩
  have hstops : stops = Tlv.steps (byteOf bytes) (message bytes).length optAt := by
    have hsnd := congrArg Prod.snd hloop
    rw [optLoop_eq, Tlv.steps_congr (received_eq bytes mem)] at hsnd
    exact hsnd.symm
  have hagree : Tlv.Agree (byteOf bytes) (message bytes).length want optAt ↔ _ :=
    Tlv.agree_iff optAt
  change (_ ∧ _ ∧ _ ∧ _) ↔ _
  dsimp only [attempt]
  rw [interpret_stops hmem hloop, forall_prop_of_true h, hagree, hstops]
  constructor
  · rintro ⟨hreads, hfound, hsound, hstored⟩
    have hpair : s = parseOf bytes := by
      rw [← optLoop_parse hfound hsound, hloop]
    rw [hpair] at hloop
    refine ⟨⟨hfound, hsound⟩, (stored_iff hlen h (fun p hp => ?_) hloop).mp ⟨hreads, hstored⟩⟩
    rw [hstops] at hp
    exact ⟨(Tlv.le_of_mem_steps hp).2, hsound p hp⟩
  · rintro ⟨⟨hfound, hsound⟩, htype⟩
    have hpair : s = parseOf bytes := by
      rw [← optLoop_parse hfound hsound, hloop]
    rw [hpair] at hloop
    have hinside : ∀ p ∈ stops, p + 1 < (message bytes).length ∧
        Tlv.Sound (byteOf bytes) (message bytes).length want p := by
      intro p hp
      rw [hstops] at hp
      exact ⟨(Tlv.le_of_mem_steps hp).2, hsound p hp⟩
    obtain ⟨hreads, hstored⟩ := (stored_iff hlen h hinside hloop).mpr htype
    exact ⟨hreads, hfound, hsound, hstored⟩

/-- **A try understands its reply exactly when the reply is plain**. -/
theorem attempt_right_iff (xid : UInt32) (reply : Recv) (mem : Memory) (nd : Network) :
    Right xid reply nd (attempt xid reply mem nd) ↔ Plain xid reply := by
  cases reply with
  | timeout => exact iff_of_true ⟨rfl, rfl⟩ trivial
  | error =>
    -- the old bytes are looked at
    refine iff_of_false (fun h => ?_) id
    have hread := xid_mem_reads xid SYSERR mem nd (i := xidAt) (le_refl _) (by omega)
    change _ ∈ (attempt xid .error mem nd).reads at hread
    rw [h.1] at hread
    cases hread
  | data bytes =>
    by_cases hlen : xidAt + 4 ≤ (message bytes).length
    · change _ ↔ _ ∧ _
      rw [and_iff_right hlen]
      by_cases h : word (byteOf bytes) xidAt = xid
      · rw [forall_prop_of_true h]
        exact data_eq hlen h
      · exact iff_of_true (data_ne hlen h) fun heq => absurd heq h
    · refine iff_of_false (fun hright => ?_) fun hplain => hlen hplain.1
      have hread := hright.1 (xidAt + 3)
        (xid_mem_reads xid (message bytes).length (received bytes mem) nd (by omega) (by omega))
      omega

/-- A first offer of 10.0.2.15 behind a pad. -/
def offer : List UInt8 :=
  List.replicate 4 0 ++ [1, 2, 3, 4] ++ List.replicate 8 0 ++ [10, 0, 2, 15] ++
    List.replicate 220 0 ++ [0, 53, 1, 2, 255]

/-- The pad is taken for an option, and the offer is not seen. -/
theorem attempt_not_right : ¬Right 0x04030201 (.data offer) ⟨0, 0, 0, false, [1, 2, 3, 4, 5, 6]⟩
    (attempt 0x04030201 (.data offer) (fun _ => 0) ⟨0, 0, 0, false, [1, 2, 3, 4, 5, 6]⟩) := by
  intro h
  have hstored := h.2.2.2
  revert hstored
  decide +kernel

-- ---------------------------------------------------------------------------
-- The tries
-- ---------------------------------------------------------------------------

/-- What a reply should store. -/
def promise (xid : UInt32) (nd : Network) : Recv → Option Network
  | .data bytes => promised xid bytes nd
  | _ => none

theorem Right.stored {reply : Recv} {r : Attempt} (h : Right xid reply nd r) :
    r.stored = promise xid nd reply := by
  cases reply with
  | timeout => exact h.2
  | error => exact h.2
  | data bytes => exact h.2.2.2

/-- Among understood replies the first one that promises an address gives it. -/
theorem tries_right {replies : List Recv}
    (h : ∀ reply ∈ replies, ∀ mem, Right xid reply nd (attempt xid reply mem nd)) (mem : Memory) :
    tries xid replies mem nd =
      ((replies.findSome? (promise xid nd)).map fun nd => (nd.ipaddr, nd)).getD (0xFFFFFFFF, nd) := by
  induction replies generalizing mem with
  | nil => rfl
  | cons reply replies ih =>
    obtain ⟨hreply, hreplies⟩ := List.forall_mem_cons.mp h
    have hstored := (hreply mem).stored
    unfold tries
    rw [hstored]
    cases hp : promise xid nd reply with
    | none =>
      rw [List.findSome?_cons_of_isNone (by rw [hp]; rfl)]
      exact ih hreplies (afterwards reply mem)
    | some nd' =>
      rw [List.findSome?_cons_of_isSome (by rw [hp]; rfl), hp]
      rfl

/-- An address is kept; otherwise, of three understood replies, the first one that promises
an address gives it. -/
theorem getlocalip_right {replies : Nat → Recv} {mem : Memory} (hnd : nd.ipvalid = false)
    (h : ∀ i < 3, ∀ mem, Right (xidOf nd) (replies i) nd (attempt (xidOf nd) (replies i) mem nd)) :
    getlocalip replies mem nd =
      ((((List.range 3).map replies).findSome? (promise (xidOf nd) nd)).map fun nd =>
        (nd.ipaddr, nd)).getD (0xFFFFFFFF, nd) := by
  unfold getlocalip
  rw [if_neg (by rw [hnd]; exact Bool.false_ne_true)]
  refine tries_right (fun reply hreply => ?_) mem
  obtain ⟨i, hi, rfl⟩ := List.mem_map.mp hreply
  exact h i (List.mem_range.mp hi)

end Xinu.Net.Dhcp
