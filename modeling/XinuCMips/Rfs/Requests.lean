import Mathlib.Data.List.TakeWhile
import XinuCMips.Rfs.Read

/-!
# Requests for remote files

Every request is laid out over whatever lies on the stack: a header, the name of the
file up to its null character, and the fields of the request. `rflWrite` has the loop
that copies the name twice, and the second time it goes on behind the null character.

* `says_of_prefix`          — what a request says, read back from its bytes;
* `rreq_means`, `wreq_means`  — the requests to read and to write;
* `oreq_means`, `hdrReq_means`, `sreq_means` — those of the master device;
* `Rflcblk.Sound.copy_ends` — the second copy of the name stays in front of the data.
-/

namespace Xinu.Rfs

open Bytes Net

def RF_MODE_W : UInt32 := 2
def RF_MODE_RW : UInt32 := 3
def RF_MSG_WREQ : UInt16 := 2
def RF_MSG_OREQ : UInt16 := 3
def RF_MSG_DREQ : UInt16 := 4
def RF_MSG_TREQ : UInt16 := 5
def RF_MSG_SREQ : UInt16 := 6
def RF_MSG_MREQ : UInt16 := 7
def RF_MSG_XREQ : UInt16 := 8

/-- The offset of `rf_pos`, and of `rf_mode` and `rf_size`. -/
def posAt : Nat := HDR_LEN + RF_NAMLEN

/-- The sizes of `struct rf_msg_wreq`, `rf_msg_wres`, `rf_msg_hdr`, `rf_msg_ores` and
`rf_msg_sres`. -/
def wreqSize : Nat := dataAt + RF_DATALEN
def wresSize : Nat := dataAt
def hdrSize : Nat := posAt
def oresSize : Nat := posAt + 4
def sresSize : Nat := posAt + 4

-- ---------------------------------------------------------------------------
-- Requests
-- ---------------------------------------------------------------------------

/-- The string that starts at a place in memory. -/
def chars (mem : List UInt8) : List UInt8 := mem.takeWhile (· ≠ 0)

/-- `while ((*to++ = *from++))`: the characters that are copied. -/
def copied (mem : List UInt8) : List UInt8 := chars mem ++ [0]

/-- What a message says. -/
def nameOf (m : List UInt8) : List UInt8 := chars (slice HDR_LEN RF_NAMLEN m)
def posOf (m : List UInt8) : Nat := ofLe (slice posAt 4 m)
def dataOf (m : List UInt8) : List UInt8 := slice dataAt (rfLen m) m

/-- `rf_type`, `rf_status` and `rf_seq`, which `rfscomm` sets. -/
def header (mtype : UInt16) (seq : UInt32) : List UInt8 :=
  leBytes 2 mtype.toNat ++ leBytes 2 0 ++ leBytes 4 seq.toNat

/-- The name in a message whose name field is cleared first. -/
def nameField (name : List UInt8) : List UInt8 :=
  splice 0 (copied name) (List.replicate RF_NAMLEN 0)

/-- The request of `rflRead`. -/
def rreq (rfptr : Rflcblk) (count : Int) (seq : UInt32) : List UInt8 :=
  header RF_MSG_RREQ seq ++ nameField rfptr.rfname ++ leBytes 4 rfptr.rfpos.toNat ++
    leBytes 4 count.toNat

/-- The memory from the name of a control block on. -/
def Rflcblk.memory (rfptr : Rflcblk) (beyond : List UInt8) : List UInt8 :=
  rfptr.rfname ++ leBytes 4 rfptr.rfpos.toNat ++ leBytes 4 rfptr.rfmode.toNat ++ beyond

/-- The request of `rflWrite`. When the name has been copied, the loop that copies it is
there once more: it goes on behind the name, in memory and in the message. -/
def wreq (rfptr : Rflcblk) (beyond stack buff : List UInt8) (count : Int) (seq : UInt32) :
    List UInt8 :=
  let len := (chars rfptr.rfname).length
  let msg := splice 0 (header RF_MSG_WREQ seq ++ nameField rfptr.rfname) stack
  let msg := splice (HDR_LEN + (len + 1)) (copied ((rfptr.memory beyond).drop (len + 1))) msg
  let data := buff.take count.toNat
  splice posAt (leBytes 4 rfptr.rfpos.toNat ++ leBytes 4 count.toNat ++ data ++
    List.replicate (RF_DATALEN - data.length) 0) msg

/-- The request of `rfsOpen`. -/
def oreq (name : List UInt8) (mode : UInt32) (seq : UInt32) : List UInt8 :=
  header RF_MSG_OREQ seq ++ nameField name ++ leBytes 4 mode.toNat

/-- The request of `rfsndmsg`, which does not clear the name first. -/
def hdrReq (mtype : UInt16) (name : List UInt8) (stack : List UInt8) (seq : UInt32) : List UInt8 :=
  splice 0 (header mtype seq ++ copied name) stack

/-- The size request of `rfsControl`. -/
def sreq (rfptr : Rflcblk) (seq : UInt32) : List UInt8 :=
  header RF_MSG_SREQ seq ++ nameField rfptr.rfname

-- ---------------------------------------------------------------------------
-- What a request says
-- ---------------------------------------------------------------------------

/-- The request names its type, its number and the file. -/
structure Says (mtype : UInt16) (seq : UInt32) (name m : List UInt8) : Prop where
  full : HDR_LEN ≤ m.length
  type : typeOf m = mtype.toNat
  seq : seqOf m = seq.toNat
  name : nameOf m = name

variable {mtype : UInt16} {seq : UInt32} {name mem a b m p new stack : List UInt8} {o n i : Nat}

theorem slice_append_left (h : a.length = n) : slice 0 n (a ++ b) = a := by
  unfold slice
  rw [List.drop_zero, List.take_left' h]

theorem slice_append_right (h : a.length ≤ o) : slice o n (a ++ b) = slice (o - a.length) n b := by
  unfold slice
  rw [List.drop_append, List.drop_eq_nil_of_le h, List.nil_append]

theorem chars_append (h : ∀ ch ∈ a, ch ≠ 0) : chars (a ++ 0 :: b) = a := by
  unfold chars
  rw [List.takeWhile_append_of_pos fun ch hch => decide_eq_true (h ch hch),
    List.takeWhile_cons_of_neg (by decide), List.append_nil]

theorem chars_ne_zero : ∀ ch ∈ chars mem, ch ≠ 0 := by
  intro ch hch
  have h := List.mem_takeWhile_imp hch
  exact of_decide_eq_true h

theorem chars_length_le (h : mem[i]? = some 0) : (chars mem).length ≤ i := by
  by_contra hlt
  have hi : i < (chars mem).length := by omega
  obtain ⟨hlt', hzero⟩ := List.getElem?_eq_some_iff.mp h
  have hget : (chars mem)[i] = mem[i] := (List.takeWhile_prefix _).getElem hi
  exact chars_ne_zero _ (List.getElem_mem hi) (hget.trans hzero)

/-- What is copied into a cleared field begins it. -/
theorem copied_prefix_nameField : copied name <+: nameField name := by
  unfold nameField splice
  rw [List.take_zero, List.nil_append]
  exact List.prefix_append _ _

theorem nameField_length (h : (chars name).length < RF_NAMLEN) :
    (nameField name).length = RF_NAMLEN := by
  have hlen : (copied name).length = (chars name).length + 1 := List.length_append
  unfold nameField
  rw [length_splice (by rw [hlen, List.length_replicate]; omega), List.length_replicate]

/-- What is written behind a prefix leaves it. -/
theorem prefix_splice (h : p <+: m) (ho : p.length ≤ o) : p <+: splice o new m := by
  unfold splice
  rw [List.append_assoc]
  exact (List.prefix_take_iff.mpr ⟨h, ho⟩).trans (List.prefix_append _ _)

theorem header_length : (header mtype seq).length = HDR_LEN := by
  unfold header
  rw [List.length_append, List.length_append, length_leBytes, length_leBytes, length_leBytes]
  rfl

/-- **A request is read back** from the header and the name at its beginning. -/
theorem says_of_prefix (hname : (chars name).length < RF_NAMLEN)
    (h : header mtype seq ++ copied name <+: m) : Says mtype seq (chars name) m := by
  obtain ⟨rest, rfl⟩ := h
  have htype : mtype.toNat < 256 ^ 2 := mtype.toNat_lt
  have hseq : seq.toNat < 256 ^ 4 := seq.toNat_lt
  have hlen : (leBytes 2 mtype.toNat).length = 2 := length_leBytes _ _
  have hlen' : (leBytes 2 mtype.toNat ++ leBytes 2 0).length = 4 := by
    rw [List.length_append, hlen, length_leBytes]
  refine ⟨?_, ?_, ?_, ?_⟩
  · rw [List.length_append, List.length_append, header_length]
    omega
  · unfold typeOf header
    rw [List.append_assoc, List.append_assoc, List.append_assoc, slice_append_left hlen,
      ofLe_leBytes htype]
  · unfold seqOf header
    rw [List.append_assoc, List.append_assoc, slice_append_right (by omega), hlen',
      slice_append_left (length_leBytes _ _), ofLe_leBytes hseq]
  · unfold nameOf
    rw [List.append_assoc, slice_append_right (by rw [header_length]), header_length, Nat.sub_self]
    unfold slice copied
    rw [List.drop_zero, List.append_assoc, List.take_append, List.take_of_length_le hname.le]
    obtain ⟨k, hk⟩ : ∃ k, RF_NAMLEN - (chars name).length = k + 1 :=
      Nat.exists_eq_add_one_of_ne_zero (by omega)
    rw [hk]
    exact chars_append chars_ne_zero

-- ---------------------------------------------------------------------------
-- Reading
-- ---------------------------------------------------------------------------

variable {rfptr : Rflcblk} {beyond buff : List UInt8} {count : Int}

/-- A name that `rflRead` copies to its end. -/
theorem chars_length_lt (h : nameFits name) : (chars name).length < RF_NAMLEN := by
  obtain ⟨i, hi⟩ := List.mem_iff_getElem?.mp h
  rw [List.getElem?_take] at hi
  by_cases hlt : i < RF_NAMLEN
  · rw [if_pos hlt] at hi
    exact lt_of_le_of_lt (chars_length_le hi) hlt
  · rw [if_neg hlt] at hi
    cases hi

/-- The position and the length, read back from where the name ends. -/
theorem posOf_append {pos : Nat} (ha : a.length = posAt) (hpos : pos < 2 ^ 32) :
    posOf (a ++ (leBytes 4 pos ++ b)) = pos := by
  unfold posOf
  rw [slice_append_right ha.le, ha, Nat.sub_self, slice_append_left (length_leBytes _ _),
    ofLe_leBytes hpos]

theorem rfLen_append {pos len : Nat} (ha : a.length = posAt) (hlen : len < 2 ^ 32) :
    rfLen (a ++ (leBytes 4 pos ++ (leBytes 4 len ++ b))) = len := by
  have hlenAt : lenAt = posAt + 4 := rfl
  have hfour : lenAt - posAt = 4 := rfl
  have hpos := length_leBytes 4 pos
  unfold rfLen
  rw [slice_append_right (by omega), ha, hfour, slice_append_right hpos.le, hpos, Nat.sub_self,
    slice_append_left (length_leBytes _ _), ofLe_leBytes hlen]

theorem front_length (mtype : UInt16) (seq : UInt32) (h : nameFits name) :
    (header mtype seq ++ nameField name).length = posAt := by
  rw [List.length_append, header_length, nameField_length (chars_length_lt h)]
  rfl

theorem front_means (h : nameFits name) (hm : header mtype seq ++ nameField name <+: m) :
    Says mtype seq (chars name) m := by
  refine says_of_prefix (chars_length_lt h) (List.IsPrefix.trans ?_ hm)
  exact (List.prefix_append_right_inj _).mpr copied_prefix_nameField

/-- **The request to read** says what it should. -/
theorem rreq_means (seq : UInt32) (h : Asks count rfptr) :
    Says RF_MSG_RREQ seq (chars rfptr.rfname) (rreq rfptr count seq) ∧
      posOf (rreq rfptr count seq) = rfptr.rfpos.toNat ∧
      (rfLen (rreq rfptr count seq) : Int) = count := by
  have hfront := front_length RF_MSG_RREQ seq h.name
  have hcount := h.count
  have hmax : RF_DATALEN = 1024 := rfl
  have heq : rreq rfptr count seq = (header RF_MSG_RREQ seq ++ nameField rfptr.rfname) ++
      (leBytes 4 rfptr.rfpos.toNat ++ (leBytes 4 count.toNat ++ [])) := by
    unfold rreq
    rw [List.append_nil, List.append_assoc]
  rw [heq]
  refine ⟨front_means h.name (List.prefix_append _ _), posOf_append hfront rfptr.rfpos.toNat_lt, ?_⟩
  rw [rfLen_append hfront (by omega)]
  omega

-- ---------------------------------------------------------------------------
-- Writing
-- ---------------------------------------------------------------------------

/-- What the calls keep of a control block: the name has its place, and the mode is one
that `rfsgetmode` gives; a file that is in use has a name that ends, and is open for
something. -/
structure Rflcblk.Sound (rfptr : Rflcblk) : Prop where
  place : rfptr.rfname.length = RF_NAMLEN
  mode : rfptr.used = true → rfptr.rfmode.toNat < 16 ∧ rfptr.rfmode &&& RF_MODE_RW ≠ 0
  name : rfptr.used = true → nameFits rfptr.rfname ∧ chars rfptr.rfname ≠ []

/-- **The second copy ends in front of the data**: behind the name, the position and
the mode in memory is a null character at the latest, the last byte of the mode. -/
theorem Rflcblk.Sound.copy_ends (h : rfptr.Sound) (hused : rfptr.used = true)
    (beyond : List UInt8) :
    HDR_LEN + ((chars rfptr.rfname).length + 1) +
      (copied ((rfptr.memory beyond).drop ((chars rfptr.rfname).length + 1))).length ≤ dataAt := by
  obtain ⟨hmode, -⟩ := h.mode hused
  obtain ⟨hname, -⟩ := h.name hused
  have hlen := chars_length_lt hname
  have hplace := h.place
  have hmax : RF_NAMLEN = 128 := rfl
  have hdata : dataAt = HDR_LEN + 136 := rfl
  have hlast : (rfptr.memory beyond)[135]? = some 0 := by
    have hzero : (leBytes 4 rfptr.rfmode.toNat)[3]? = some 0 := by
      have hsmall : rfptr.rfmode.toNat / 256 / 256 / 256 % 256 = 0 := by omega
      simp [leBytes, hsmall]
    unfold Rflcblk.memory
    rw [List.append_assoc, List.append_assoc, List.getElem?_append_right (by omega), hplace,
      List.getElem?_append_right (by rw [length_leBytes]; omega), length_leBytes,
      List.getElem?_append_left (by rw [length_leBytes]; omega)]
    exact hzero
  have hchars : (chars ((rfptr.memory beyond).drop ((chars rfptr.rfname).length + 1))).length ≤
      135 - ((chars rfptr.rfname).length + 1) := by
    refine chars_length_le ?_
    rw [List.getElem?_drop, Nat.add_sub_cancel' (by omega)]
    exact hlast
  unfold copied
  rw [List.length_append, List.length_singleton]
  omega

/-- What `rflWrite` asks of its arguments. -/
structure AsksWrite (count : Int) (rfptr : Rflcblk) : Prop where
  count : 0 < count ∧ count ≤ RF_DATALEN
  used : rfptr.used = true
  mode : rfptr.rfmode &&& RF_MODE_W ≠ 0
  name : nameFits rfptr.rfname

/-- **The request to write** says what it should, and fills its structure. -/
theorem wreq_means (beyond : List UInt8) (seq : UInt32) (hs : rfptr.Sound)
    (h : AsksWrite count rfptr) (hbuff : count ≤ buff.length) (hstack : stack.length = wreqSize) :
    let m := wreq rfptr beyond stack buff count seq
    m.length = wreqSize ∧ Says RF_MSG_WREQ seq (chars rfptr.rfname) m ∧
      posOf m = rfptr.rfpos.toNat ∧ (rfLen m : Int) = count ∧ dataOf m = buff.take count.toNat := by
  obtain ⟨hpos, hmax⟩ := h.count
  have hfront := front_length RF_MSG_WREQ seq h.name
  have hends := hs.copy_ends h.used beyond
  have hlimit : RF_DATALEN = 1024 := rfl
  have hsize : wreqSize = dataAt + RF_DATALEN := rfl
  have hat : dataAt = posAt + 8 := rfl
  have hdata : (buff.take count.toNat).length = count.toNat := by
    rw [List.length_take]
    omega
  unfold wreq
  dsimp only
  set front := header RF_MSG_WREQ seq ++ nameField rfptr.rfname with hfr
  set len := (chars rfptr.rfname).length with hln
  have hmsg₁ : (splice 0 front stack).length = wreqSize := by
    rw [length_splice (by omega), hstack]
  set msg := splice (HDR_LEN + (len + 1)) (copied ((rfptr.memory beyond).drop (len + 1)))
    (splice 0 front stack) with hmsg
  have hmsg₂ : msg.length = wreqSize := by
    rw [hmsg, length_splice (by omega), hmsg₁]
  have htake : (msg.take posAt).length = posAt := by
    rw [List.length_take]
    omega
  set data := buff.take count.toNat with hd
  have hfields : (leBytes 4 rfptr.rfpos.toNat ++ leBytes 4 count.toNat ++ data ++
      List.replicate (RF_DATALEN - data.length) 0).length = wreqSize - posAt := by
    simp only [List.length_append, length_leBytes, List.length_replicate]
    omega
  -- the fields behind the name
  obtain ⟨rest, hrest⟩ : ∃ rest, splice posAt (leBytes 4 rfptr.rfpos.toNat ++
      leBytes 4 count.toNat ++ data ++ List.replicate (RF_DATALEN - data.length) 0) msg =
      msg.take posAt ++ (leBytes 4 rfptr.rfpos.toNat ++ (leBytes 4 count.toNat ++
        (data ++ rest))) := by
    unfold splice
    exact ⟨_, by simp only [List.append_assoc]; rfl⟩
  have hname : header RF_MSG_WREQ seq ++ copied rfptr.rfname <+: msg := by
    have hlen : (header RF_MSG_WREQ seq ++ copied rfptr.rfname).length = HDR_LEN + (len + 1) := by
      unfold copied
      rw [List.length_append, header_length, List.length_append, List.length_singleton]
    refine prefix_splice ?_ hlen.le
    unfold splice
    rw [List.take_zero, List.nil_append]
    exact ((List.prefix_append_right_inj _).mpr copied_prefix_nameField).trans
      (List.prefix_append _ _)
  have hposlen := length_leBytes 4 rfptr.rfpos.toNat
  have hcountlen := length_leBytes 4 count.toNat
  have hlenof : rfLen (msg.take posAt ++ (leBytes 4 rfptr.rfpos.toNat ++
      (leBytes 4 count.toNat ++ (data ++ rest)))) = count.toNat := rfLen_append htake (by omega)
  refine ⟨?_, says_of_prefix (chars_length_lt h.name) (prefix_splice hname ?_), ?_, ?_, ?_⟩
  · rw [length_splice (by omega), hmsg₂]
  · have hlen := chars_length_lt h.name
    have hposAt : posAt = HDR_LEN + RF_NAMLEN := rfl
    unfold copied
    rw [List.length_append, header_length, List.length_append, List.length_singleton]
    omega
  · rw [hrest]
    exact posOf_append htake rfptr.rfpos.toNat_lt
  · rw [hrest, hlenof]
    omega
  · have height : dataAt - posAt = 8 := rfl
    unfold dataOf
    rw [hrest, hlenof, slice_append_right (by omega), htake, height,
      slice_append_right (by omega), hposlen, slice_append_right (by omega), hcountlen,
      slice_append_left hdata]

-- ---------------------------------------------------------------------------
-- The master device
-- ---------------------------------------------------------------------------

theorem oreq_means (seq mode : UInt32) (h : (chars name).length < RF_NAMLEN) :
    Says RF_MSG_OREQ seq (chars name) (oreq name mode seq) := by
  refine says_of_prefix h ?_
  unfold oreq
  exact ((List.prefix_append_right_inj _).mpr copied_prefix_nameField).trans
    (List.prefix_append _ _)

theorem hdrReq_means (h : (chars name).length < RF_NAMLEN) :
    Says mtype seq (chars name) (hdrReq mtype name stack seq) := by
  refine says_of_prefix h ?_
  unfold hdrReq splice
  rw [List.take_zero, List.nil_append]
  exact List.prefix_append _ _

theorem sreq_means (h : (chars rfptr.rfname).length < RF_NAMLEN) :
    Says RF_MSG_SREQ seq (chars rfptr.rfname) (sreq rfptr seq) :=
  says_of_prefix h ((List.prefix_append_right_inj _).mpr copied_prefix_nameField)

end Xinu.Rfs
