import XinuCMips.Rfs.Files

/-!
# The server of the remote files

The server is no part of the repository. What `rfilesys.h` says of it is a `Server`: it
answers a request with the number of the request, it gives the bytes of a file that it
is asked for, or writes those that it is given, and a request to write that it has
served it may serve again, with nothing new.

* `plain` — a server over files in memory.
-/

namespace Xinu.Rfs

open Bytes Net

-- ---------------------------------------------------------------------------
-- The server
-- ---------------------------------------------------------------------------

/-- A server of remote files. -/
structure Server (σ : Type) where
  /-- The answer to a message, and what becomes of the files. -/
  serve : List UInt8 → σ → σ × List UInt8
  /-- So many bytes of a file from a position on, unless the server refuses. -/
  read : List UInt8 → Nat → Nat → σ → Option (List UInt8)
  /-- The files with bytes written to one from a position on. -/
  write : List UInt8 → Nat → List UInt8 → σ → Option σ
  answers : ∀ m s, HDR_LEN ≤ m.length →
    HDR_LEN ≤ (serve m s).2.length ∧ seqOf (serve m s).2 = seqOf m ∧
      typeOf (serve m s).2 = typeOf m ||| MSG_RESPONSE
  reads : ∀ m s, HDR_LEN ≤ m.length → typeOf m = RF_MSG_RREQ.toNat →
    (serve m s).1 = s ∧
      match read (nameOf m) (posOf m) (rfLen m) s with
      | none => statusOf (serve m s).2 ≠ 0
      | some data => data.length ≤ rfLen m ∧ statusOf (serve m s).2 = 0 ∧
        rfLen (serve m s).2 = data.length ∧ dataOf (serve m s).2 = data ∧
        dataAt + data.length ≤ (serve m s).2.length
  writes : ∀ m s, HDR_LEN ≤ m.length → typeOf m = RF_MSG_WREQ.toNat →
    match write (nameOf m) (posOf m) (dataOf m) s with
    | none => (serve m s).1 = s ∧ statusOf (serve m s).2 ≠ 0
    | some s' => (serve m s).1 = s' ∧ statusOf (serve m s).2 = 0 ∧
      rfLen (serve m s).2 = (dataOf m).length ∧ dataAt ≤ (serve m s).2.length
  /-- What has been written may be written again, and is there already. -/
  again : ∀ name pos data s s', write name pos data s = some s' →
    write name pos data s' = some s'

-- ---------------------------------------------------------------------------
-- A server
-- ---------------------------------------------------------------------------

/-- Files by their names. -/
abbrev Named := List UInt8 → Option (List UInt8)

/-- A reply in the layout of `struct rf_msg_rres` and `struct rf_msg_wres`. -/
def answer (m : List UInt8) (status len : Nat) (data : List UInt8) : List UInt8 :=
  leBytes 2 (typeOf m ||| MSG_RESPONSE) ++ leBytes 2 status ++ leBytes 4 (seqOf m) ++
    splice 0 (slice HDR_LEN RF_NAMLEN m) (List.replicate RF_NAMLEN 0) ++
    leBytes 4 (posOf m) ++ leBytes 4 len ++ data

/-- Bytes written from a position on; what lies between the end of the file and the
position becomes zero. -/
def overwrite (pos : Nat) (data content : List UInt8) : List UInt8 :=
  splice pos data (content ++ List.replicate (pos - content.length) 0)

def Named.read (name : List UInt8) (pos len : Nat) (s : Named) : Option (List UInt8) :=
  (s name).map fun content => (content.drop pos).take len

def Named.write (name : List UInt8) (pos : Nat) (data : List UInt8) (s : Named) : Option Named :=
  (s name).map fun content => Function.update s name (some (overwrite pos data content))

def Named.serve (m : List UInt8) (s : Named) : Named × List UInt8 :=
  if typeOf m = RF_MSG_RREQ.toNat then
    match s.read (nameOf m) (posOf m) (rfLen m) with
    | none => (s, answer m 1 0 [])
    | some data => (s, answer m 0 data.length data)
  else if typeOf m = RF_MSG_WREQ.toNat then
    match s.write (nameOf m) (posOf m) (dataOf m) with
    | none => (s, answer m 1 0 [])
    | some s' => (s', answer m 0 (dataOf m).length [])
  else (s, answer m (if (s (nameOf m)).isSome then 0 else 1) 0 [])

variable {m data content name : List UInt8} {status len pos : Nat} {s s' : Named}

theorem seqOf_lt (m : List UInt8) : seqOf m < 2 ^ 32 := by
  have hlt := ofLe_lt (slice 4 4 m)
  have hlen : (slice 4 4 m).length ≤ 4 := List.length_take_le _ _
  exact lt_of_lt_of_le hlt (Nat.pow_le_pow_right (by decide) hlen)

theorem typeOf_lt (m : List UInt8) : typeOf m < 2 ^ 16 := by
  have hlt := ofLe_lt (slice 0 2 m)
  have hlen : (slice 0 2 m).length ≤ 2 := List.length_take_le _ _
  exact lt_of_lt_of_le hlt (Nat.pow_le_pow_right (by decide) hlen)

/-- **An answer says what it should.** -/
theorem answer_means (data : List UInt8) (hstatus : status < 2 ^ 16) (hlen : len < 2 ^ 32) :
    seqOf (answer m status len data) = seqOf m ∧
      typeOf (answer m status len data) = typeOf m ||| MSG_RESPONSE ∧
      statusOf (answer m status len data) = status ∧ rfLen (answer m status len data) = len ∧
      slice dataAt data.length (answer m status len data) = data ∧
      (answer m status len data).length = dataAt + data.length := by
  have hname : (splice 0 (slice HDR_LEN RF_NAMLEN m) (List.replicate RF_NAMLEN 0)).length =
      RF_NAMLEN := by
    have hle : (slice HDR_LEN RF_NAMLEN m).length ≤ RF_NAMLEN := List.length_take_le _ _
    rw [length_splice (by rw [List.length_replicate]; omega), List.length_replicate]
  have htype := length_leBytes 2 (typeOf m ||| MSG_RESPONSE)
  have hst := length_leBytes 2 status
  have hlt := seqOf_lt m
  have htlt : typeOf m ||| MSG_RESPONSE < 2 ^ 16 :=
    Nat.or_lt_two_pow (typeOf_lt m) (by decide)
  have hpos := length_leBytes 4 (posOf m)
  have hln := length_leBytes 4 len
  have hat : dataAt = posAt + 8 := rfl
  have hposAt : posAt = HDR_LEN + RF_NAMLEN := rfl
  have hhdr : HDR_LEN = 8 := rfl
  unfold answer
  generalize seqOf m = seq at hlt ⊢
  have hseq := length_leBytes 4 seq
  have hty : ofLe (leBytes 2 (typeOf m ||| MSG_RESPONSE)) = typeOf m ||| MSG_RESPONSE :=
    ofLe_leBytes htlt
  generalize leBytes 2 (typeOf m ||| MSG_RESPONSE) = a at htype hty ⊢
  generalize splice 0 (slice HDR_LEN RF_NAMLEN m) (List.replicate RF_NAMLEN 0) = b at hname ⊢
  obtain ⟨front, hfront⟩ : ∃ front, front = a ++ leBytes 2 status ++ leBytes 4 seq ++ b :=
    ⟨_, rfl⟩
  have hflen : front.length = posAt := by
    rw [hfront]
    simp only [List.length_append]
    omega
  refine ⟨?_, ?_, ?_, ?_, ?_, ?_⟩
  · unfold seqOf
    simp only [List.append_assoc]
    rw [slice_append_right (by omega), slice_append_right (by omega), htype, hst,
      slice_append_left hseq, ofLe_leBytes hlt]
  · rw [← hty]
    unfold typeOf
    simp only [List.append_assoc]
    rw [slice_append_left htype]
  · unfold statusOf
    simp only [List.append_assoc]
    rw [slice_append_right (by omega), htype, slice_append_left hst, ofLe_leBytes hstatus]
  · rw [← hfront]
    simp only [List.append_assoc]
    exact rfLen_append hflen hlen
  · have height : dataAt - posAt = 8 := rfl
    rw [← hfront]
    simp only [List.append_assoc]
    rw [slice_append_right (by omega), hflen, height, slice_append_right (by omega), hpos,
      slice_append_right (by omega), hln]
    exact List.take_length
  · rw [← hfront]
    simp only [List.length_append]
    omega

/-- Bytes that are written again change nothing. -/
theorem overwrite_again : overwrite pos data (overwrite pos data content) =
    overwrite pos data content := by
  have hpad : pos ≤ (content ++ List.replicate (pos - content.length) 0).length := by
    rw [List.length_append, List.length_replicate]
    omega
  have hlen : (splice pos data _).length = _ := length_splice_of_le hpad
  unfold overwrite
  generalize content ++ List.replicate (pos - content.length) 0 = c at hpad hlen ⊢
  have hfull : pos - (splice pos data c).length = 0 := by omega
  rw [hfull, List.replicate_zero, List.append_nil]
  refine List.ext_getElem? fun k => ?_
  rw [getElem?_splice_of_le (by omega), getElem?_splice_of_le hpad]
  by_cases hk : pos ≤ k ∧ k < pos + data.length
  · rw [if_pos hk, if_pos hk]
  · rw [if_neg hk, if_neg hk]

theorem write_again {files files' : Named} (h : Named.write name pos data files = some files') :
    Named.write name pos data files' = some files' := by
  obtain ⟨content, hcontent, rfl⟩ := Option.map_eq_some_iff.mp h
  unfold Named.write
  rw [Function.update_self, Option.map_some, overwrite_again, Function.update_idem]

theorem dataOf_length_le (m : List UInt8) : (dataOf m).length ≤ rfLen m := List.length_take_le _ _

theorem read_length_le {files : Named} (h : files.read name pos len = some data) :
    data.length ≤ len := by
  obtain ⟨content, -, rfl⟩ := Option.map_eq_some_iff.mp h
  exact List.length_take_le _ _

/-- Every answer has the layout of a reply. -/
theorem serve_answer (m : List UInt8) (s : Named) : ∃ status len data, status < 2 ^ 16 ∧
    len < 2 ^ 32 ∧ (s.serve m).2 = answer m status len data := by
  unfold Named.serve
  split_ifs with hr hw
  · cases hread : s.read (nameOf m) (posOf m) (rfLen m) with
    | none => exact ⟨1, 0, [], by decide, by decide, rfl⟩
    | some data =>
      exact ⟨0, data.length, data, by decide,
        lt_of_le_of_lt (read_length_le hread) (rfLen_lt m), rfl⟩
  · cases s.write (nameOf m) (posOf m) (dataOf m) with
    | none => exact ⟨1, 0, [], by decide, by decide, rfl⟩
    | some s' =>
      exact ⟨0, (dataOf m).length, [], by decide,
        lt_of_le_of_lt (dataOf_length_le m) (rfLen_lt m), rfl⟩
  · exact ⟨0, 0, [], by decide, by decide, rfl⟩
  · exact ⟨1, 0, [], by decide, by decide, rfl⟩

/-- A server over files in memory. -/
def plain : Server Named where
  serve := Named.serve
  read := Named.read
  write := Named.write
  answers m s _ := by
    obtain ⟨status, len, data, hstatus, hlen, h⟩ := serve_answer m s
    obtain ⟨hseq, htype, -, -, -, hlength⟩ := answer_means (m := m) data hstatus hlen
    rw [h, hlength]
    exact ⟨by unfold dataAt lenAt; omega, hseq, htype⟩
  reads m s _ htype := by
    unfold Named.serve
    rw [if_pos htype]
    cases hread : s.read (nameOf m) (posOf m) (rfLen m) with
    | none =>
      obtain ⟨-, -, hstatus, -⟩ := answer_means (m := m) []
        (by decide : 1 < 2 ^ 16) (by decide : 0 < 2 ^ 32)
      refine ⟨rfl, ?_⟩
      dsimp only
      rw [hstatus]
      decide
    | some data =>
      have hshort := read_length_le hread
      obtain ⟨-, -, hstatus, hlen, hdata, hlength⟩ := answer_means (m := m) data
        (by decide : 0 < 2 ^ 16) (lt_of_le_of_lt hshort (rfLen_lt m))
      refine ⟨rfl, hshort, hstatus, hlen, ?_, hlength.ge⟩
      unfold dataOf
      rw [hlen, hdata]
  writes m s _ htype := by
    have hread : typeOf m ≠ RF_MSG_RREQ.toNat := by
      rw [htype]
      decide
    unfold Named.serve
    rw [if_neg hread, if_pos htype]
    cases hwrite : s.write (nameOf m) (posOf m) (dataOf m) with
    | none =>
      obtain ⟨-, -, hstatus, -⟩ := answer_means (m := m) []
        (by decide : 1 < 2 ^ 16) (by decide : 0 < 2 ^ 32)
      refine ⟨rfl, ?_⟩
      dsimp only
      rw [hstatus]
      decide
    | some s' =>
      obtain ⟨-, -, hstatus, hlen, -, hlength⟩ := answer_means (m := m) []
        (by decide : 0 < 2 ^ 16) (lt_of_le_of_lt (dataOf_length_le m) (rfLen_lt m))
      exact ⟨rfl, hstatus, hlen, hlength.ge⟩
  again _ _ _ _ _ := write_again

end Xinu.Rfs
