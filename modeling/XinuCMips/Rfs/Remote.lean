import XinuCMips.Rfs.Server

/-!
# Remote files over a network that loses messages

Calls of the remote file system over a network between it and a `Server`. The network
may lose a request or deliver it several times, as long as the exchange
lasts; it may lose a reply, repeat it, or deliver it at any later time. All of this is
in the `Hop`s of a call.

* `Local`, `Does` — the files as a program sees them: a position in every open file, and
  reads and writes that happen once;
* `served_eq`     — after any number of attempts the server is where the first has left
  it;
* `remote_refines` — **every run of calls is one of local files**, until the sequence
  numbers come back.
-/

namespace Xinu.Rfs

open Bytes Net
open Lfs (CString)

-- ---------------------------------------------------------------------------
-- The network
-- ---------------------------------------------------------------------------

/-- What arrives while a call waits: nothing, an error of `udp_recv`, or one of the
replies that the server has ever sent. -/
inductive Arrival where
  | nothing
  | failure
  | reply (k : Nat)
  deriving DecidableEq

/-- One attempt: whether `udp_send` succeeds, how many copies of the request come to the
server, and what arrives. -/
structure Hop where
  send : Bool
  copies : Nat
  arrives : Arrival

/-- The files of the server, and all its replies, the newest first. -/
structure World (σ : Type) where
  files : σ
  replies : List (List UInt8)

namespace World

variable {σ : Type} (S : Server σ) (m : List UInt8)

def serve (w : World σ) : World σ :=
  ⟨(S.serve m w.files).1, (S.serve m w.files).2 :: w.replies⟩

def hop (h : Hop) (w : World σ) : World σ := if h.send then (serve S m)^[h.copies] w else w

def recv (w : World σ) : Arrival → Recv
  | .nothing => .timeout
  | .failure => .error
  | .reply k =>
    match w.replies[k]? with
    | none => .timeout
    | some bytes => .data bytes

/-- The world after a number of attempts. -/
def after (hops : Nat → Hop) (w : World σ) : Nat → World σ
  | 0 => w
  | n + 1 => hop S m (hops n) (after hops w n)

/-- What the client meets in each attempt. -/
def round (hops : Nat → Hop) (w : World σ) (n : Nat) : Round :=
  ⟨(hops n).send, (after S m hops w (n + 1)).recv (hops n).arrives⟩

end World

-- ---------------------------------------------------------------------------
-- Calls over the network
-- ---------------------------------------------------------------------------

inductive Call where
  | read (i : Fin Nrfl) (count : Int)
  | write (i : Fin Nrfl) (buff : List UInt8) (count : Int)
  | getc (i : Fin Nrfl)
  | putc (i : Fin Nrfl) (ch : UInt8)
  | seek (i : Fin Nrfl) (pos : UInt32)
  | close (i : Fin Nrfl)
  | opens (name mode : CString)
  | control (i : Fin Nrfl) (func : Int) (name : CString)

/-- The value of a call, and what it has stored in the buffer of its caller. -/
abbrev Reply := Int × List (Option UInt8)

/-- What a call finds: the network, and the memory that it has not written. -/
structure Env where
  hops : Nat → Hop
  resp : List UInt8
  stack : List UInt8
  beyond : List UInt8
  ch : UInt8

structure Sys (σ : Type) where
  client : Rfl
  world : World σ

namespace Sys

variable {σ α : Type} (S : Server σ)

/-- A call over the network. -/
def talk (e : Env) (s : Sys σ) : Dialog α → α × Comm × World σ
  | .done a => (a, s.client.data, s.world)
  | .asks msg mtype rlen next =>
    let m := msg s.client.data.seq
    let r := rfscomm mtype rlen (s.world.round S m e.hops) e.resp s.client.data
    (next r.1, r.2, s.world.after S m e.hops r.1.sends)

/-- A call on the open file `i`. -/
def onFile (e : Env) (s : Sys σ) (i : Fin Nrfl) (p : Dialog (Int × Rflcblk)) : Reply × Sys σ :=
  let r := s.talk S e p
  ((r.1.1, []), ⟨{ s.client.setCblk i r.1.2 with data := r.2.1 }, r.2.2⟩)

/-- One call. -/
def step (e : Env) (s : Sys σ) : Call → Reply × Sys σ
  | .read i count =>
    let r := s.talk S e (reading count (s.client.rfltab i))
    ((r.1.value, r.1.stored), ⟨{ s.client.setCblk i r.1.cblk with data := r.2.1 }, r.2.2⟩)
  | .write i buff count =>
    s.onFile S e i (rflWrite e.beyond e.stack buff count (s.client.rfltab i))
  | .getc i => s.onFile S e i (rflGetc e.ch (s.client.rfltab i))
  | .putc i ch => s.onFile S e i (rflPutc e.beyond e.stack ch (s.client.rfltab i))
  | .seek i pos => s.onFile S e i (.done (rflSeek pos (s.client.rfltab i)))
  | .close i => s.onFile S e i (.done (rflClose (s.client.rfltab i)))
  | .opens name mode =>
    let r := s.talk S e (rfsOpen name mode s.client)
    ((r.1.1, []), ⟨{ r.1.2 with data := r.2.1 }, r.2.2⟩)
  | .control i func name =>
    let r := s.talk S e (rfsControl func name e.stack (s.client.rfltab i))
    ((r.1, []), ⟨{ s.client with data := r.2.1 }, r.2.2⟩)

/-- What a call owes: the buffer has as many bytes as are to be written, and a name fits
the message that `rfsndmsg` copies it into. -/
def Ready (e : Env) : Call → Prop
  | .write _ buff count => count ≤ buff.length ∧ e.stack.length = wreqSize
  | .putc _ _ => e.stack.length = wreqSize
  | .control _ _ name => name.chars.length < RF_NAMLEN
  | _ => True

/-- Calls one after another, and their replies. -/
def run (s : Sys σ) : List (Env × Call) → List Reply × Sys σ
  | [] => ([], s)
  | (e, c) :: calls =>
    let r := s.step S e c
    let rs := r.2.run calls
    (r.1 :: rs.1, rs.2)

end Sys

-- ---------------------------------------------------------------------------
-- Local files
-- ---------------------------------------------------------------------------

/-- An open file. -/
structure Handle where
  name : List UInt8
  pos : UInt32
  mode : UInt32

structure Local (σ : Type) where
  handles : Fin Nrfl → Option Handle
  files : σ

variable {σ : Type}

def Local.set (i : Fin Nrfl) (h : Option Handle) (l : Local σ) : Local σ :=
  { l with handles := Function.update l.handles i h }

def Handle.moved (n : Nat) (h : Handle) : Handle := { h with pos := h.pos + UInt32.ofNat n }

/-- A request of the master device for a file, which the server has served so many
times. -/
def Requested (S : Server σ) (name : List UInt8) (k : Nat) (s s' : σ) : Prop :=
  ∃ m, nameOf m = name ∧ s' = (fun s => (S.serve m s).1)^[k] s

/-- **What a call may do to local files.** It fails and changes nothing, or it does once
what it says; a write that fails may have been done all the same. -/
inductive Does (S : Server σ) (dev : Fin Nrfl → Int) : Call → Reply → Local σ → Local σ → Prop where
  | failed (c : Call) (l : Local σ) : Does S dev c (SYSERR, []) l l
  | read {l : Local σ} {i : Fin Nrfl} {h : Handle} {count : Int} {data : List UInt8}
      (hopen : l.handles i = some h) (hmode : h.mode &&& RF_MODE_R ≠ 0) (hpos : 0 < count)
      (hread : S.read h.name h.pos.toNat count.toNat l.files = some data)
      (hshort : data.length ≤ count.toNat) :
      Does S dev (.read i count) (data.length, data.map some) l (l.set i (h.moved data.length))
  | wrote {l : Local σ} {i : Fin Nrfl} {h : Handle} {buff : List UInt8} {count : Int} {files : σ}
      (hopen : l.handles i = some h) (hmode : h.mode &&& RF_MODE_W ≠ 0) (hpos : 0 < count)
      (hwrite : S.write h.name h.pos.toNat (buff.take count.toNat) l.files = some files) :
      Does S dev (.write i buff count) (count, []) l
        { l.set i (h.moved count.toNat) with files := files }
  | lost {l : Local σ} {i : Fin Nrfl} {h : Handle} {buff : List UInt8} {count : Int} {files : σ}
      (hopen : l.handles i = some h) (hmode : h.mode &&& RF_MODE_W ≠ 0) (hpos : 0 < count)
      (hwrite : S.write h.name h.pos.toNat (buff.take count.toNat) l.files = some files) :
      Does S dev (.write i buff count) (SYSERR, []) l { l with files := files }
  | gotc {l : Local σ} {i : Fin Nrfl} {h : Handle} {ch : UInt8}
      (hopen : l.handles i = some h) (hmode : h.mode &&& RF_MODE_R ≠ 0)
      (hread : S.read h.name h.pos.toNat 1 l.files = some [ch]) :
      Does S dev (.getc i) (ch.toInt8.toInt, []) l (l.set i (h.moved 1))
  | putc {l l' : Local σ} {i : Fin Nrfl} {ch : UInt8} {v : Int}
      (h : Does S dev (.write i [ch] 1) (v, []) l l') :
      Does S dev (.putc i ch) (if v ≠ 1 then SYSERR else OK, []) l l'
  | sought {l : Local σ} {i : Fin Nrfl} {h : Handle} (pos : UInt32)
      (hopen : l.handles i = some h) :
      Does S dev (.seek i pos) (OK, []) l (l.set i (some { h with pos := pos }))
  | closed {l : Local σ} {i : Fin Nrfl} {h : Handle} (hopen : l.handles i = some h) :
      Does S dev (.close i) (OK, []) l (l.set i none)
  | opened {l : Local σ} {i : Fin Nrfl} {name mode : CString} {mbits : UInt32} {k : Nat} {files : σ}
      (hfree : l.handles i = none)
      (hname : 0 < name.chars.length ∧ name.chars.length < RF_NAMLEN)
      (hmode : rfsgetmode mode = (mbits.toNat : Nat))
      (hserved : 0 < k) (hfiles : Requested S name.chars k l.files files) :
      Does S dev (.opens name mode) (dev i, []) l
        { l.set i (some ⟨name.chars, 0, mbits⟩) with files := files }
  | notOpened {l : Local σ} {name mode : CString} {k : Nat} {files : σ}
      (hfiles : Requested S name.chars k l.files files) :
      Does S dev (.opens name mode) (SYSERR, []) l { l with files := files }
  | controlled {l : Local σ} {i : Fin Nrfl} {func : Int} {name : CString} {file : List UInt8}
      {v : Int} {k : Nat} {files : σ} (hfiles : Requested S file k l.files files) :
      Does S dev (.control i func name) (v, []) l { l with files := files }

/-- A run of local files. -/
inductive Runs (S : Server σ) (dev : Fin Nrfl → Int) :
    Local σ → List Call → List Reply → Local σ → Prop where
  | nil (l : Local σ) : Runs S dev l [] [] l
  | cons {l l' l'' : Local σ} {c : Call} {r : Reply} {calls : List Call} {replies : List Reply}
      (h : Does S dev c r l l') (hs : Runs S dev l' calls replies l'') :
      Runs S dev l (c :: calls) (r :: replies) l''

/-- The file that a control block stands for. -/
def Rflcblk.handle (f : Rflcblk) : Option Handle :=
  if f.used then some ⟨chars f.rfname, f.rfpos, f.rfmode⟩ else none

/-- What a program sees. -/
def Sys.shown (s : Sys σ) : Local σ := ⟨fun i => (s.client.rfltab i).handle, s.world.files⟩

-- ---------------------------------------------------------------------------
-- One exchange
-- ---------------------------------------------------------------------------

variable {S : Server σ} {m bytes old : List UInt8} {hops : Nat → Hop} {w : World σ} {seq : UInt32}
  {mtype : UInt16} {rlen k n : Nat} {s s' : σ}

/-- What becomes of the files when a message is served. -/
def Server.effect (S : Server σ) (m : List UInt8) (s : σ) : σ := (S.serve m s).1

/-- `rfscomm` has failed. -/
def Fails (o : Outcome) : Prop := o.value = SYSERR ∨ o.value = TIMEOUT

/-- What `rfscomm` comes to when the message has been served `k` times: it fails, or it has
copied one of the replies into the buffer. -/
inductive Answered (S : Server σ) (m : List UInt8) (rlen : Nat) (s : σ) (k : Nat) (o : Outcome) :
    Prop
  | failed (h : Fails o)
  | reply (j : Nat) (old : List UInt8) (hj : j < k)
      (hvalue : o.value = (min (S.serve m ((S.effect m)^[j] s)).2.length rlen : Nat))
      (hbuf : o.buf = fill rlen (S.serve m ((S.effect m)^[j] s)).2 old)

/-- A number of attempts serves the message a number of times. -/
theorem after_eq (hops : Nat → Hop) (n : Nat) :
    ∃ k, w.after S m hops n = (World.serve S m)^[k] w := by
  induction n with
  | zero => exact ⟨0, rfl⟩
  | succ n ih =>
    obtain ⟨k, hk⟩ := ih
    unfold World.after World.hop
    rw [hk]
    by_cases hs : (hops n).send = true
    · rw [if_pos hs]
      exact ⟨(hops n).copies + k, (Function.iterate_add_apply _ _ _ _).symm⟩
    · rw [if_neg hs]
      exact ⟨k, rfl⟩

/-- **What it has been served** shows in the files and in the replies. -/
theorem serve_iterate (k : Nat) : ((World.serve S m)^[k] w).files = (S.effect m)^[k] w.files ∧
    ∀ r ∈ ((World.serve S m)^[k] w).replies, r ∈ w.replies ∨
      ∃ j < k, r = (S.serve m ((S.effect m)^[j] w.files)).2 := by
  induction k with
  | zero => exact ⟨rfl, fun r hr => .inl hr⟩
  | succ k ih =>
    obtain ⟨hfiles, hreplies⟩ := ih
    rw [Function.iterate_succ_apply', Function.iterate_succ_apply']
    refine ⟨congrArg (S.effect m) hfiles, fun r hr => ?_⟩
    rcases List.mem_cons.mp hr with rfl | hr
    · exact .inr ⟨k, Nat.lt_succ_self k, by rw [hfiles]⟩
    · rcases hreplies r hr with hold | ⟨j, hj, hr⟩
      · exact .inl hold
      · exact .inr ⟨j, Nat.lt_succ_of_lt hj, hr⟩

theorem recv_data {a : Arrival} (h : w.recv a = .data bytes) : bytes ∈ w.replies := by
  cases a with
  | nothing => cases h
  | failure => cases h
  | reply i =>
    unfold World.recv at h
    dsimp only at h
    cases hget : w.replies[i]? with
    | none =>
      rw [hget] at h
      cases h
    | some b =>
      rw [hget] at h
      injection h with h
      exact h ▸ List.mem_of_getElem? hget

/-- `rfscomm` sends the request again whatever else it has received. -/
theorem rfsJudge_again {buf : List UInt8} {len : Nat} {xmit : Bool}
    (h : rfsJudge seq mtype buf len = .again xmit) : xmit = true := by
  unfold rfsJudge at h
  split_ifs at h
  · injection h with h
    exact h.symm
  · injection h with h
    exact h.symm

/-- **The loop of `rfscomm`**: what it has accepted is a reply that the server has sent. -/
theorem exchange_after (seq : UInt32) (mtype : UInt16) (rlen : Nat) (hops : Nat → Hop)
    (n : Nat) : ∀ (k sends : Nat) (buf : List UInt8),
    let o := exchange (rfsJudge seq mtype) rlen ((List.range' k n).map (w.round S m hops)) true
      sends buf
    ∃ j, o.sends = sends + j ∧ ((o.value = SYSERR ∨ o.value = TIMEOUT) ∨
      ∃ bytes ∈ (w.after S m hops (k + j)).replies, ∃ old,
        o.value = (min bytes.length rlen : Nat) ∧ o.buf = fill rlen bytes old ∧
        seqOf o.buf = seq.toNat) := by
  induction n with
  | zero => exact fun k sends buf => ⟨0, rfl, .inl (.inr rfl)⟩
  | succ n ih =>
    intro k sends buf
    rw [List.range'_succ, List.map_cons]
    unfold exchange
    by_cases hs : true = true ∧ ¬(w.round S m hops k).send = true
    · rw [if_pos hs]
      exact ⟨1, rfl, .inl (.inl rfl)⟩
    rw [if_neg hs, if_pos rfl]
    dsimp only
    -- the next round, when this one has brought nothing
    have hnext := ih (k + 1) (sends + 1)
    cases hrecv : (w.round S m hops k).recv with
    | timeout =>
      obtain ⟨j, hj, ho⟩ := hnext buf
      have hk : k + (j + 1) = k + 1 + j := by omega
      dsimp only
      refine ⟨j + 1, by omega, ?_⟩
      rwa [hk]
    | error => exact ⟨1, rfl, .inl (.inl rfl)⟩
    | data bytes =>
      dsimp only
      cases hj : rfsJudge seq mtype (fill rlen bytes buf) (min bytes.length rlen) with
      | again x =>
        obtain rfl := rfsJudge_again hj
        obtain ⟨j, hj, ho⟩ := hnext (fill rlen bytes buf)
        have hk : k + (j + 1) = k + 1 + j := by omega
        dsimp only
        refine ⟨j + 1, by omega, ?_⟩
        rwa [hk]
      | done v =>
        obtain ⟨hseq, -, rfl⟩ := rfsJudge_done.mp hj
        exact ⟨1, rfl, .inr ⟨bytes, recv_data hrecv, buf, rfl, rfl, hseq⟩⟩

/-- The replies so far are to earlier requests: the exchanges are numbered from `first`
on. -/
structure Fresh (first : UInt32) (n : Nat) (d : Comm) (w : World σ) : Prop where
  seq : d.seq = first + UInt32.ofNat n
  past : ∀ r ∈ w.replies, HDR_LEN ≤ r.length ∧
    ∃ j < n, seqOf r = (first + UInt32.ofNat j).toNat

variable {first : UInt32} {d : Comm} {name : List UInt8} {α : Type} {e : Env} {sys : Sys σ}

/-- **The number of an exchange is new** as long as there are fewer than `2 ^ 32`. -/
theorem Fresh.ne_seq (h : Fresh first n d w) (hn : n < 2 ^ 32) {r : List UInt8}
    (hr : r ∈ w.replies) : seqOf r ≠ d.seq.toNat := by
  obtain ⟨-, j, hj, hseq⟩ := h.past r hr
  intro heq
  have h32 : first + UInt32.ofNat j = first + UInt32.ofNat n := by
    rw [← h.seq]
    exact UInt32.toNat_inj.mp (hseq.symm.trans heq)
  have hsame := congrArg UInt32.toNat ((UInt32.add_right_inj _).mp h32)
  rw [UInt32.toNat_ofNat_of_lt' (lt_trans hj hn), UInt32.toNat_ofNat_of_lt' hn] at hsame
  omega

/-- An exchange more. -/
theorem Fresh.served (h : Fresh first n d w) (hfull : HDR_LEN ≤ m.length)
    (hseq : seqOf m = d.seq.toNat) (k : Nat) :
    Fresh first (n + 1) ⟨d.seq + 1, true⟩ ((World.serve S m)^[k] w) := by
  refine ⟨?_, fun r hr => ?_⟩
  · show d.seq + 1 = _
    rw [h.seq, UInt32.ofNat_add, UInt32.add_assoc]
    rfl
  · rcases (serve_iterate k).2 r hr with hold | ⟨j, -, rfl⟩
    · obtain ⟨hlen, j, hj, hs⟩ := h.past r hold
      exact ⟨hlen, j, Nat.lt_succ_of_lt hj, hs⟩
    · obtain ⟨hlen, hs, -⟩ := S.answers m ((S.effect m)^[j] w.files) hfull
      exact ⟨hlen, n, Nat.lt_succ_self n, by rw [hs, hseq, h.seq]⟩

/-- **A call over the network** fails, or goes on with an answer to its own message. -/
theorem talk_asks (mtype : UInt16) (msg : UInt32 → List UInt8) (next : Outcome → α)
    (hf : Fresh first n sys.client.data sys.world) (hn : n < 2 ^ 32) (hr : HDR_LEN ≤ rlen) :
    ∃ o k, o = (rfscomm mtype rlen (sys.world.round S (msg sys.client.data.seq) e.hops) e.resp
        sys.client.data).1 ∧
      sys.talk S e (.asks msg mtype rlen next) = (next o, ⟨sys.client.data.seq + 1, true⟩,
        (World.serve S (msg sys.client.data.seq))^[k] sys.world) ∧
      Answered S (msg sys.client.data.seq) rlen sys.world.files k o := by
  obtain ⟨m, hm⟩ : ∃ m, m = msg sys.client.data.seq := ⟨_, rfl⟩
  rw [← hm]
  obtain ⟨j, hj, ho⟩ := exchange_after (S := S) (m := m) (w := sys.world) sys.client.data.seq
    mtype rlen e.hops RF_RETRIES 0 0 e.resp
  rw [← List.range_eq_range', Nat.zero_add] at hj ho
  obtain ⟨k, hk⟩ := after_eq (S := S) (m := m) (w := sys.world) e.hops j
  refine ⟨_, k, rfl, ?_, ?_⟩
  · unfold Sys.talk
    dsimp only
    rw [← hm]
    refine congrArg (Prod.mk _) (congrArg (Prod.mk _) ?_)
    rw [← hk]
    exact congrArg _ hj
  · rcases ho with hfail | ⟨bytes, hbytes, old, hvalue, hbuf, hseq⟩
    · exact .failed hfail
    · rw [hk] at hbytes
      rcases (serve_iterate k).2 bytes hbytes with hpast | ⟨i, hi, rfl⟩
      · -- an old reply has another number
        have hold := hf.past bytes hpast
        rw [hbuf, seqOf_fill hr hold.1] at hseq
        exact absurd hseq (hf.ne_seq hn hpast)
      · exact .reply i old hi hvalue hbuf

-- ---------------------------------------------------------------------------
-- Reads and writes
-- ---------------------------------------------------------------------------

variable {f : Rflcblk} {count : Int} {beyond stack buff data : List UInt8} {o : Outcome}

/-- A field of a reply, as far as the reply reaches. -/
theorem slice_fill_of_le {a b : Nat} (h : a + b ≤ min bytes.length rlen) :
    slice a b (fill rlen bytes old) = slice a b bytes := by
  refine List.ext_getElem? fun i => ?_
  rw [getElem?_slice, getElem?_slice]
  by_cases hi : i < b
  · rw [if_pos hi, if_pos hi, fill_getElem? (by omega)]
  · rw [if_neg hi, if_neg hi]

theorem statusOf_fill (hr : HDR_LEN ≤ rlen) (hb : HDR_LEN ≤ bytes.length) :
    statusOf (fill rlen bytes old) = statusOf bytes := by
  unfold statusOf
  rw [slice_fill hr hb old (by decide)]

theorem rfLen_fill (hr : dataAt ≤ rlen) (hb : dataAt ≤ bytes.length) :
    rfLen (fill rlen bytes old) = rfLen bytes := by
  have hat : dataAt = lenAt + 4 := rfl
  unfold rfLen
  rw [slice_fill_of_le (by omega)]

theorem Says.reads (h : Says RF_MSG_RREQ seq name m) (s : σ) (k : Nat) :
    (S.effect m)^[k] s = s := Function.iterate_fixed (S.reads m s h.full h.type).1 k

/-- The outcome of a call that has not failed is a length. -/
theorem length_ok {x : Nat} (h : o.value = (x : Nat)) : o.value ≠ SYSERR ∧ o.value ≠ TIMEOUT := by
  rw [h]
  unfold SYSERR TIMEOUT
  omega

/-- **What `rflRead` makes of an answer**: it fails and changes nothing, or it has the
bytes of the file. -/
theorem read_answered (h : Asks count f) (ha : Answered S (rreq f count seq) rresSize s k o) :
    ((Fails o ∨ S.read (chars f.rfname) f.rfpos.toNat count.toNat s = none) ∧
        ∃ reply, checkResponse f o = fails f reply) ∨
      ∃ data, S.read (chars f.rfname) f.rfpos.toNat count.toNat s = some data ∧
        data.length ≤ count.toNat ∧ checkResponse f o = ⟨data.length, data.map some,
          { f with rfpos := f.rfpos + UInt32.ofNat data.length }, o.last⟩ := by
  obtain ⟨hmeans, hpos, hlen⟩ := rreq_means seq h
  obtain ⟨hcount, hmax⟩ := h.count
  have hsize : rresSize = dataAt + RF_DATALEN := rfl
  have hlimit : RF_DATALEN = 1024 := rfl
  unfold checkResponse
  rcases ha with hfail | ⟨j, old, -, hvalue, hbuf⟩
  · rcases hfail with hv | hv
    · exact .inl ⟨.inl (.inl hv), o.last, if_pos hv⟩
    · exact .inl ⟨.inl (.inr hv), o.last, by rw [if_pos hv, ite_self]⟩
  rw [hmeans.reads] at hvalue hbuf
  obtain ⟨hsys, htime⟩ := length_ok hvalue
  rw [if_neg hsys, if_neg htime]
  have hfull := (S.answers (rreq f count seq) s hmeans.full).1
  have hreads := (S.reads (rreq f count seq) s hmeans.full hmeans.type).2
  have hcount' : rfLen (rreq f count seq) = count.toNat := by omega
  rw [hmeans.name, hpos, hcount'] at hreads
  rw [hbuf, statusOf_fill (by decide) hfull]
  cases hread : S.read (chars f.rfname) f.rfpos.toNat count.toNat s with
  | none =>
    rw [hread] at hreads
    exact .inl ⟨.inr rfl, o.last, if_pos hreads⟩
  | some data =>
    rw [hread] at hreads
    obtain ⟨hshort, hstatus, hrf, hdata, hreach⟩ := hreads
    refine .inr ⟨data, rfl, hshort, ?_⟩
    rw [if_neg (not_not.mpr hstatus)]
    unfold copies
    dsimp only
    rw [rfLen_fill (by omega) (by omega), hrf]
    have hint : int32 data.length = data.length := by
      unfold int32
      exact Int.bmod_eq_of_le (by omega) (by omega)
    have hle : data.length ≤ RF_DATALEN := hshort.trans (Int.toNat_le.mpr hmax)
    have hstored : ((List.range data.length).map fun i =>
        (fill rresSize (S.serve (rreq f count seq) s).2 old)[dataAt + i]?) = data.map some := by
      refine List.ext_getElem (by simp) fun i hi hi' => ?_
      have hlt : i < data.length := by simpa using hi
      have hget := congrArg (fun l : List UInt8 => l[i]?) hdata
      dsimp only [dataOf] at hget
      rw [hrf, getElem?_slice, if_pos hlt, List.getElem?_eq_getElem hlt] at hget
      have hin : dataAt + i < min (S.serve (rreq f count seq) s).2.length rresSize :=
        lt_min (lt_of_lt_of_le (Nat.add_lt_add_left hlt dataAt) hreach)
          (Nat.add_lt_add_left (lt_of_lt_of_le hlt hle) dataAt)
      rw [List.getElem_map, List.getElem_map, List.getElem_range, fill_getElem? hin]
      exact hget
    rw [hint, hstored]

/-- **What `rflWrite` makes of an answer**: if the server refuses, the call fails and
nothing changes; otherwise the bytes are written when the request has been served at
all, and the call fails or has written them. -/
theorem write_answered (hs : f.Sound) (h : AsksWrite count f) (hbuff : count ≤ buff.length)
    (hstack : stack.length = wreqSize)
    (ha : Answered S (wreq f beyond stack buff count seq) wresSize s k o) :
    let m := wreq f beyond stack buff count seq
    match S.write (chars f.rfname) f.rfpos.toNat (buff.take count.toNat) s with
    | none => (S.effect m)^[k] s = s ∧ checkWritten f o = (SYSERR, f)
    | some s' => (S.effect m)^[k] s = (if k = 0 then s else s') ∧
      (Fails o ∧ checkWritten f o = (SYSERR, f) ∨
        0 < k ∧ checkWritten f o =
          (count, { f with rfpos := f.rfpos + UInt32.ofNat count.toNat })) := by
  obtain ⟨-, hmeans, hpos, hlen, hdata⟩ := wreq_means beyond seq hs h hbuff hstack
  obtain ⟨hcount, hmax⟩ := h.count
  have hsize : wresSize = dataAt := rfl
  have hlimit : RF_DATALEN = 1024 := rfl
  intro m
  have hm : m = wreq f beyond stack buff count seq := rfl
  rw [← hm] at hmeans hpos hlen hdata ha
  have hwrites := fun t => S.writes m t hmeans.full hmeans.type
  have hfull := fun t => (S.answers m t hmeans.full).1
  rw [hmeans.name, hpos, hdata] at hwrites
  have hdlen : (buff.take count.toNat).length = count.toNat := by
    rw [List.length_take]
    omega
  have hle : count.toNat ≤ RF_DATALEN := Int.toNat_le.mpr hmax
  have hfailed : Fails o → checkWritten f o = (SYSERR, f) := by
    unfold checkWritten
    rintro (hv | hv)
    · exact if_pos hv
    · rw [if_pos hv, ite_self]
  cases hwrite : S.write (chars f.rfname) f.rfpos.toNat (buff.take count.toNat) s with
  | none =>
    have hrefused := hwrites s
    rw [hwrite] at hrefused
    have hstill : (S.effect m)^[k] s = s := Function.iterate_fixed hrefused.1 k
    refine ⟨hstill, ?_⟩
    rcases ha with hfail | ⟨j, old, -, hvalue, hbuf⟩
    · exact hfailed hfail
    · have hstillj : (S.effect m)^[j] s = s := Function.iterate_fixed hrefused.1 j
      rw [hstillj] at hvalue hbuf
      obtain ⟨hsys, htime⟩ := length_ok hvalue
      unfold checkWritten
      rw [if_neg hsys, if_neg htime, hbuf, statusOf_fill (by decide) (hfull s),
        if_pos hrefused.2]
  | some s' =>
    have hdone := hwrites s
    have hagain := hwrites s'
    rw [hwrite] at hdone
    rw [S.again _ _ _ _ _ hwrite] at hagain
    have hiter : ∀ j, (S.effect m)^[j] s = if j = 0 then s else s' := by
      intro j
      cases j with
      | zero => rfl
      | succ j =>
        have hfirst : S.effect m s = s' := hdone.1
        rw [Function.iterate_succ_apply, hfirst, if_neg (Nat.succ_ne_zero j)]
        exact Function.iterate_fixed hagain.1 j
    refine ⟨hiter k, ?_⟩
    rcases ha with hfail | ⟨j, old, hj, hvalue, hbuf⟩
    · exact .inl ⟨hfail, hfailed hfail⟩
    · -- the first request and those after it are answered alike
      obtain ⟨hstatus, hrf, hreach⟩ : statusOf (S.serve m ((S.effect m)^[j] s)).2 = 0 ∧
          rfLen (S.serve m ((S.effect m)^[j] s)).2 = count.toNat ∧
          dataAt ≤ (S.serve m ((S.effect m)^[j] s)).2.length := by
        rw [hiter, ← hdlen]
        by_cases hzero : j = 0
        · rw [if_pos hzero]
          exact hdone.2
        · rw [if_neg hzero]
          exact hagain.2
      obtain ⟨hsys, htime⟩ := length_ok hvalue
      have hint : int32 (count.toNat : Nat) = count := by
        unfold int32
        rw [Int.toNat_of_nonneg hcount.le]
        exact Int.bmod_eq_of_le (by omega) (by omega)
      refine .inr ⟨lt_of_le_of_lt (Nat.zero_le j) hj, ?_⟩
      unfold checkWritten
      rw [if_neg hsys, if_neg htime, hbuf, statusOf_fill (by decide) (hfull _),
        if_neg (not_not.mpr hstatus), rfLen_fill hsize.ge hreach, hrf, hint]

-- ---------------------------------------------------------------------------
-- Steps
-- ---------------------------------------------------------------------------

/-- What every call keeps. -/
structure Sys.Sound (first : UInt32) (n : Nat) (s : Sys σ) : Prop where
  cblks : ∀ i, (s.client.rfltab i).Sound
  fresh : Fresh first n s.client.data s.world

variable {i : Fin Nrfl} {g : Rflcblk} {d' : Comm} {w' : World σ} {c : Call} {dev : Fin Nrfl → Int}

theorem Sys.Sound.left (hs : sys.Sound first n) (hg : g.Sound) {n' : Nat}
    (hf : Fresh first n' d' w') :
    Sys.Sound first n' ⟨{ sys.client.setCblk i g with data := d' }, w'⟩ := by
  refine ⟨fun j => ?_, hf⟩
  show (Function.update sys.client.rfltab i g j).Sound
  by_cases hj : j = i
  · obtain rfl := hj
    rwa [Function.update_self]
  · rw [Function.update_of_ne hj]
    exact hs.cblks j

/-- What a program sees of a control block that has been written. -/
theorem shown_left : Sys.shown ⟨{ sys.client.setCblk i g with data := d' }, w'⟩ =
    ⟨Function.update sys.shown.handles i g.handle, w'.files⟩ :=
  congrArg (Local.mk · w'.files) (Function.comp_update Rflcblk.handle sys.client.rfltab i g)

theorem shown_same (sys : Sys σ) (i : Fin Nrfl) (files : σ) (h : files = sys.world.files) :
    (⟨Function.update sys.shown.handles i (sys.client.rfltab i).handle, files⟩ : Local σ) =
      sys.shown := by
  rw [h]
  exact congrArg (Local.mk · sys.world.files) (Function.update_eq_self i sys.shown.handles)

theorem handle_used (h : f.used = true) : f.handle = some ⟨chars f.rfname, f.rfpos, f.rfmode⟩ :=
  if_pos h

/-- A call does what local files allow, and keeps what every call keeps. -/
structure Stepped (S : Server σ) (first : UInt32) (n : Nat) (s : Sys σ) (c : Call)
    (r : Reply × Sys σ) : Prop where
  does : Does S s.client.rfdev c r.1 s.shown r.2.shown
  sound : ∃ n' ≤ n + 1, r.2.Sound first n'
  dev : r.2.client.rfdev = s.client.rfdev

/-- What a dialog on the open file `i` comes to. -/
structure Talked (S : Server σ) (first : UInt32) (n : Nat) (s : Sys σ) (i : Fin Nrfl) (c : Call)
    (r : Reply) (f : Rflcblk) (d : Comm) (w : World σ) : Prop where
  does : Does S s.client.rfdev c r s.shown ⟨Function.update s.shown.handles i f.handle, w.files⟩
  sound : f.Sound
  fresh : ∃ n' ≤ n + 1, Fresh first n' d w

theorem Talked.stepped {r : Reply} (hs : sys.Sound first n)
    (h : Talked S first n sys i c r g d' w') :
    Stepped S first n sys c (r, ⟨{ sys.client.setCblk i g with data := d' }, w'⟩) := by
  obtain ⟨n', hn', hf⟩ := h.fresh
  exact ⟨shown_left ▸ h.does, ⟨n', hn', hs.left h.sound hf⟩, rfl⟩

/-- A call that returns at once and fails. -/
theorem Talked.refused (hs : sys.Sound first n) : Talked S first n sys i c (SYSERR, [])
    (sys.client.rfltab i) sys.client.data sys.world := by
  refine ⟨?_, hs.cblks i, n, Nat.le_succ n, hs.fresh⟩
  rw [shown_same _ _ _ rfl]
  exact .failed c sys.shown

theorem talk_map {β : Type} (φ : α → β) (p : Dialog α) :
    sys.talk S e (p.map φ) = (φ (sys.talk S e p).1, (sys.talk S e p).2) := by
  cases p <;> rfl

/-- **Reading.** -/
theorem read_talked (hs : sys.Sound first n) (hn : n < 2 ^ 32) (i : Fin Nrfl) (count : Int) :
    ∃ r d' w', sys.talk S e (reading count (sys.client.rfltab i)) = (r, d', w') ∧
      Talked S first n sys i (.read i count) (r.value, r.stored) r.cblk d' w' := by
  obtain ⟨f, hf⟩ : ∃ f, f = sys.client.rfltab i := ⟨_, rfl⟩
  rw [← hf]
  by_cases hasks : Asks count f
  · rw [reading_asks hasks]
    obtain ⟨o, k, -, htalk, ha⟩ := talk_asks (S := S) (e := e) RF_MSG_RREQ (rreq f count)
      (checkResponse f) hs.fresh hn (by decide : HDR_LEN ≤ rresSize)
    obtain ⟨hmeans, -, -⟩ := rreq_means sys.client.data.seq hasks
    have hfresh := hs.fresh.served (S := S) hmeans.full hmeans.seq k
    have hfiles := (serve_iterate (S := S) (m := rreq f count sys.client.data.seq)
      (w := sys.world) k).1
    rw [hmeans.reads] at hfiles
    rcases read_answered hasks ha with ⟨-, reply, hr⟩ | ⟨data, hread, hshort, hr⟩
    · rw [hr] at htalk
      refine ⟨_, _, _, htalk, ?_, hf ▸ hs.cblks i, n + 1, le_rfl, hfresh⟩
      have hsame := shown_same _ i _ hfiles
      rw [← hf] at hsame
      exact hsame.symm ▸ .failed _ sys.shown
    · rw [hr] at htalk
      refine ⟨_, _, _, htalk, ?_, (hf ▸ hs.cblks i).moved _, n + 1, le_rfl, hfresh⟩
      have hopen : sys.shown.handles i = some ⟨chars f.rfname, f.rfpos, f.rfmode⟩ := by
        show (sys.client.rfltab i).handle = _
        rw [← hf, handle_used hasks.used]
      have hmoved := handle_used (f := { f with rfpos := f.rfpos + UInt32.ofNat data.length })
        hasks.used
      rw [hfiles]
      exact hmoved.symm ▸ .read hopen hasks.mode hasks.count.1 hread hshort
  · rw [reading_refused hasks, hf]
    exact ⟨_, _, _, rfl, .refused hs⟩

/-- **Writing.** -/
theorem write_talked (beyond : List UInt8) (hs : sys.Sound first n) (hn : n < 2 ^ 32)
    (i : Fin Nrfl) (hbuff : count ≤ buff.length) (hstack : stack.length = wreqSize) :
    ∃ v g d' w', sys.talk S e (rflWrite beyond stack buff count (sys.client.rfltab i)) =
        ((v, g), d', w') ∧ Talked S first n sys i (.write i buff count) (v, []) g d' w' := by
  obtain ⟨f, hf⟩ : ∃ f, f = sys.client.rfltab i := ⟨_, rfl⟩
  rw [← hf]
  have hsound : f.Sound := hf ▸ hs.cblks i
  by_cases hasks : AsksWrite count f
  · rw [rflWrite_asks hasks]
    obtain ⟨o, k, -, htalk, ha⟩ := talk_asks (S := S) (e := e) RF_MSG_WREQ
      (wreq f beyond stack buff count) (checkWritten f) hs.fresh hn
      (by decide : HDR_LEN ≤ wresSize)
    obtain ⟨-, hmeans, -⟩ := wreq_means beyond sys.client.data.seq hsound hasks hbuff
      hstack
    have hfresh := hs.fresh.served (S := S) hmeans.full hmeans.seq k
    have hfiles := (serve_iterate (S := S) (m := wreq f beyond stack buff count
      sys.client.data.seq) (w := sys.world) k).1
    have hopen : sys.shown.handles i = some ⟨chars f.rfname, f.rfpos, f.rfmode⟩ := by
      show (sys.client.rfltab i).handle = _
      rw [← hf, handle_used hasks.used]
    have hsame := fun files => shown_same sys i files
    rw [← hf] at hsame
    have hanswer := write_answered hsound hasks hbuff hstack ha
    dsimp only at hanswer
    cases hwrite : S.write (chars f.rfname) f.rfpos.toNat (buff.take count.toNat)
        sys.world.files with
    | none =>
      rw [hwrite] at hanswer
      rw [hanswer.2] at htalk
      refine ⟨_, _, _, _, htalk, ?_, hsound, n + 1, le_rfl, hfresh⟩
      exact (hsame _ (hfiles.trans hanswer.1)).symm ▸ .failed _ sys.shown
    | some files =>
      rw [hwrite] at hanswer
      obtain ⟨hiter, hres⟩ := hanswer
      rw [hiter] at hfiles
      rcases hres with ⟨-, hr⟩ | ⟨hk, hr⟩
      · rw [hr] at htalk
        refine ⟨_, _, _, _, htalk, ?_, hsound, n + 1, le_rfl, hfresh⟩
        by_cases hk : k = 0
        · rw [if_pos hk] at hfiles
          exact (hsame _ hfiles).symm ▸ .failed _ sys.shown
        · -- the call fails, but the bytes are written
          rw [if_neg hk] at hfiles
          have hkeep : Function.update sys.shown.handles i f.handle = sys.shown.handles := by
            rw [hf]
            exact Function.update_eq_self i _
          rw [hkeep, hfiles]
          exact .lost hopen hasks.mode hasks.count.1 hwrite
      · rw [hr] at htalk
        refine ⟨_, _, _, _, htalk, ?_, hsound.moved _, n + 1, le_rfl, hfresh⟩
        rw [if_neg (Nat.pos_iff_ne_zero.mp hk)] at hfiles
        have hmoved := handle_used (f := { f with rfpos := f.rfpos + UInt32.ofNat count.toNat })
          hasks.used
        rw [hfiles]
        exact hmoved.symm ▸ .wrote hopen hasks.mode hasks.count.1 hwrite
  · rw [rflWrite_refused hasks, hf]
    exact ⟨_, _, _, _, rfl, .refused hs⟩

/-- A byte is read by a read of one byte. -/
theorem Does.getc {l l' : Local σ} {ch : UInt8} {r : Result}
    (h : Does S dev (.read i 1) (r.value, r.stored) l l') :
    Does S dev (.getc i) ((gotChar ch r).1, []) l l' := by
  unfold gotChar
  dsimp only
  generalize r.value = v at h ⊢
  generalize r.stored = stored at h ⊢
  cases h with
  | failed => exact .failed _ l
  | @read _ _ h _ data hopen hmode hpos hread hshort =>
    match data, hshort, hread with
    | [], _, _ =>
      -- at the end of the file
      have hmoved : h.moved 0 = h := congrArg (fun p => { h with pos := p }) (UInt32.add_zero h.pos)
      have hset : l.set i (h.moved 0) = l := by
        unfold Local.set
        rw [hmoved, ← hopen, Function.update_eq_self]
      show Does S dev (.getc i) (SYSERR, []) l (l.set i (h.moved 0))
      exact hset.symm ▸ .failed _ l
    | [b], _, hread => exact .gotc hopen hmode hread

theorem getc_talked (hs : sys.Sound first n) (hn : n < 2 ^ 32) (i : Fin Nrfl) (ch : UInt8) :
    ∃ v g d' w', sys.talk S e (rflGetc ch (sys.client.rfltab i)) = ((v, g), d', w') ∧
      Talked S first n sys i (.getc i) (v, []) g d' w' := by
  obtain ⟨r, d', w', htalk, h⟩ := read_talked (S := S) (e := e) hs hn i 1
  refine ⟨(gotChar ch r).1, r.cblk, d', w', ?_, h.does.getc, h.sound, h.fresh⟩
  unfold rflGetc
  rw [talk_map, htalk]
  rfl

theorem putc_talked (beyond : List UInt8) (hs : sys.Sound first n) (hn : n < 2 ^ 32)
    (i : Fin Nrfl) (ch : UInt8) (hstack : stack.length = wreqSize) :
    ∃ v g d' w', sys.talk S e (rflPutc beyond stack ch (sys.client.rfltab i)) = ((v, g), d', w') ∧
      Talked S first n sys i (.putc i ch) (v, []) g d' w' := by
  have hbuff : (1 : Int) ≤ [ch].length := le_rfl
  obtain ⟨v, g, d', w', htalk, h⟩ := write_talked (S := S) (e := e) beyond hs hn i hbuff hstack
  refine ⟨_, g, d', w', ?_, .putc h.does, h.sound, h.fresh⟩
  unfold rflPutc
  rw [talk_map, htalk]

theorem seek_talked (hs : sys.Sound first n) (i : Fin Nrfl) (pos : UInt32) :
    Talked S first n sys i (.seek i pos) ((rflSeek pos (sys.client.rfltab i)).1, [])
      (rflSeek pos (sys.client.rfltab i)).2 sys.client.data sys.world := by
  unfold rflSeek
  by_cases hused : (sys.client.rfltab i).used = true
  · rw [if_neg (not_not.mpr hused)]
    refine ⟨?_, (hs.cblks i).moved pos, n, Nat.le_succ n, hs.fresh⟩
    have hopen : sys.shown.handles i = _ := handle_used hused
    have hmoved := handle_used (f := { sys.client.rfltab i with rfpos := pos }) hused
    exact hmoved.symm ▸ Does.sought pos hopen
  · rw [if_pos hused]
    exact .refused hs

theorem close_talked (hs : sys.Sound first n) (i : Fin Nrfl) :
    Talked S first n sys i (.close i) ((rflClose (sys.client.rfltab i)).1, [])
      (rflClose (sys.client.rfltab i)).2 sys.client.data sys.world := by
  unfold rflClose
  by_cases hused : (sys.client.rfltab i).used = true
  · rw [if_neg (not_not.mpr hused)]
    exact ⟨.closed (handle_used hused), (hs.cblks i).closed, n, Nat.le_succ n, hs.fresh⟩
  · rw [if_pos hused]
    exact .refused hs

theorem freeBlock_free {s : Rfl} (h : s.freeBlock = some i) : (s.rfltab i).used = false := by
  unfold Rfl.freeBlock at h
  have hfree := List.find?_some h
  exact Bool.eq_false_of_not_eq_true (of_decide_eq_true hfree)

theorem handle_free (h : f.used = false) : f.handle = none := if_neg (by rw [h]; decide)

theorem chars_of_nonzero (name : CString) : chars name.chars = name.chars :=
  List.takeWhile_eq_self_iff.mpr fun _ hch => decide_eq_true fun hzero => name.nonzero (hzero ▸ hch)

/-- **Opening**, with the control block that has been found. -/
theorem opens_talked (cname mode : CString) (hs : sys.Sound first n) (hn : n < 2 ^ 32)
    (hfree : (sys.client.rfltab i).used = false) :
    ∃ v g d' w', sys.talk S e (opensIn cname mode (sys.client.rfdev i) (sys.client.rfltab i)) =
        ((v, g), d', w') ∧ Talked S first n sys i (.opens cname mode) (v, []) g d' w' := by
  obtain ⟨f, hf⟩ : ∃ f, f = sys.client.rfltab i := ⟨_, rfl⟩
  rw [← hf] at hfree ⊢
  have hplace : f.rfname.length = RF_NAMLEN := hf ▸ (hs.cblks i).place
  have hnone : sys.shown.handles i = none := by
    show (sys.client.rfltab i).handle = none
    rw [← hf, handle_free hfree]
  obtain ⟨⟨hused, hlen⟩, hprep⟩ := prepares_eq cname mode hplace
  unfold opensIn
  obtain ⟨g, mbits, hg⟩ : ∃ g mbits, prepares cname mode f = (g, mbits) := ⟨_, _, rfl⟩
  rw [hg] at hused hlen hprep ⊢
  rw [hfree] at hused
  have hgsound : g.Sound := ⟨hlen, fun h => (Bool.noConfusion (hused.symm.trans h)), fun h =>
    (Bool.noConfusion (hused.symm.trans h))⟩
  have hkeep : Function.update sys.shown.handles i g.handle = sys.shown.handles := by
    rw [handle_free hused, ← hnone, Function.update_eq_self]
  cases mbits with
  | none =>
    refine ⟨_, _, _, _, rfl, ?_, hgsound, n, Nat.le_succ n, hs.fresh⟩
    rw [hkeep]
    exact .failed _ sys.shown
  | some mbits =>
    obtain ⟨hready, hmode⟩ := hprep mbits rfl
    have hname : chars cname.chars = cname.chars := chars_of_nonzero cname
    have hmeans := oreq_means sys.client.data.seq mbits
      (hname.symm ▸ hready.length.2 : (chars cname.chars).length < RF_NAMLEN)
    obtain ⟨o, k, -, htalk, ha⟩ := talk_asks (S := S) (e := e) RF_MSG_OREQ (oreq cname.chars mbits)
      (checkOpened (sys.client.rfdev i) g) hs.fresh hn (by decide : HDR_LEN ≤ oresSize)
    have hfresh := hs.fresh.served (S := S) hmeans.full hmeans.seq k
    have hfiles : Requested S cname.chars k sys.world.files
        ((World.serve S (oreq cname.chars mbits sys.client.data.seq))^[k] sys.world).files :=
      ⟨_, hmeans.name.trans hname, (serve_iterate k).1⟩
    dsimp only
    by_cases hopened : checkOpened (sys.client.rfdev i) g o = (SYSERR, g)
    · rw [hopened] at htalk
      refine ⟨_, _, _, _, htalk, ?_, hgsound, n + 1, le_rfl, hfresh⟩
      rw [hkeep]
      exact .notOpened hfiles
    · -- the server has answered, and so it has been asked
      obtain ⟨hk, heq⟩ : 0 < k ∧ checkOpened (sys.client.rfdev i) g o =
          (sys.client.rfdev i, { g with rfpos := 0, used := true }) := by
        unfold checkOpened at hopened ⊢
        split_ifs at hopened ⊢ with hsys htime hst
        · exact absurd rfl hopened
        · exact absurd rfl hopened
        · exact absurd rfl hopened
        · rcases ha with hfail | ⟨j, old, hj, -, -⟩
          · rcases hfail with hv | hv
            · exact absurd hv hsys
            · exact absurd hv htime
          · exact ⟨lt_of_le_of_lt (Nat.zero_le j) hj, rfl⟩
      rw [heq] at htalk
      refine ⟨_, _, _, _, htalk, ?_, hready.sound 0, n + 1, le_rfl, hfresh⟩
      have hopen := handle_used (f := { g with rfpos := 0, used := true }) rfl
      have hdoes : Does S sys.client.rfdev _ _ _ _ :=
        .opened hnone hready.length hmode hk hfiles
      rw [hopen, hready.rfmode]
      dsimp only
      rw [hready.chars]
      exact hdoes

theorem opens_stepped {cname mode : CString} (hs : sys.Sound first n) (hn : n < 2 ^ 32) :
    Stepped S first n sys (.opens cname mode) (sys.step S e (.opens cname mode)) := by
  unfold Sys.step rfsOpen
  dsimp only
  cases hfree : sys.client.freeBlock with
  | none => exact ⟨.failed _ sys.shown, ⟨n, Nat.le_succ n, hs⟩, rfl⟩
  | some i =>
    obtain ⟨v, g, d', w', htalk, h⟩ := opens_talked (S := S) (e := e) cname mode hs hn
      (freeBlock_free hfree)
    dsimp only
    rw [talk_map, htalk]
    exact h.stepped hs

theorem control_stepped {func : Int} {cname : CString} (hs : sys.Sound first n) (hn : n < 2 ^ 32)
    (hname : cname.chars.length < RF_NAMLEN) :
    Stepped S first n sys (.control i func cname) (sys.step S e (.control i func cname)) := by
  have hrefused : ∀ v, Stepped S first n sys (.control i func cname) ((v, []), sys) := fun v =>
    ⟨.controlled (⟨[], rfl, rfl⟩ : Requested S [] 0 _ _), ⟨n, Nat.le_succ n, hs⟩, rfl⟩
  -- a request for a file, and what is made of the answer
  have hasked : ∀ (msg : UInt32 → List UInt8) (mtype : UInt16) (rlen : Nat) (next : Outcome → Int)
      (file : List UInt8), HDR_LEN ≤ rlen →
      Says mtype sys.client.data.seq file (msg sys.client.data.seq) →
      let r := sys.talk S e (.asks msg mtype rlen next)
      Stepped S first n sys (.control i func cname)
        ((r.1, []), ⟨{ sys.client with data := r.2.1 }, r.2.2⟩) := by
    intro msg mtype rlen next file hr hmeans
    obtain ⟨o, k, -, htalk, -⟩ := talk_asks (S := S) (e := e) mtype msg next hs.fresh hn hr
    dsimp only
    rw [htalk]
    exact ⟨.controlled ⟨_, hmeans.name, (serve_iterate k).1⟩,
      ⟨n + 1, le_rfl, hs.cblks, hs.fresh.served hmeans.full hmeans.seq k⟩, rfl⟩
  unfold Sys.step rfsControl
  dsimp only
  by_cases hlong : ¬(chars (sys.client.rfltab i).rfname).length < RF_NAMLEN - 1
  · rw [if_pos hlong]
    exact hrefused SYSERR
  rw [if_neg hlong]
  cases controlType func with
  | some mtype =>
    have hchars := chars_of_nonzero cname
    exact hasked _ mtype hdrSize _ _ (by decide) (hdrReq_means (hchars.symm ▸ hname))
  | none =>
    dsimp only
    by_cases hsize : func = RFS_CTL_SIZE
    · rw [if_pos hsize]
      have hshort : (chars (sys.client.rfltab i).rfname).length < RF_NAMLEN :=
        lt_of_lt_of_le (not_not.mp hlong) (Nat.sub_le _ _)
      exact hasked _ _ sresSize _ _ (by decide) (sreq_means hshort)
    · rw [if_neg hsize]
      exact hrefused SYSERR

/-- **Every call** does what local files allow. -/
theorem step_stepped (hs : sys.Sound first n) (hn : n < 2 ^ 32) (c : Call) (hc : Sys.Ready e c) :
    Stepped S first n sys c (sys.step S e c) := by
  cases c with
  | read i count =>
    obtain ⟨r, d', w', htalk, h⟩ := read_talked (S := S) (e := e) hs hn i count
    unfold Sys.step
    dsimp only
    rw [htalk]
    exact h.stepped hs
  | write i buff count =>
    obtain ⟨v, g, d', w', htalk, h⟩ := write_talked (S := S) (e := e) e.beyond hs hn i hc.1 hc.2
    unfold Sys.step Sys.onFile
    dsimp only
    rw [htalk]
    exact h.stepped hs
  | getc i =>
    obtain ⟨v, g, d', w', htalk, h⟩ := getc_talked (S := S) (e := e) hs hn i e.ch
    unfold Sys.step Sys.onFile
    dsimp only
    rw [htalk]
    exact h.stepped hs
  | putc i ch =>
    obtain ⟨v, g, d', w', htalk, h⟩ := putc_talked (S := S) (e := e) e.beyond hs hn i ch hc
    unfold Sys.step Sys.onFile
    dsimp only
    rw [htalk]
    exact h.stepped hs
  | seek i pos => exact (seek_talked hs i pos).stepped hs
  | close i => exact (close_talked hs i).stepped hs
  | opens cname mode => exact opens_stepped hs hn
  | control i func cname => exact control_stepped hs hn hc

/-- The state after `rflInit` and `rfsInit`, before the server has sent anything. -/
structure Sys.Started (s : Sys σ) : Prop where
  rfltab : ∀ i, s.client.rfltab i = rflInit
  data : s.client.data = rfsInit
  replies : s.world.replies = []

theorem Sys.Started.sound (h : sys.Started) : sys.Sound 1 0 := by
  refine ⟨fun i => ?_, by rw [h.data]; rfl, fun r hr => ?_⟩
  · rw [h.rfltab i]
    exact ⟨List.length_replicate, nofun, nofun⟩
  · rw [h.replies] at hr
    cases hr

theorem run_refines : ∀ (calls : List (Env × Call)) {n : Nat} {sys : Sys σ},
    sys.Sound first n → n + calls.length ≤ 2 ^ 32 → (∀ x ∈ calls, Sys.Ready x.1 x.2) →
    Runs S sys.client.rfdev sys.shown (calls.map Prod.snd) (sys.run S calls).1
      (sys.run S calls).2.shown ∧ ∃ n' ≤ n + calls.length, (sys.run S calls).2.Sound first n'
  | [], n, sys, hs, _, _ => ⟨.nil sys.shown, n, le_rfl, hs⟩
  | (e, c) :: calls, n, sys, hs, hlen, hready => by
    rw [List.length_cons] at hlen ⊢
    rw [List.forall_mem_cons] at hready
    have hstep := step_stepped (S := S) hs (by omega) c hready.1
    obtain ⟨n', hn', hs'⟩ := hstep.sound
    obtain ⟨hruns, n'', hn'', hsound⟩ := run_refines calls hs' (by omega) hready.2
    rw [hstep.dev] at hruns
    exact ⟨.cons hstep.does hruns, n'', by omega, hsound⟩

/-- The first request is lost, two copies of the second arrive and the reply is lost, and
of the third both arrive. -/
def badHops : Nat → Hop
  | 0 => ⟨true, 0, .nothing⟩
  | 1 => ⟨true, 2, .nothing⟩
  | _ => ⟨true, 1, .reply 0⟩

def badEnv : Env := ⟨badHops, [], List.replicate wreqSize 0, [], 0⟩

/-- One file, `a`, with three bytes. -/
def threeBytes : Sys Named where
  client := ⟨fun _ => rflInit, fun i => i.val, rfsInit⟩
  world := ⟨fun name => if name = [97] then some [1, 2, 3] else none, []⟩

def firstFile : Fin Nrfl := ⟨0, by decide⟩

/-- The file is opened, its second byte is written, and all of it is read. -/
def someCalls : List (Env × Call) :=
  [(badEnv, .opens ⟨[97], fun h => absurd (List.mem_singleton.mp h) (by decide)⟩
    ⟨[], fun h => absurd h List.not_mem_nil⟩), (badEnv, .seek firstFile 1),
    (badEnv, .write firstFile [7] 1), (badEnv, .seek firstFile 0), (badEnv, .read firstFile 9)]

example : (threeBytes.run plain someCalls).1 =
    [(0, []), (1, []), (1, []), (1, []), (3, [some 1, some 7, some 3])] := by decide +kernel

end Xinu.Rfs
