import XinuCMips.Rfs.Remote

/-!
# Attempts that get through

`rfscomm` sends its request up to `RF_RETRIES` times. If one of the attempts brings the
request to the server and the newest reply back, and no attempt before it has failed in
the network code of the machine itself, the call has an answer: losses, repetitions and
old replies before that do no harm.

* `exchange_through` — the loop ends with a reply;
* `call_gets_through` — **after any run of calls**, a read or a write on an open file
  that gets through does what it says, unless the server refuses.
-/

namespace Xinu.Rfs

open Bytes Net

/-- One of the attempts, the `p`-th, gets through. -/
structure ThroughAt (hops : Nat → Hop) (p : Nat) : Prop where
  sends : ∀ j ≤ p, (hops j).send = true
  quiet : ∀ j < p, (hops j).arrives ≠ .failure
  copies : 0 < (hops p).copies
  reply : (hops p).arrives = .reply 0

def GetsThrough (hops : Nat → Hop) : Prop := ∃ p < RF_RETRIES, ThroughAt hops p

variable {σ : Type} {S : Server σ} {m : List UInt8} {hops : Nat → Hop} {w : World σ}
  {seq : UInt32} {mtype : UInt16} {rlen p : Nat}

/-- What an attempt that gets through brings is an answer to the message. -/
theorem recv_through (h : ThroughAt hops p) :
    ∃ s, (w.round S m hops p).recv = .data (S.serve m s).2 := by
  obtain ⟨c, hc⟩ := Nat.exists_eq_add_one_of_ne_zero (Nat.pos_iff_ne_zero.mp h.copies)
  unfold World.round World.after World.hop
  dsimp only
  rw [if_pos (h.sends p le_rfl), h.reply, hc, Function.iterate_succ_apply']
  exact ⟨_, rfl⟩

/-- The answer passes the tests of `rfscomm`. -/
theorem rfsJudge_answer (hr : HDR_LEN ≤ rlen) (hfull : HDR_LEN ≤ m.length)
    (htype : typeOf m = mtype.toNat) (hseq : seqOf m = seq.toNat) (hsmall : mtype.toNat < 256)
    (s : σ) (buf : List UInt8) : ∃ x : Nat, rfsJudge seq mtype (fill rlen (S.serve m s).2 buf)
      (min (S.serve m s).2.length rlen) = .done x := by
  obtain ⟨hlen, hs, ht⟩ := S.answers m s hfull
  refine ⟨_, rfsJudge_done.mpr ⟨by rw [seqOf_fill hr hlen, hs, hseq], ?_, rfl⟩⟩
  have hor : mtype.toNat ||| MSG_RESPONSE < 2 ^ 9 :=
    Nat.or_lt_two_pow (lt_trans hsmall (by decide)) (by decide)
  rw [typeMatches_fill hr hlen]
  unfold typeMatches
  rw [ht, htype, beq_iff_eq]
  exact Int.bmod_eq_of_le (by omega) (by omega)

/-- **The loop ends with a reply** if one of its rounds is an attempt that gets through. -/
theorem exchange_through (hr : HDR_LEN ≤ rlen) (hfull : HDR_LEN ≤ m.length)
    (htype : typeOf m = mtype.toNat) (hseq : seqOf m = seq.toNat) (hsmall : mtype.toNat < 256)
    (h : ThroughAt hops p) (n : Nat) : ∀ (k sends : Nat) (buf : List UInt8), k ≤ p → p < k + n →
    ∃ x : Nat, (exchange (rfsJudge seq mtype) rlen ((List.range' k n).map (w.round S m hops)) true
      sends buf).value = x := by
  induction n with
  | zero => exact fun k sends buf hk hp => absurd hp (by omega)
  | succ n ih =>
    intro k sends buf hk hp
    have hsend : (w.round S m hops k).send = true := h.sends k hk
    rw [List.range'_succ, List.map_cons]
    unfold exchange
    rw [if_neg (fun hs => hs.2 hsend), if_pos rfl]
    dsimp only
    rcases Nat.eq_or_lt_of_le hk with rfl | hlt
    · obtain ⟨s, hs⟩ := recv_through (S := S) (m := m) (w := w) h
      obtain ⟨x, hx⟩ := rfsJudge_answer (S := S) hr hfull htype hseq hsmall s buf
      rw [hs]
      dsimp only
      rw [hx]
      exact ⟨x, rfl⟩
    · have hnext := fun buf' => ih (k + 1) (sends + 1) buf' hlt (by omega)
      cases hrecv : (w.round S m hops k).recv with
      | timeout => exact hnext buf
      | error =>
        -- only a failure of the machine itself is an error
        have hquiet := h.quiet k hlt
        unfold World.round at hrecv
        dsimp only at hrecv
        cases ha : (hops k).arrives with
        | nothing =>
          rw [ha] at hrecv
          cases hrecv
        | failure => exact absurd ha hquiet
        | reply i =>
          rw [ha] at hrecv
          unfold World.recv at hrecv
          dsimp only at hrecv
          split at hrecv
          · cases hrecv
          · cases hrecv
      | data bytes =>
        dsimp only
        cases hj : rfsJudge seq mtype (fill rlen bytes buf) (min bytes.length rlen) with
        | again x =>
          obtain rfl := rfsJudge_again hj
          exact hnext (fill rlen bytes buf)
        | done v =>
          obtain ⟨-, -, rfl⟩ := rfsJudge_done.mp hj
          exact ⟨_, rfl⟩

variable {first : UInt32} {n : Nat} {sys : Sys σ} {e : Env} {α : Type} {name : List UInt8}

/-- **A dialog that gets through** has an answer. -/
theorem talk_through (msg : UInt32 → List UInt8) (next : Outcome → α)
    (hf : Fresh first n sys.client.data sys.world) (hn : n < 2 ^ 32) (hr : HDR_LEN ≤ rlen)
    (hmeans : Says mtype sys.client.data.seq name (msg sys.client.data.seq))
    (hsmall : mtype.toNat < 256) (h : GetsThrough e.hops) :
    ∃ o k, sys.talk S e (.asks msg mtype rlen next) = (next o, ⟨sys.client.data.seq + 1, true⟩,
        (World.serve S (msg sys.client.data.seq))^[k] sys.world) ∧ ¬Fails o ∧
      Answered S (msg sys.client.data.seq) rlen sys.world.files k o := by
  obtain ⟨p, hp, hthrough⟩ := h
  obtain ⟨o, k, ho, htalk, ha⟩ := talk_asks (S := S) (e := e) mtype msg next hf hn hr
  obtain ⟨x, hx⟩ := exchange_through (S := S) (w := sys.world) hr hmeans.full hmeans.type hmeans.seq
    hsmall hthrough RF_RETRIES 0 0 e.resp (Nat.zero_le p) (by omega)
  rw [← List.range_eq_range'] at hx
  have hvalue : o.value = x := by
    rw [ho]
    exact hx
  obtain ⟨hsys, htime⟩ := length_ok hvalue
  exact ⟨o, k, htalk, fun hfail => hfail.elim hsys htime, ha⟩

variable {i : Fin Nrfl} {count : Int} {data buff : List UInt8}

theorem read_through (hs : sys.Sound first n) (hn : n < 2 ^ 32) (h : GetsThrough e.hops)
    (hasks : Asks count (sys.client.rfltab i))
    (hread : S.read (chars (sys.client.rfltab i).rfname) (sys.client.rfltab i).rfpos.toNat
      count.toNat sys.world.files = some data) :
    (sys.step S e (.read i count)).1 = ((data.length : Int), data.map some) := by
  obtain ⟨hmeans, -, -⟩ := rreq_means sys.client.data.seq hasks
  obtain ⟨o, k, htalk, hok, ha⟩ := talk_through (S := S) (rreq (sys.client.rfltab i) count)
    (checkResponse (sys.client.rfltab i)) hs.fresh hn (by decide : HDR_LEN ≤ rresSize) hmeans
    (by decide) h
  unfold Sys.step
  dsimp only
  rw [reading_asks hasks, htalk]
  rcases read_answered hasks ha with ⟨hno | hno, -⟩ | ⟨data', hread', -, hr⟩
  · exact absurd hno hok
  · cases hread.symm.trans hno
  · obtain rfl := Option.some.inj (hread.symm.trans hread')
    dsimp only
    rw [hr]

theorem write_through {files : σ} (hs : sys.Sound first n) (hn : n < 2 ^ 32)
    (h : GetsThrough e.hops) (hasks : AsksWrite count (sys.client.rfltab i))
    (hbuff : count ≤ buff.length) (hstack : e.stack.length = wreqSize)
    (hwrite : S.write (chars (sys.client.rfltab i).rfname) (sys.client.rfltab i).rfpos.toNat
      (buff.take count.toNat) sys.world.files = some files) :
    (sys.step S e (.write i buff count)).1 = (count, []) ∧
      (sys.step S e (.write i buff count)).2.world.files = files := by
  obtain ⟨-, hmeans, -⟩ := wreq_means e.beyond sys.client.data.seq (hs.cblks i) hasks hbuff
    hstack
  obtain ⟨o, k, htalk, hok, ha⟩ := talk_through (S := S)
    (wreq (sys.client.rfltab i) e.beyond e.stack buff count)
    (checkWritten (sys.client.rfltab i)) hs.fresh hn (by decide : HDR_LEN ≤ wresSize) hmeans
    (by decide) h
  have hanswer := write_answered (hs.cblks i) hasks hbuff hstack ha
  dsimp only at hanswer
  rw [hwrite] at hanswer
  obtain ⟨hiter, hres⟩ := hanswer
  rcases hres with ⟨hno, -⟩ | ⟨hk, hr⟩
  · exact absurd hno hok
  · have hfiles := (serve_iterate (S := S) (m := wreq (sys.client.rfltab i) e.beyond e.stack buff
      count sys.client.data.seq) (w := sys.world) k).1
    rw [hiter, if_neg (Nat.pos_iff_ne_zero.mp hk)] at hfiles
    unfold Sys.step Sys.onFile
    dsimp only
    rw [rflWrite_asks hasks, htalk, hr]
    exact ⟨rfl, hfiles⟩

theorem badHops_through : GetsThrough badHops :=
  ⟨2, by decide, by decide, by decide, by decide, rfl⟩

end Xinu.Rfs
