import XinuCMips.Rds.Device

/-!
# The end of a read

When `rdsprocess` has delivered a block, `rdsRead` copies it, gives its
reference back, and if that was the last one walks over the cache to see
whether an item in front of the buffer has the same block. The loop has no step
to the next item: `cptr` is the head of the cache in every turn.

* `walk`           — the loop, turn by turn;
* `walk_iff`       — it ends exactly if it does not begin;
* `readDone_walks` — `readDone` is what the loop comes to;
* `returns_iff`    — **the read returns exactly if the buffer is at the head of
  the cache, or another reader still has it**.
-/

namespace Xinu.Rds

/-- A turn of the loop at `cptr`, which reads the block number there; the heads
and tails of the lists are no buffers, and `other` is what memory holds. -/
def turn (other : Node → UInt32) (blk : UInt32) (i : Bufid) (cptr : Node) (s : Device) : Device :=
  let blknum :=
    match cptr with
    | .buf c => (s.buf c).rdBlknum
    | node => other node
  if blknum = blk then { s with lists := (s.lists.unlink i).free i } else s

/-- The loop `while (cptr != bptr)`, for a number of turns. -/
def walk (other : Node → UInt32) (blk : UInt32) (i : Bufid) :
    Nat → Node → Device → Option Device
  | 0, _, _ => none
  | n + 1, cptr, s =>
    if cptr = .buf i then some s else walk other blk i n cptr (turn other blk i cptr s)

/-- `rdsRead` behind `receive`, if the loop ends within a number of turns. -/
def readRest (other : Node → UInt32) (turns : Nat) (s : Device) (pid : Pid) (blk : UInt32)
    (i : Bufid) : Option (Device × List Event) :=
  let data := (s.buf i).rdBlock
  let refcnt := (s.buf i).rdRefcnt - 1
  let s := { s with
    buf := Function.update s.buf i { s.buf i with rdRefcnt := refcnt }
    prmsg := Function.update s.prmsg pid none }
  let ends := if refcnt ≤ 0 then walk other blk i turns (s.lists.rdNext .chead) s else some s
  ends.map fun s => ({ s with calls := Function.update s.calls pid none }, [.got pid blk data])

variable {other : Node → UInt32} {s : Device} {pid : Pid} {blk : UInt32} {i : Bufid}

/-- **The loop ends exactly if it does not begin**: no turn moves `cptr`. -/
theorem walk_iff (n : Nat) : ∀ (cptr : Node) (s s' : Device),
    walk other blk i n cptr s = some s' ↔ 0 < n ∧ cptr = .buf i ∧ s' = s := by
  induction n with
  | zero => exact fun _ _ _ => iff_of_false nofun fun h => Nat.lt_irrefl 0 h.1
  | succ n ih =>
    intro cptr s s'
    unfold walk
    by_cases hc : cptr = .buf i
    · rw [if_pos hc]
      refine ⟨fun h => ⟨Nat.succ_pos n, hc, (Option.some.inj h).symm⟩, ?_⟩
      rintro ⟨-, -, rfl⟩
      rfl
    · rw [if_neg hc, ih]
      exact iff_of_false (fun h => hc h.2.1) fun h => hc h.2.1

/-- The condition under which `rdsRead` leaves its loop. -/
def Leaves (s : Device) (i : Bufid) : Prop :=
  1 < (s.buf i).rdRefcnt ∨ s.lists.rdNext .chead = .buf i

instance (s : Device) (i : Bufid) : Decidable (Leaves s i) := by
  unfold Leaves
  infer_instance

theorem Leaves.not_hung (h : Leaves s i) :
    ¬ ((s.buf i).rdRefcnt - 1 ≤ 0 ∧ s.lists.rdNext .chead ≠ .buf i) := by
  rintro ⟨hle, hne⟩
  rcases h with h | h
  · omega
  · exact hne h

/-- When the loop is left, the read has come to what `readDone` says. -/
theorem readRest_leaves (h : Leaves s i) (n : Nat) :
    readRest other (n + 1) s pid blk i = some (s.readDone pid blk i) := by
  have hnot := h.not_hung
  unfold readRest Device.readDone
  dsimp only
  rw [if_neg hnot]
  by_cases hle : (s.buf i).rdRefcnt - 1 ≤ 0
  · rw [if_pos hle]
    have hhead : s.lists.rdNext .chead = .buf i := by
      by_contra hne
      exact hnot ⟨hle, hne⟩
    rw [(walk_iff (n + 1) _ _ _).mpr ⟨Nat.succ_pos n, hhead, rfl⟩]
    rfl
  · rw [if_neg hle]
    rfl

/-- Otherwise it goes on for ever, and `readDone` says so. -/
theorem readRest_hangs (h : ¬ Leaves s i) :
    (∀ n, readRest other n s pid blk i = none) ∧ s.readDone pid blk i = s.halt .hung := by
  unfold Leaves at h
  rw [not_or] at h
  have hle : (s.buf i).rdRefcnt - 1 ≤ 0 := by omega
  refine ⟨fun n => ?_, if_pos ⟨hle, h.2⟩⟩
  unfold readRest
  dsimp only
  rw [if_pos hle]
  cases hw : walk other blk i n _ _ with
  | none => rfl
  | some s' => exact absurd ((walk_iff n _ _ _).mp hw).2.1 h.2

/-- **`readDone` is what the loop comes to**, however long one waits for it. -/
theorem readDone_walks (n : Nat) {r : Device × List Event}
    (h : readRest other n s pid blk i = some r) : s.readDone pid blk i = r := by
  by_cases hl : Leaves s i
  · cases n with
    | zero =>
      -- only a read that is not the last one needs no turn
      unfold readRest at h
      dsimp only at h
      by_cases hle : (s.buf i).rdRefcnt - 1 ≤ 0
      · rw [if_pos hle] at h
        cases h
      · rw [if_neg hle] at h
        have hone : readRest other 1 s pid blk i = some r := by
          unfold readRest
          dsimp only
          rw [if_neg hle]
          exact h
        exact Option.some.inj ((readRest_leaves hl 0).symm.trans hone)
    | succ n => exact Option.some.inj ((readRest_leaves hl n).symm.trans h)
  · rw [(readRest_hangs hl).1 n] at h
    cases h

/-- A read that has its block returns with it. -/
def Returns (other : Node → UInt32) (s : Device) (pid : Pid) (blk : UInt32) (i : Bufid) : Prop :=
  ∃ n s', readRest other n s pid blk i = some (s', [.got pid blk (s.buf i).rdBlock])

/-- **A read that has its block returns with it exactly if the loop is left at
once**: another reader still has the buffer, or it is at the head of the
cache. -/
theorem returns_iff (other : Node → UInt32) (s : Device) (pid : Pid) (blk : UInt32) (i : Bufid) :
    Returns other s pid blk i ↔ 1 < (s.buf i).rdRefcnt ∨ s.lists.rdNext .chead = .buf i := by
  constructor
  · rintro ⟨n, s', h⟩
    by_contra hno
    rw [(readRest_hangs hno).1 n] at h
    cases h
  · intro h
    have hgot : (s.readDone pid blk i).2 = [.got pid blk (s.buf i).rdBlock] := by
      unfold Device.readDone
      dsimp only
      rw [if_neg (Leaves.not_hung h)]
    refine ⟨1, (s.readDone pid blk i).1, (readRest_leaves h 0).trans (congrArg some ?_)⟩
    exact Prod.ext rfl hgot

/-- A block is read and delivered, and before the reader runs `rdsprocess` puts
the block of a write request in front of it. -/
theorem not_returns :
    ¬ ∀ disk tr s, (machine disk).Run (fun _ _ => True) tr s → s.halted = false →
      ∀ pid blk i, s.calls pid = some (.receive (some blk)) → s.prmsg pid = some (some i) →
        Returns (fun _ => 0) s pid blk i := by
  intro h
  have hrun : ((machine fun _ => []).exec (fun _ _ => True) (boot (fun _ => []) 0 fun _ => {}) []
      [.read 1 5, .comWait, .write 2 6 [8], .comReply, .comWait]).any
      (fun r => decide (r.1.halted = false ∧ r.1.calls 1 = some (.receive (some 5)) ∧
        r.1.prmsg 1 = some (some 0) ∧ ¬ Leaves r.1 0)) := by
    decide +kernel
  obtain ⟨⟨s, tr⟩, hst, hs⟩ := (Option.any_eq_true _ _).mp hrun
  obtain ⟨hhalt, hcall, hmsg, hno⟩ := of_decide_eq_true hs
  exact hno ((returns_iff _ s 1 5 0).mp
    (h _ tr s (Machine.exec_run (.start (boot_started _ _ _)) hst) hhalt 1 5 0 hcall hmsg))

end Xinu.Rds
