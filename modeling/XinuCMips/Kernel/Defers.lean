import XinuCMips.Kernel.Calls

/-!
# Only `sched_cntl` defers rescheduling

Every other call, every rest of a call and the clock leave `Defer.ndefers` as
they find it (`step_ndefers`).
-/

namespace Xinu

/-- No process asks for rescheduling to be deferred. -/
def NoDefer (_ : Kernel QTab) (i : Input) : Prop := ∀ d, i ≠ .call (.sched_cntl d)

variable {k : Kernel QTab}

/-! ## Parts of calls -/

theorem enqueue_ndefers (pid q : Int) (k : Kernel QTab) :
    (enqueue pid q k).2.ndefers = k.ndefers := by
  unfold enqueue
  split <;> rfl

theorem insert_ndefers (pid q key : Int) (k : Kernel QTab) :
    (insert pid q key k).2.ndefers = k.ndefers := by
  unfold insert
  split <;> rfl

theorem insertd_ndefers (pid q key : Int) (k : Kernel QTab) :
    (insertd pid q key k).2.ndefers = k.ndefers := by
  unfold insertd
  split <;> rfl

theorem unsleep_ndefers (pid : Int) (k : Kernel QTab) :
    (unsleep pid k).2.ndefers = k.ndefers := by
  unfold unsleep
  split
  · rfl
  · split <;> rfl

theorem switch_ndefers (k : Kernel QTab) : (switch k).ndefers = k.ndefers := by
  unfold switch
  dsimp only
  split <;> rfl

theorem resched_ndefers (k : Kernel QTab) : (resched k).ndefers = k.ndefers := by
  unfold resched
  split
  · rfl
  · dsimp only
    split
    · split
      · rfl
      · rw [switch_ndefers]
        exact insert_ndefers _ _ _ (k.setState k.currpid .ready)
    · exact switch_ndefers k

theorem ready_ndefers (pid : Int) (b : Bool) (k : Kernel QTab) :
    (ready pid b k).ndefers = k.ndefers := by
  unfold ready
  split
  · rfl
  · dsimp only
    split
    · rw [resched_ndefers]
      exact insert_ndefers _ _ _ (k.setState pid .ready)
    · exact insert_ndefers _ _ _ (k.setState pid .ready)

theorem newpid_ndefers : ∀ (n : Nat) (k : Kernel QTab), (newpid n k).2.ndefers = k.ndefers
  | 0, _ => rfl
  | n + 1, k => by
    unfold newpid
    dsimp only
    split
    · rfl
    · exact newpid_ndefers n _

theorem newsem_ndefers : ∀ (n : Nat) (k : Kernel QTab), (newsem n k).2.ndefers = k.ndefers
  | 0, _ => rfl
  | n + 1, k => by
    unfold newsem
    dsimp only
    split
    · rfl
    · exact newsem_ndefers n _

theorem drainFirst_ndefers (s : Int) (k : Kernel QTab) :
    (drainFirst s k).2.ndefers = k.ndefers := ready_ndefers _ _ _

theorem signalUnit_ndefers (s : Int) (k : Kernel QTab) :
    (signalUnit s k).2.ndefers = k.ndefers := by
  unfold signalUnit
  dsimp only
  split <;> rfl

theorem signalnLoop_ndefers (s : Int) : ∀ (n : Nat) (k : Kernel QTab),
    (signalnLoop s n k).ndefers = k.ndefers
  | 0, _ => rfl
  | n + 1, k => by
    have hu := signalUnit_ndefers s k
    unfold signalnLoop
    split <;> rename_i heq <;> rw [heq] at hu <;> rw [signalnLoop_ndefers s n]
    · rw [ready_ndefers]
      exact hu
    · exact hu

theorem semdeleteLoop_ndefers (s : Int) : ∀ (n : Nat) (k : Kernel QTab),
    (semdeleteLoop s n k).ndefers = k.ndefers
  | 0, _ => rfl
  | n + 1, k => by
    unfold semdeleteLoop
    dsimp only
    split
    · rw [semdeleteLoop_ndefers s n, drainFirst_ndefers]
      rfl
    · rfl

theorem semresetLoop_ndefers (s : Int) : ∀ (n : Nat) (k : Kernel QTab),
    (semresetLoop s n k).ndefers = k.ndefers
  | 0, _ => rfl
  | n + 1, k => by
    unfold semresetLoop
    split
    · rfl
    · rw [semresetLoop_ndefers s n, drainFirst_ndefers]

theorem wakeupLoop_ndefers : ∀ (n : Nat) (k : Kernel QTab), (wakeupLoop n k).ndefers = k.ndefers
  | 0, _ => rfl
  | n + 1, k => by
    unfold wakeupLoop
    split
    · dsimp only
      rw [wakeupLoop_ndefers n, ready_ndefers]
      rfl
    · rfl

theorem send_ndefers (pid msg : Int) (k : Kernel QTab) : (send pid msg k).ndefers = k.ndefers := by
  unfold send
  split
  · rfl
  · split
    · rfl
    · dsimp only
      split
      · rw [ready_ndefers]
        rfl
      · split
        · rw [ready_ndefers]
          exact unsleep_ndefers pid _
        · rfl

theorem recvtimeRest_ndefers (k : Kernel QTab) : (recvtimeRest k).ndefers = k.ndefers := by
  unfold recvtimeRest
  split <;> rfl

theorem clkRest_ndefers (k : Kernel QTab) : (clkRest k).ndefers = k.ndefers := by
  unfold clkRest
  split
  · exact resched_ndefers _
  · rfl

theorem countTick_ndefers (k : Kernel QTab) : (countTick k).ndefers = k.ndefers := by
  unfold countTick
  split <;> rfl

theorem killUnsleep_ndefers (pid : Int) (k : Kernel QTab) :
    (killUnsleep pid k).ndefers = k.ndefers := unsleep_ndefers pid k

theorem killRest_ndefers (pid : Int) (k : Kernel QTab) :
    (killRest pid k).ndefers = k.ndefers := by
  unfold killRest
  dsimp only
  split
  · exact resched_ndefers _
  · exact killUnsleep_ndefers pid _
  · exact killUnsleep_ndefers pid _
  · rfl
  · rfl
  · rfl

theorem clkhandler_ndefers (k : Kernel QTab) : (clkhandler k).ndefers = k.ndefers := by
  unfold clkhandler
  dsimp only
  split
  · split
    · unfold wakeup
      rw [resched_ndefers, wakeupLoop_ndefers]
      exact countTick_ndefers k
    · rw [clkRest_ndefers]
      exact countTick_ndefers k
  · rw [clkRest_ndefers]
    exact countTick_ndefers k

/-! ## Calls and steps -/

theorem exec_ndefers {c : Call} (hc : ∀ d, c ≠ .sched_cntl d) (k : Kernel QTab) :
    (exec c k).ndefers = k.ndefers := by
  cases c with
  | create ssize priority =>
    show (create ssize priority k).ndefers = _
    unfold create
    dsimp only
    split
    · rfl
    · have hn := newpid_ndefers NPROC.toNat k
      split
      · rename_i heq
        rw [heq] at hn
        exact hn
      · rename_i heq
        rw [heq] at hn
        split <;> exact hn
  | resume pid =>
    show (resume pid k).ndefers = _
    unfold resume
    split
    · rfl
    · split
      · rfl
      · exact ready_ndefers _ _ _
  | suspend pid =>
    show (suspend pid k).ndefers = _
    unfold suspend
    split
    · rfl
    · split
      · rfl
      · split
        · rfl
        · exact resched_ndefers _
  | kill pid =>
    show (kill pid k).ndefers = _
    unfold kill
    split
    · rfl
    · dsimp only
      split
      · rfl
      · exact send_ndefers _ _ _
  | chprio pid newprio =>
    show (chprio pid newprio k).ndefers = _
    unfold chprio
    split <;> rfl
  | semcreate count =>
    show (semcreate count k).ndefers = _
    unfold semcreate
    split
    · rfl
    · have hn := newsem_ndefers NSEM.toNat k
      split <;> rename_i heq <;> rw [heq] at hn <;> exact hn
  | wait sem =>
    show (wait sem k).ndefers = _
    unfold wait
    split
    · rfl
    · dsimp only
      split
      · rw [resched_ndefers]
        exact enqueue_ndefers _ _ _
      · rfl
  | signal sem =>
    show (signal sem k).ndefers = _
    unfold signal
    split
    · rfl
    · have hu := signalUnit_ndefers sem k
      split <;> rename_i heq <;> rw [heq] at hu
      · rw [ready_ndefers]
        exact hu
      · exact hu
  | signaln sem count =>
    show (signaln sem count k).ndefers = _
    unfold signaln
    split
    · rfl
    · rw [resched_ndefers]
      exact signalnLoop_ndefers _ _ _
  | semreset sem count =>
    show (semreset sem count k).ndefers = _
    unfold semreset
    split
    · rfl
    · dsimp only
      rw [resched_ndefers]
      exact semresetLoop_ndefers _ _ _
  | semdelete sem =>
    show (semdelete sem k).ndefers = _
    unfold semdelete
    split
    · rfl
    · dsimp only
      rw [resched_ndefers]
      exact semdeleteLoop_ndefers _ _ _
  | send pid msg => exact send_ndefers pid msg k
  | receive =>
    show (receive k).ndefers = _
    unfold receive
    split
    · exact resched_ndefers _
    · rfl
  | recvtime maxwait =>
    show (recvtime maxwait k).ndefers = _
    have hi := insertd_ndefers k.currpid sleepq maxwait k
    unfold recvtime
    split
    · rfl
    · split
      · dsimp only
        split
        · rfl
        · rw [resched_ndefers]
          exact hi
      · exact recvtimeRest_ndefers k
  | recvclr =>
    show (recvclr k).ndefers = _
    unfold recvclr
    split <;> rfl
  | sleepms delay =>
    show (sleepms delay k).ndefers = _
    have hi := insertd_ndefers k.currpid sleepq (int32 delay) k
    unfold sleepms
    split
    · exact resched_ndefers _
    · dsimp only
      split
      · rfl
      · rw [resched_ndefers]
        exact hi
  | yield => exact resched_ndefers _
  | sched_cntl d => exact absurd rfl (hc d)

theorem step_ndefers {i : Input} (hi : NoDefer k i) : (step k i).ndefers = k.ndefers := by
  cases i with
  | call c => exact exec_ndefers (fun d hd => hi d (by rw [hd])) k
  | cont =>
    cases hf : k.frames k.currpid with
    | nil => simp [step, hf]
    | cons f fs =>
      rw [show step k .cont = runFrame f k.pop by simp only [step, hf]]
      cases f with
      | ret v => rfl
      | killRest p b => exact killRest_ndefers p _
      | killUnsleep p => exact killUnsleep_ndefers p _
      | suspendRest p => rfl
      | receiveRest => rfl
      | recvtimeRest => exact recvtimeRest_ndefers _
      | clkRest => exact clkRest_ndefers _
  | tick => exact clkhandler_ndefers k

end Xinu
