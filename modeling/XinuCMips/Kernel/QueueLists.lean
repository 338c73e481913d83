import Mathlib.Data.List.Perm.Subperm
import XinuCMips.Lib.DoubleLinks
import XinuCMips.Kernel.Queue

/-!
# `queuetab` refines lists of process ids

`Linked t ls` says that `queuetab` holds, for each queue, exactly the
processes of a list, linked both ways between the queue's head and tail
nodes, and that no process is on two lists. Every queue function is then an
operation on the lists:

* `enqueue_linked`  — append at the tail;
* `getitem_linked`, `dequeue_linked`, `getfirst_linked` — remove;
* `insert_linked`   — insertion in descending key order (`insertDesc`);
* `insertd_linked`  — insertion in a delta list (`insertDelta`);
* `unsleep_linked`  — removal from a delta list (`Lists.unsleep`).
-/

namespace Xinu

open DoubleLinks

/-! ## Lists of process ids -/

/-- The processes of each queue, head first, and the keys of all processes. -/
structure Lists where
  on : Int → List Int
  key : Int → Int

def IsPid (p : Int) : Prop := 0 ≤ p ∧ p < NPROC

def IsSem (s : Int) : Prop := 0 ≤ s ∧ s < NSEM

/-- The ids that `newqueue` returned. -/
def IsQueue (q : Int) : Prop := ∃ i, 0 ≤ i ∧ i < NSEM + 2 ∧ q = semqueue i

theorem isQueue_semqueue {s : Int} (h : IsSem s) : IsQueue (semqueue s) :=
  ⟨s, h.1, by have := h.2; omega, rfl⟩

theorem isQueue_readylist : IsQueue readylist := ⟨NSEM, by decide, by decide, rfl⟩

theorem isQueue_sleepq : IsQueue sleepq := ⟨NSEM + 1, by decide, by decide, rfl⟩

theorem IsQueue.bounds {q : Int} (h : IsQueue q) : NPROC ≤ q ∧ q < NQENT - 1 ∧ q % 2 = 0 := by
  obtain ⟨i, h0, h1, rfl⟩ := h
  unfold semqueue NPROC NQENT NSEM at *
  exact ⟨by omega, by unfold NPROC; omega, by omega⟩

theorem IsQueue.not_bad {q : Int} (h : IsQueue q) : ¬ isbadqid q := by
  have := h.bounds
  unfold isbadqid NPROC at *
  omega

/-- Heads and tails of different queues are different nodes. -/
theorem IsQueue.ends_apart {q r : Int} (hq : IsQueue q) (hr : IsQueue r) (h : q ≠ r) :
    q ≠ r + 1 ∧ q + 1 ≠ r ∧ q + 1 ≠ r + 1 := by
  have := hq.bounds
  have := hr.bounds
  omega

theorem semqueue_inj {s r : Int} : semqueue s = semqueue r ↔ s = r := by
  unfold semqueue
  omega

theorem semqueue_ne_readylist {s : Int} (h : IsSem s) : semqueue s ≠ readylist := by
  have := h.2
  unfold semqueue readylist
  omega

theorem semqueue_ne_sleepq {s : Int} (h : IsSem s) : semqueue s ≠ sleepq := by
  have := h.2
  unfold semqueue sleepq
  omega

theorem readylist_ne_sleepq : readylist ≠ sleepq := by decide

namespace Lists

def set (ls : Lists) (q : Int) (l : List Int) : Lists :=
  { ls with on := Function.update ls.on q l }

def setKey (ls : Lists) (p v : Int) : Lists := { ls with key := Function.update ls.key p v }

/-- Take a process off whatever queue it is on. -/
def remove (ls : Lists) (p : Int) : Lists := { ls with on := fun q => (ls.on q).erase p }

@[simp] theorem set_on_same (ls : Lists) (q : Int) (l : List Int) : (ls.set q l).on q = l := by
  simp [set]

@[simp] theorem set_on_of_ne (ls : Lists) {q r : Int} (h : r ≠ q) (l : List Int) :
    (ls.set q l).on r = ls.on r := by
  simp [set, h]

@[simp] theorem set_key (ls : Lists) (q : Int) (l : List Int) : (ls.set q l).key = ls.key := rfl

@[simp] theorem remove_on (ls : Lists) (p q : Int) : (ls.remove p).on q = (ls.on q).erase p := rfl

@[simp] theorem remove_key (ls : Lists) (p : Int) : (ls.remove p).key = ls.key := rfl

@[simp] theorem setKey_on (ls : Lists) (p v : Int) : (ls.setKey p v).on = ls.on := rfl

@[simp] theorem setKey_key_same (ls : Lists) (p v : Int) : (ls.setKey p v).key p = v := by
  simp [setKey]

@[simp] theorem setKey_key_of_ne (ls : Lists) {p x : Int} (h : x ≠ p) (v : Int) :
    (ls.setKey p v).key x = ls.key x := by
  simp [setKey, h]

end Lists

/-- A process is on none of the lists. -/
def Lists.Off (ls : Lists) (p : Int) : Prop := ∀ q, IsQueue q → p ∉ ls.on q

/-! ## The representation -/

/-- `queuetab` holds the lists `ls`. -/
structure Linked (t : QTab) (ls : Lists) : Prop where
  links : ∀ q, IsQueue q →
    Links (fun i => (t i).qnext) (fun i => (t i).qprev) (q :: (ls.on q ++ [q + 1]))
  tails : ∀ q, IsQueue q → (t (q + 1)).qkey = MINKEY
  keys : ∀ p, IsPid p → (t p).qkey = ls.key p
  pids : ∀ q, IsQueue q → ∀ p ∈ ls.on q, IsPid p
  nodup : ∀ q, IsQueue q → (ls.on q).Nodup
  disjoint : ∀ q r p, IsQueue q → IsQueue r → p ∈ ls.on q → p ∈ ls.on r → q = r

variable {t : QTab} {ls : Lists}

/-- The nodes of a queue are all different. -/
theorem Linked.nodes_nodup (h : Linked t ls) {q : Int} (hq : IsQueue q) :
    (q :: (ls.on q ++ [q + 1])).Nodup := by
  have hb := hq.bounds
  have hp : ∀ p ∈ ls.on q, p < NPROC := fun p hp => (h.pids q hq p hp).2
  rw [List.nodup_cons, List.nodup_append]
  refine ⟨fun hmem => ?_, h.nodup q hq, by simp, fun a ha b hb' => ?_⟩
  · rcases List.mem_append.mp hmem with hm | hm
    · have := hp q hm
      omega
    · rw [List.mem_singleton] at hm
      omega
  · rw [List.mem_singleton] at hb'
    have := hp a ha
    omega

/-- The nodes of two queues are different. -/
theorem Linked.nodes_apart (h : Linked t ls) {q r x : Int} (hq : IsQueue q) (hr : IsQueue r)
    (hne : q ≠ r) (hx : x ∈ q :: (ls.on q ++ [q + 1])) : x ∉ r :: (ls.on r ++ [r + 1]) := by
  have hqb := hq.bounds
  have hrb := hr.bounds
  have hends := hq.ends_apart hr hne
  simp only [List.mem_cons, List.mem_append, List.not_mem_nil, or_false] at hx ⊢
  rintro (rfl | hxr | rfl)
  · rcases hx with rfl | hx | hx
    · exact hne rfl
    · have := (h.pids q hq _ hx).2
      omega
    · omega
  · have hxp := (h.pids r hr x hxr).2
    rcases hx with rfl | hx | rfl
    · omega
    · exact hne (h.disjoint q r x hq hr hx hxr)
    · omega
  · rcases hx with hx | hx | hx
    · omega
    · have := (h.pids q hq _ hx).2
      omega
    · omega

/-- The first node of a queue: its first process, or its tail. -/
theorem Linked.firstid_eq (h : Linked t ls) {q : Int} (hq : IsQueue q) :
    firstid t q = ((ls.on q).head?).getD (q + 1) := by
  have hl := h.links q hq
  cases hon : ls.on q with
  | nil =>
    rw [hon, List.nil_append, links_cons_cons] at hl
    exact hl.1.1
  | cons p l =>
    rw [hon, List.cons_append, links_cons_cons] at hl
    exact hl.1.1

theorem Linked.isempty_iff (h : Linked t ls) {q : Int} (hq : IsQueue q) :
    isempty t q ↔ ls.on q = [] := by
  have hf := h.firstid_eq hq
  have hb := hq.bounds
  unfold isempty
  cases hon : ls.on q with
  | nil =>
    rw [hon] at hf
    simp only [List.head?_nil, Option.getD_none] at hf
    constructor
    · exact fun _ => rfl
    · intro _
      omega
  | cons p l =>
    rw [hon] at hf
    simp only [List.head?_cons, Option.getD_some] at hf
    have := (h.pids q hq p (by simp [hon])).2
    constructor
    · intro hle
      omega
    · exact fun hnil => absurd hnil (by simp)

theorem Linked.nonempty_iff (h : Linked t ls) {q : Int} (hq : IsQueue q) :
    nonempty t q ↔ ls.on q ≠ [] := by
  have he := h.isempty_iff hq
  unfold isempty at he
  unfold nonempty
  rw [Ne, ← he]
  omega

/-- The key of the first process. -/
theorem Linked.firstkey_cons (h : Linked t ls) {q p : Int} {l : List Int} (hq : IsQueue q)
    (hon : ls.on q = p :: l) : firstid t q = p ∧ firstkey t q = ls.key p := by
  have hf := h.firstid_eq hq
  rw [hon] at hf
  simp only [List.head?_cons, Option.getD_some] at hf
  refine ⟨hf, ?_⟩
  rw [firstkey, hf]
  exact h.keys p (h.pids q hq p (by simp [hon]))

/-! ## Fields after a store -/

@[simp] theorem setNext_qnext (t : QTab) (i v x : Int) :
    (setNext t i v x).qnext = Function.update (fun j => (t j).qnext) i v x := by
  by_cases h : x = i
  · subst h
    simp [setNext]
  · simp [setNext, h]

@[simp] theorem setNext_qprev (t : QTab) (i v x : Int) : (setNext t i v x).qprev = (t x).qprev := by
  by_cases h : x = i
  · subst h
    simp [setNext]
  · simp [setNext, h]

@[simp] theorem setNext_qkey (t : QTab) (i v x : Int) : (setNext t i v x).qkey = (t x).qkey := by
  by_cases h : x = i
  · subst h
    simp [setNext]
  · simp [setNext, h]

@[simp] theorem setPrev_qprev (t : QTab) (i v x : Int) :
    (setPrev t i v x).qprev = Function.update (fun j => (t j).qprev) i v x := by
  by_cases h : x = i
  · subst h
    simp [setPrev]
  · simp [setPrev, h]

@[simp] theorem setPrev_qnext (t : QTab) (i v x : Int) : (setPrev t i v x).qnext = (t x).qnext := by
  by_cases h : x = i
  · subst h
    simp [setPrev]
  · simp [setPrev, h]

@[simp] theorem setPrev_qkey (t : QTab) (i v x : Int) : (setPrev t i v x).qkey = (t x).qkey := by
  by_cases h : x = i
  · subst h
    simp [setPrev]
  · simp [setPrev, h]

@[simp] theorem setKey_qkey (t : QTab) (i v x : Int) :
    (setKey t i v x).qkey = Function.update (fun j => (t j).qkey) i v x := by
  by_cases h : x = i
  · subst h
    simp [setKey]
  · simp [setKey, h]

@[simp] theorem setKey_qnext (t : QTab) (i v x : Int) : (setKey t i v x).qnext = (t x).qnext := by
  by_cases h : x = i
  · subst h
    simp [setKey]
  · simp [setKey, h]

@[simp] theorem setKey_qprev (t : QTab) (i v x : Int) : (setKey t i v x).qprev = (t x).qprev := by
  by_cases h : x = i
  · subst h
    simp [setKey]
  · simp [setKey, h]

/-! ## Editing one queue -/

/-- Storing a key. -/
theorem Linked.setKey (h : Linked t ls) {p : Int} (hp : IsPid p) (v : Int) :
    Linked (setKey t p v) (ls.setKey p v) where
  links q hq := (h.links q hq).congr_mem (fun _ _ => setKey_qnext ..) fun _ _ => setKey_qprev ..
  tails q hq := by
    have hb := hq.bounds
    have hlt := hp.2
    rw [setKey_qkey, Function.update_of_ne (by omega)]
    exact h.tails q hq
  keys x hx := by
    rw [setKey_qkey]
    by_cases hxp : x = p
    · subst hxp
      simp
    · rw [Function.update_of_ne hxp, Lists.setKey_key_of_ne _ hxp]
      exact h.keys x hx
  pids := h.pids
  nodup := h.nodup
  disjoint := h.disjoint

/-- An edit that touches one queue and one process's node. -/
theorem Linked.edit {t' : QTab} {ls' : Lists} {q x : Int} (h : Linked t ls) (hq : IsQueue q)
    (hx : IsPid x) (hoff : ∀ r, IsQueue r → r ≠ q → x ∉ ls.on r)
    (hon : ∀ r, IsQueue r → r ≠ q → ls'.on r = ls.on r)
    (hlinks : Links (fun i => (t' i).qnext) (fun i => (t' i).qprev) (q :: (ls'.on q ++ [q + 1])))
    (hframe : ∀ i, i ≠ x → i ∉ q :: (ls.on q ++ [q + 1]) →
      (t' i).qnext = (t i).qnext ∧ (t' i).qprev = (t i).qprev)
    (hkey : ∀ i, (t' i).qkey = (t i).qkey) (hkey' : ls'.key = ls.key)
    (hnd : (ls'.on q).Nodup) (hmem : ∀ p ∈ ls'.on q, p = x ∨ p ∈ ls.on q) : Linked t' ls' := by
  -- the processes of `q` after the edit are on no other queue
  have hmem' : ∀ r p, IsQueue r → r ≠ q → p ∈ ls'.on q → p ∈ ls.on r → False := by
    intro r p hr hne hp hpr
    rcases hmem p hp with rfl | hp
    · exact hoff r hr hne hpr
    · exact hne (h.disjoint r q p hr hq hpr hp)
  refine ⟨fun r hr => ?_, fun r hr => ?_, fun p hp => ?_, fun r hr p hp => ?_, fun r hr => ?_, ?_⟩
  · by_cases hrq : r = q
    · rw [hrq]
      exact hlinks
    · rw [hon r hr hrq]
      have hnode : ∀ i ∈ r :: (ls.on r ++ [r + 1]),
          (t' i).qnext = (t i).qnext ∧ (t' i).qprev = (t i).qprev := by
        refine fun i hi => hframe i ?_ (h.nodes_apart hr hq hrq hi)
        rintro rfl
        have hb := hr.bounds
        have hlt := hx.2
        simp only [List.mem_cons, List.mem_append, List.not_mem_nil, or_false] at hi
        rcases hi with hi | hi | hi
        · omega
        · exact hoff r hr hrq hi
        · omega
      exact (h.links r hr).congr_mem (fun i hi => (hnode i hi).1) fun i hi => (hnode i hi).2
  · rw [hkey]
    exact h.tails r hr
  · rw [hkey, hkey']
    exact h.keys p hp
  · by_cases hrq : r = q
    · subst hrq
      rcases hmem p hp with rfl | hp
      · exact hx
      · exact h.pids r hr p hp
    · rw [hon r hr hrq] at hp
      exact h.pids r hr p hp
  · by_cases hrq : r = q
    · rw [hrq]
      exact hnd
    · rw [hon r hr hrq]
      exact h.nodup r hr
  · intro r s p hr hs hpr hps
    by_cases hrq : r = q
    · by_cases hsq : s = q
      · rw [hrq, hsq]
      · rw [hrq] at hpr
        rw [hon s hs hsq] at hps
        exact (hmem' s p hs hsq hpr hps).elim
    · rw [hon r hr hrq] at hpr
      by_cases hsq : s = q
      · rw [hsq] at hps
        exact (hmem' r p hr hrq hps hpr).elim
      · rw [hon s hs hsq] at hps
        exact h.disjoint r s p hr hs hpr hps

/-- The node after `post` in a queue: its first process or the tail. -/
def headOr (d : Int) (l : List Int) : Int := l.head?.getD d

/-- The node before a place in a queue: the last process or the head. -/
def lastOr (d : Int) (l : List Int) : Int := l.getLast?.getD d

theorem lastOr_concat (q : Int) (pre : List Int) : ∃ P, q :: pre = P ++ [lastOr q pre] := by
  rcases List.eq_nil_or_concat pre with rfl | ⟨P, a, rfl⟩
  · exact ⟨[], rfl⟩
  · exact ⟨q :: P, by simp [lastOr]⟩

theorem headOr_cons (d : Int) (post : List Int) : ∃ S, post ++ [d] = headOr d post :: S := by
  cases post with
  | nil => exact ⟨[], rfl⟩
  | cons b S => exact ⟨S ++ [d], rfl⟩

/-- **Linking in.** The four stores of `linkBetween` put a process between
two parts of a queue. -/
theorem Linked.linkBetween (h : Linked t ls) {q x : Int} {pre post : List Int} (hq : IsQueue q)
    (hx : IsPid x) (hoff : ls.Off x) (hon : ls.on q = pre ++ post) :
    Linked (linkBetween x (lastOr q pre) (headOr (q + 1) post) t) (ls.set q (pre ++ x :: post)) := by
  have hb := hq.bounds
  have hlt := hx.2
  obtain ⟨P, hP⟩ := lastOr_concat q pre
  obtain ⟨S, hS⟩ := headOr_cons (q + 1) post
  set a := lastOr q pre
  set b := headOr (q + 1) post
  have hnodes : q :: (ls.on q ++ [q + 1]) = P ++ a :: b :: S := by
    rw [hon, List.append_assoc, hS, ← List.cons_append, hP, List.append_assoc, List.singleton_append]
  have hnd := h.nodes_nodup hq
  have hlinks := h.links q hq
  have hxn : x ∉ q :: (ls.on q ++ [q + 1]) := by
    simp only [List.mem_cons, List.mem_append, List.not_mem_nil, or_false, not_or]
    exact ⟨by omega, hoff q hq, by omega⟩
  have hnd' := h.nodup q hq
  rw [hon] at hnd'
  have hxon := hoff q hq
  rw [hon, List.mem_append, not_or] at hxon
  refine h.edit hq hx (fun r hr _ => hoff r hr) (fun r _ hr => Lists.set_on_of_ne _ hr _) ?_
    (fun i hi hin => ?_) (fun i => by simp [Xinu.linkBetween]) rfl ?_ ?_
  · have hnew : q :: ((ls.set q (pre ++ x :: post)).on q ++ [q + 1]) = P ++ a :: x :: b :: S := by
      rw [Lists.set_on_same, List.append_assoc, List.cons_append, hS, ← List.cons_append, hP,
        List.append_assoc, List.singleton_append]
    rw [hnodes] at hlinks hnd hxn
    rw [hnew]
    simpa [Xinu.linkBetween] using hlinks.link hnd hxn
  · rw [hnodes] at hin
    simp only [List.mem_append, List.mem_cons, not_or] at hin
    simp [Xinu.linkBetween, hi, hin.2.1, hin.2.2.1]
  · rw [Lists.set_on_same]
    exact List.nodup_middle.mpr (List.nodup_cons.mpr ⟨by simpa using hxon, hnd'⟩)
  · intro p hp
    rw [Lists.set_on_same] at hp
    rw [hon]
    simpa [or_left_comm] using hp

/-- **Unlinking.** `getitem` takes a process off the queue it is on. -/
theorem getitem_linked (h : Linked t ls) {q x : Int} (hq : IsQueue q) (hx : x ∈ ls.on q) :
    Linked (getitem x t) (ls.remove x) := by
  obtain ⟨pre, post, hon⟩ := List.append_of_mem hx
  have hnd := h.nodes_nodup hq
  have hnd' := h.nodup q hq
  have hlinks := h.links q hq
  obtain ⟨P, hP⟩ := lastOr_concat q pre
  obtain ⟨S, hS⟩ := headOr_cons (q + 1) post
  set a := lastOr q pre
  set b := headOr (q + 1) post
  have hnodes : q :: (ls.on q ++ [q + 1]) = P ++ a :: x :: b :: S := by
    rw [hon, List.append_assoc, List.cons_append, hS, ← List.cons_append, hP, List.append_assoc,
      List.singleton_append]
  have herase : (ls.on q).erase x = pre ++ post := by
    rw [hon] at hnd' ⊢
    rw [List.nodup_append] at hnd'
    have hpre : x ∉ pre := fun hm => hnd'.2.2 x hm x (by simp) rfl
    rw [List.erase_append_right _ hpre, List.erase_cons_head]
  rw [hnodes] at hnd hlinks
  obtain ⟨-, hprev, hnext, -⟩ := hlinks.around
  have hget : getitem x t = setPrev (setNext t a b) b a := by
    simp only [getitem, hprev, hnext]
  have hothers : ∀ r, IsQueue r → r ≠ q → x ∉ ls.on r := fun r hr hrq hxr =>
    hrq (h.disjoint r q x hr hq hxr hx)
  refine h.edit hq (h.pids q hq x hx) hothers (fun r hr hrq => ?_) ?_ (fun i hi hin => ?_)
    (fun i => by simp [hget]) rfl (hnd'.erase x) fun p hp => Or.inr (List.mem_of_mem_erase hp)
  · exact List.erase_of_not_mem (hothers r hr hrq)
  · have hnew : q :: ((ls.remove x).on q ++ [q + 1]) = P ++ a :: b :: S := by
      rw [Lists.remove_on, herase, List.append_assoc, hS, ← List.cons_append, hP, List.append_assoc,
        List.singleton_append]
    rw [hnew, hget]
    simpa using hlinks.unlink hnd
  · rw [hnodes] at hin
    simp only [List.mem_append, List.mem_cons, not_or] at hin
    simp [hget, hin.2.1, hin.2.2.2.1]

/-- A process that was removed is on no queue. -/
theorem Linked.remove_off (h : Linked t ls) (p : Int) : (ls.remove p).Off p :=
  fun q hq => (h.nodup q hq).not_mem_erase

/-- The fields of a node that is on no queue do not matter. -/
theorem Linked.clear (h : Linked t ls) {p : Int} (hp : IsPid p) (hoff : ls.Off p) (v w : Int) :
    Linked (setNext (setPrev t p v) p w) ls := by
  have hlt := hp.2
  have hfields : ∀ i, i ≠ p → (setNext (setPrev t p v) p w i).qnext = (t i).qnext ∧
      (setNext (setPrev t p v) p w i).qprev = (t i).qprev := fun i hi => by simp [hi]
  refine h.edit isQueue_readylist hp (fun r hr _ => hoff r hr) (fun _ _ _ => rfl) ?_
    (fun i hi _ => hfields i hi) (fun i => by simp) rfl (h.nodup _ isQueue_readylist)
    fun _ hx => Or.inr hx
  have hne : ∀ i ∈ readylist :: (ls.on readylist ++ [readylist + 1]), i ≠ p := by
    have hb := isQueue_readylist.bounds
    rintro i hi rfl
    simp only [List.mem_cons, List.mem_append, List.not_mem_nil, or_false] at hi
    rcases hi with hi | hi | hi
    · omega
    · exact hoff _ isQueue_readylist hi
    · omega
  exact (h.links _ isQueue_readylist).congr_mem (fun i hi => (hfields i (hne i hi)).1)
    fun i hi => (hfields i (hne i hi)).2

/-! ## The queue functions -/

theorem getfirst_nil (h : Linked t ls) {q : Int} (hq : IsQueue q) (hon : ls.on q = []) :
    getfirst q t = (EMPTY, t) :=
  if_pos ((h.isempty_iff hq).mpr hon)

/-- `getfirst` removes the head of the list. -/
theorem getfirst_linked (h : Linked t ls) {q p : Int} {l : List Int} (hq : IsQueue q)
    (hon : ls.on q = p :: l) :
    getfirst q t = (p, getitem p t) ∧ Linked (getitem p t) (ls.remove p) := by
  have hne : ¬ isempty t q := by
    rw [h.isempty_iff hq, hon]
    exact List.cons_ne_nil _ _
  refine ⟨?_, getitem_linked h hq (by simp [hon])⟩
  rw [getfirst, if_neg hne]
  have hf : (t (queuehead q)).qnext = p := (h.firstkey_cons hq hon).1
  simp only [hf]

theorem dequeue_nil (h : Linked t ls) {q : Int} (hq : IsQueue q) (hon : ls.on q = []) :
    dequeue q t = (EMPTY, t) := by
  rw [dequeue, if_neg hq.not_bad, if_pos ((h.isempty_iff hq).mpr hon)]

/-- `dequeue` removes the head of the list. -/
theorem dequeue_linked (h : Linked t ls) {q p : Int} {l : List Int} (hq : IsQueue q)
    (hon : ls.on q = p :: l) :
    ∃ t', dequeue q t = (p, t') ∧ Linked t' (ls.remove p) := by
  obtain ⟨hget, hlinked⟩ := getfirst_linked h hq hon
  have hne : ¬ isempty t q := by
    rw [h.isempty_iff hq, hon]
    exact List.cons_ne_nil _ _
  refine ⟨_, ?_, hlinked.clear (h.pids q hq p (by simp [hon])) (h.remove_off p) EMPTY EMPTY⟩
  rw [dequeue, if_neg hq.not_bad, if_neg hne, hget]

variable {k : Kernel QTab}

theorem not_isbadpid {Q : Type} {k : Kernel Q} {p : Int} (hp : IsPid p)
    (hlive : (k.proctab p).prstate ≠ .free) : ¬ isbadpid k p := by
  have h0 := hp.1
  have h1 := hp.2
  rintro (h | h | h)
  · omega
  · omega
  · exact hlive h

/-- `enqueue` appends at the tail. -/
theorem enqueue_linked (h : Linked k.queuetab ls) {p q : Int} (hq : IsQueue q) (hp : IsPid p)
    (hlive : (k.proctab p).prstate ≠ .free) (hoff : ls.Off p) :
    ∃ t', enqueue p q k = (p, { k with queuetab := t' }) ∧
      Linked t' (ls.set q (ls.on q ++ [p])) := by
  have hprev : (k.queuetab (q + 1)).qprev = lastOr q (ls.on q) := by
    obtain ⟨P, hP⟩ := lastOr_concat q (ls.on q)
    have hl := h.links q hq
    rw [← List.cons_append, hP, List.append_assoc, List.singleton_append] at hl
    exact hl.next_eq.2
  refine ⟨linkBetween p (lastOr q (ls.on q)) (q + 1) k.queuetab, ?_, ?_⟩
  · rw [enqueue, if_neg (not_or.mpr ⟨hq.not_bad, not_isbadpid hp hlive⟩)]
    simp only [queuetail, hprev]
  · exact h.linkBetween hq hp hoff (List.append_nil _).symm

/-! ### Priority order -/

/-- Insert a process behind all that have at least its key. -/
def insertDesc (key : Int → Int) (k p : Int) (l : List Int) : List Int :=
  l.takeWhile (fun x => k ≤ key x) ++ p :: l.dropWhile (fun x => k ≤ key x)

def Lists.insert (ls : Lists) (p q k : Int) : Lists :=
  (ls.setKey p k).set q (insertDesc ls.key k p (ls.on q))

/-- The search of `insert` stops at the first smaller key. -/
theorem insertLoop_eq {q key : Int} (hmin : MINKEY < key) (htail : (t (q + 1)).qkey = MINKEY) :
    ∀ {l : List Int} {n : Nat}, l.length < n →
      Links (fun i => (t i).qnext) (fun i => (t i).qprev) (l ++ [q + 1]) →
      (∀ x ∈ l, (t x).qkey = ls.key x) →
      insertLoop t key n (headOr (q + 1) l) =
        headOr (q + 1) (l.dropWhile fun x => key ≤ ls.key x) := by
  intro l
  induction l with
  | nil =>
    intro n hn _ _
    obtain ⟨m, rfl⟩ : ∃ m, n = m + 1 := ⟨n - 1, by simp at hn; omega⟩
    have hno : ¬ key ≤ (t (headOr (q + 1) [])).qkey := by
      show ¬ key ≤ (t (q + 1)).qkey
      omega
    rw [insertLoop, if_neg hno]
    rfl
  | cons x l ih =>
    intro n hn hl hkeys
    obtain ⟨m, rfl⟩ : ∃ m, n = m + 1 := ⟨n - 1, by simp at hn; omega⟩
    obtain ⟨S, hS⟩ := headOr_cons (q + 1) l
    rw [List.cons_append, hS, links_cons_cons] at hl
    have hkx : (t (headOr (q + 1) (x :: l))).qkey = ls.key x := hkeys x (by simp)
    have hnext : (t (headOr (q + 1) (x :: l))).qnext = headOr (q + 1) l := hl.1.1
    rw [insertLoop, hkx, hnext]
    by_cases hle : key ≤ ls.key x
    · rw [if_pos hle, List.dropWhile_cons_of_pos (by simpa using hle)]
      refine ih (by simpa using hn) ?_ fun y hy => hkeys y (List.mem_cons_of_mem _ hy)
      rw [hS]
      exact hl.2
    · rw [if_neg hle, List.dropWhile_cons_of_neg (by simpa using hle)]

/-- There are only `NPROC` processes. -/
theorem pids_length_le {l : List Int} (hnd : l.Nodup) (hp : ∀ p ∈ l, IsPid p) :
    l.length ≤ NPROC.toNat := by
  have hsub : l ⊆ (List.range NPROC.toNat).map Int.ofNat := by
    intro p hp'
    obtain ⟨h0, h1⟩ := hp p hp'
    refine List.mem_map.mpr ⟨p.toNat, List.mem_range.mpr ?_, Int.toNat_of_nonneg h0⟩
    omega
  have hlen := (List.subperm_of_subset hnd hsub).length_le
  rwa [List.length_map, List.length_range] at hlen

/-- A list of processes is shorter than the loops' bound. -/
theorem Linked.length_lt (h : Linked t ls) {q : Int} (hq : IsQueue q) :
    (ls.on q).length < NQENT.toNat :=
  lt_of_le_of_lt (pids_length_le (h.nodup q hq) (h.pids q hq)) (by decide)

theorem Linked.links_tail (h : Linked t ls) {q : Int} (hq : IsQueue q) :
    Links (fun i => (t i).qnext) (fun i => (t i).qprev) (ls.on q ++ [q + 1]) :=
  (h.links q hq).tail

/-- The node before a place in a queue is the `qprev` of the node after it. -/
theorem Linked.prev_eq (h : Linked t ls) {q : Int} (hq : IsQueue q) {pre post : List Int}
    (hon : ls.on q = pre ++ post) :
    (t (headOr (q + 1) post)).qprev = lastOr q pre ∧
      (t (lastOr q pre)).qnext = headOr (q + 1) post := by
  obtain ⟨P, hP⟩ := lastOr_concat q pre
  obtain ⟨S, hS⟩ := headOr_cons (q + 1) post
  have hl := h.links q hq
  rw [hon, List.append_assoc, hS, ← List.cons_append, hP, List.append_assoc,
    List.singleton_append] at hl
  exact ⟨hl.next_eq.2, hl.next_eq.1⟩

theorem Lists.Off.setKey {p x v : Int} (h : ls.Off p) : (ls.setKey x v).Off p := h

/-- `insert` puts the process in its place in the descending order. -/
theorem insert_linked (h : Linked k.queuetab ls) {p q key : Int} (hq : IsQueue q) (hp : IsPid p)
    (hlive : (k.proctab p).prstate ≠ .free) (hoff : ls.Off p) (hmin : MINKEY < key) :
    ∃ t', insert p q key k = (OK, { k with queuetab := t' }) ∧ Linked t' (ls.insert p q key) := by
  set pre := (ls.on q).takeWhile fun x => key ≤ ls.key x with hpre
  set post := (ls.on q).dropWhile fun x => key ≤ ls.key x with hpost
  have hon : ls.on q = pre ++ post := List.takeWhile_append_dropWhile.symm
  have hloop : insertLoop k.queuetab key NQENT.toNat (firstid k.queuetab q) =
      headOr (q + 1) post := by
    rw [h.firstid_eq hq]
    exact insertLoop_eq hmin (h.tails q hq) (h.length_lt hq) (h.links_tail hq)
      fun x hx => h.keys x (h.pids q hq x hx)
  have hprev := (h.prev_eq hq hon).1
  refine ⟨linkBetween p (lastOr q pre) (headOr (q + 1) post) (setKey k.queuetab p key), ?_, ?_⟩
  · rw [insert, if_neg (not_or.mpr ⟨hq.not_bad, not_isbadpid hp hlive⟩)]
    simp only [hloop, hprev]
  · exact (h.setKey hp key).linkBetween hq hp hoff.setKey hon

/-! ### Delta lists -/

/-- Where a delay falls in a delta list: what is left of it there, the
processes before that place and those after. -/
def splitDelta (key : Int → Int) : Int → List Int → Int × List Int × List Int
  | k, [] => (k, [], [])
  | k, x :: l =>
    if key x ≤ k then
      let r := splitDelta key (int32 (k - key x)) l
      (r.1, x :: r.2.1, r.2.2)
    else (k, [], x :: l)

theorem splitDelta_append (key : Int → Int) (k : Int) (l : List Int) :
    (splitDelta key k l).2.1 ++ (splitDelta key k l).2.2 = l := by
  induction l generalizing k with
  | nil => rfl
  | cons x l ih =>
    rw [splitDelta]
    split
    · simp [ih]
    · rfl

/-- Change the key of the first process of `post`, if there is one. -/
def Lists.addHead (ls : Lists) (post : List Int) (v : Int) : Lists :=
  match post with
  | [] => ls
  | x :: _ => ls.setKey x (int32 (ls.key x + v))

@[simp] theorem Lists.addHead_on (ls : Lists) (post : List Int) (v : Int) :
    (ls.addHead post v).on = ls.on := by
  cases post <;> rfl

def Lists.insertd (ls : Lists) (p q k : Int) : Lists :=
  let r := splitDelta ls.key k (ls.on q)
  ((ls.setKey p r.1).set q (r.2.1 ++ p :: r.2.2)).addHead r.2.2 (-r.1)

/-- The search of `insertd` stops where the delay falls. -/
theorem insertdLoop_eq {q : Int} (hq : IsQueue q) :
    ∀ {l : List Int} {n : Nat} {key prev : Int}, l.length < n →
      Links (fun i => (t i).qnext) (fun i => (t i).qprev) (prev :: (l ++ [q + 1])) →
      (∀ x ∈ l, (t x).qkey = ls.key x ∧ IsPid x) →
      insertdLoop t q n key prev (headOr (q + 1) l) =
        ((splitDelta ls.key key l).1, lastOr prev (splitDelta ls.key key l).2.1,
          headOr (q + 1) (splitDelta ls.key key l).2.2) := by
  intro l
  induction l with
  | nil =>
    intro n key prev hn _ _
    obtain ⟨m, rfl⟩ : ∃ m, n = m + 1 := ⟨n - 1, by simp at hn; omega⟩
    rw [insertdLoop, if_neg]
    · rfl
    · exact fun hne => hne.1 rfl
  | cons x l ih =>
    intro n key prev hn hl hkeys
    obtain ⟨m, rfl⟩ : ∃ m, n = m + 1 := ⟨n - 1, by simp at hn; omega⟩
    obtain ⟨S, hS⟩ := headOr_cons (q + 1) l
    obtain ⟨hkx, hpx⟩ := hkeys x (by simp)
    have hlt := hpx.2
    have hb := hq.bounds
    rw [List.cons_append, links_cons_cons] at hl
    have hl' := hl.2
    rw [hS, links_cons_cons] at hl'
    have hhead : headOr (q + 1) (x :: l) = x := rfl
    have hnext : (t x).qnext = headOr (q + 1) l := hl'.1.1
    have hnt : x ≠ queuetail q := by
      unfold queuetail
      omega
    rw [insertdLoop, hhead, hkx, hnext, splitDelta]
    by_cases hle : ls.key x ≤ key
    · rw [if_pos ⟨hnt, hle⟩, if_pos hle]
      rw [ih (by simpa using hn) hl.2 fun y hy => hkeys y (List.mem_cons_of_mem _ hy)]
      have hlast : ∀ m : List Int, lastOr x m = lastOr prev (x :: m) := by
        intro m
        rcases List.eq_nil_or_concat m with rfl | ⟨P, a, rfl⟩
        · rfl
        · simp [lastOr, List.getLast?_cons]
      rw [hlast]
    · rw [if_neg fun h => hle h.2, if_neg hle]
      rfl

/-- `insertd` splits the delays of the list at the new one. -/
theorem insertd_linked (h : Linked k.queuetab ls) {p q key : Int} (hq : IsQueue q) (hp : IsPid p)
    (hlive : (k.proctab p).prstate ≠ .free) (hoff : ls.Off p) :
    ∃ t', insertd p q key k = (OK, { k with queuetab := t' }) ∧ Linked t' (ls.insertd p q key) := by
  have hb := hq.bounds
  have hloop : insertdLoop k.queuetab q NQENT.toNat key q (headOr (q + 1) (ls.on q)) = _ :=
    insertdLoop_eq hq (h.length_lt hq) (h.links q hq)
      fun x hx => ⟨h.keys x (h.pids q hq x hx), h.pids q hq x hx⟩
  have hfirst : (k.queuetab q).qnext = headOr (q + 1) (ls.on q) := h.firstid_eq hq
  have hon := (splitDelta_append ls.key key (ls.on q)).symm
  set r := splitDelta ls.key key (ls.on q) with hr
  have hlinked := (h.setKey hp r.1).linkBetween hq hp hoff.setKey hon
  rw [insertd, if_neg (not_or.mpr ⟨hq.not_bad, not_isbadpid hp hlive⟩)]
  simp only [queuehead, queuetail, hfirst, hloop, Lists.insertd, ← hr]
  refine ⟨_, rfl, ?_⟩
  cases hpost : r.2.2 with
  | nil =>
    -- the place is the end of the list
    rw [hpost] at hlinked
    rw [show headOr (q + 1) [] = q + 1 from rfl, if_neg (by simp)]
    exact hlinked
  | cons x S =>
    have hxq : x ∈ ls.on q := by
      rw [hon, hpost]
      simp
    have hx := h.pids q hq x hxq
    have hlt := hx.2
    have hne : x ≠ p := fun hxp => hoff q hq (hxp ▸ hxq)
    rw [hpost, show headOr (q + 1) (x :: S) = x from rfl] at hlinked
    rw [show headOr (q + 1) (x :: S) = x from rfl, if_pos (by omega)]
    have hkey : (linkBetween p (lastOr q r.2.1) x (setKey k.queuetab p r.1) x).qkey = ls.key x := by
      simp [linkBetween, hne, h.keys x hx]
    have hlinked' := hlinked.setKey hx (int32 (ls.key x - r.1))
    rw [hkey]
    simpa [Lists.addHead, Lists.setKey_key_of_ne _ hne, sub_eq_add_neg] using hlinked'

/-- The process behind `p`. -/
def after (p : Int) : List Int → List Int
  | [] => []
  | x :: l => if x = p then l else after p l

theorem after_append {p : Int} {pre post : List Int} (h : p ∉ pre) :
    after p (pre ++ p :: post) = post := by
  induction pre with
  | nil => simp [after]
  | cons x pre ih =>
    rw [List.mem_cons, not_or] at h
    rw [List.cons_append, after, if_neg (Ne.symm h.1), ih h.2]

/-- Take a process off the sleep queue; the next one inherits its delay. -/
def Lists.unsleep (ls : Lists) (p : Int) : Lists :=
  (ls.addHead (after p (ls.on sleepq)) (ls.key p)).remove p

/-- `unsleep` keeps the delays of the processes behind. -/
theorem unsleep_linked (h : Linked k.queuetab ls) {p : Int} (hp : p ∈ ls.on sleepq)
    (hst : (k.proctab p).prstate = .sleep ∨ (k.proctab p).prstate = .rectim) :
    ∃ t', unsleep p k = (OK, { k with queuetab := t' }.log (.unslept p)) ∧
      Linked t' (ls.unsleep p) := by
  have hq := isQueue_sleepq
  have hpid := h.pids _ hq p hp
  have hnd := h.nodup _ hq
  obtain ⟨pre, post, hon⟩ := List.append_of_mem hp
  have hpre : p ∉ pre := by
    rw [hon, List.nodup_append] at hnd
    exact fun hm => hnd.2.2 p hm p (by simp) rfl
  have hafter : after p (ls.on sleepq) = post := by
    rw [hon]
    exact after_append hpre
  have hnext : (k.queuetab p).qnext = headOr (sleepq + 1) post := by
    have hn := (h.prev_eq hq (show ls.on sleepq = (pre ++ [p]) ++ post by simp [hon])).2
    simpa [lastOr] using hn
  have hlive : (k.proctab p).prstate ≠ .free := by
    rcases hst with hst | hst <;> rw [hst] <;> decide
  rw [unsleep, if_neg (not_isbadpid hpid hlive), if_neg (by rcases hst with hst | hst <;> simp [hst])]
  simp only [hnext, Lists.unsleep, hafter]
  refine ⟨_, rfl, ?_⟩
  cases post with
  | nil =>
    rw [if_neg (by decide)]
    exact getitem_linked h hq hp
  | cons x S =>
    have hxq : x ∈ ls.on sleepq := by
      rw [hon]
      simp
    have hx := h.pids _ hq x hxq
    have hlt := hx.2
    rw [show headOr (sleepq + 1) (x :: S) = x from rfl, if_pos hlt, h.keys x hx, h.keys p hpid]
    exact getitem_linked (h.setKey hx _) hq hp

end Xinu
