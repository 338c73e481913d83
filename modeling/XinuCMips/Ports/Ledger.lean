import Mathlib.Data.List.Perm.Basic
import XinuCMips.Ports.Generations

/-!
# The messages of the ports

All nodes are free or in one port, and what the history says was sent and not received
is what the nodes of the port hold.

* `Chains`   — the free nodes and those of each port;
* `Recorded` — the history and the messages that are queued.
-/

namespace Xinu.Ports

open Follow

-- ---------------------------------------------------------------------------
-- The history
-- ---------------------------------------------------------------------------

variable {port p : Nat} {tr : List Event} {e : Event} {msg : Msg} {msgs : Nat → List Msg}

theorem generations_other (h : e.portid ≠ port) : generations port (e :: tr) = generations port tr := by
  rw [generations]
  dsimp only
  rw [if_neg h]

theorem generations_opened : generations port (.opened port :: tr) =
    ({}, (generations port tr).1 :: (generations port tr).2) := by
  have hport : (Event.opened port).portid = port := rfl
  rw [generations]
  dsimp only
  rw [if_pos hport, if_pos rfl]

theorem generations_next (h : e.portid = port) (hne : e ≠ .opened port) (tr : List Event) :
    generations port (e :: tr) = ((generations port tr).1.next e, (generations port tr).2) := by
  rw [generations]
  dsimp only
  rw [if_pos h, if_neg hne]

/-- The history of the messages: `now` are the ports in use. -/
structure Recorded (tr : List Event) (msgs : Nat → List Msg) (now : Nat → Prop) : Prop where
  past : ∀ port, ∀ g ∈ (generations port tr).2, g.sent = g.received ++ g.disposed
  last : ∀ port, (generations port tr).1.sent =
    (generations port tr).1.received ++ (generations port tr).1.disposed ++ msgs port
  undisturbed : ∀ port, now port → (generations port tr).1.disposed = []

namespace Recorded

variable {now : Nat → Prop}

theorem congr {msgs' : Nat → List Msg} {now' : Nat → Prop} (h : Recorded tr msgs now)
    (hm : ∀ port, msgs' port = msgs port) (hn : ∀ port, now' port → now port) :
    Recorded tr msgs' now' :=
  ⟨h.past, fun port => by rw [hm]; exact h.last port, fun port hp => h.undisturbed port (hn port hp)⟩

/-- An event that opens no port. -/
theorem next {l : List Msg} {now' : Nat → Prop} (h : Recorded tr msgs now) (he : e.portid = port)
    (hne : e ≠ .opened port)
    (hl : ((generations port tr).1.next e).sent =
      ((generations port tr).1.next e).received ++ ((generations port tr).1.next e).disposed ++ l)
    (hd : now' port → ((generations port tr).1.next e).disposed = [])
    (hn : ∀ p, p ≠ port → now' p → now p) :
    Recorded (e :: tr) (Function.update msgs port l) now' := by
  have hgen := generations_next he hne tr
  refine ⟨fun p => ?_, fun p => ?_, fun p hp => ?_⟩
  · by_cases heq : p = port
    · rw [heq, hgen]
      exact h.past port
    · rw [generations_other (he.trans_ne (Ne.symm heq))]
      exact h.past p
  · by_cases heq : p = port
    · rw [heq, hgen, Function.update_self]
      exact hl
    · rw [generations_other (he.trans_ne (Ne.symm heq)), Function.update_of_ne heq]
      exact h.last p
  · by_cases heq : p = port
    · rw [heq] at hp ⊢
      rw [hgen]
      exact hd hp
    · rw [generations_other (he.trans_ne (Ne.symm heq))]
      exact h.undisturbed p (hn p heq hp)

theorem sent (h : Recorded tr msgs now) (port : Nat) (msg : Msg) :
    Recorded (.sent port msg :: tr) (Function.update msgs port (msgs port ++ [msg])) now := by
  refine h.next rfl nofun ?_ (h.undisturbed port) fun _ _ hp => hp
  change (generations port tr).1.sent ++ [msg] = _
  rw [h.last port, List.append_assoc]
  rfl

theorem received {rest : List Msg} (h : Recorded tr msgs now) (hp : now port)
    (hm : msgs port = msg :: rest) :
    Recorded (.received port msg :: tr) (Function.update msgs port rest) now := by
  have hnone := h.undisturbed port hp
  have hlast := h.last port
  refine h.next rfl nofun ?_ (h.undisturbed port) fun _ _ hp => hp
  change (generations port tr).1.sent =
    ((generations port tr).1.received ++ [msg]) ++ (generations port tr).1.disposed ++ rest
  rw [hlast, hnone, hm, List.append_nil, List.append_nil, List.append_assoc]
  rfl

/-- The messages of a port are disposed of one by one. -/
theorem disposed (h : Recorded tr msgs now) (port : Nat) :
    Recorded (((msgs port).map (Event.disposed port)).reverse ++ tr)
      (Function.update msgs port []) (fun p => now p ∧ p ≠ port) := by
  generalize hl : msgs port = l
  induction l generalizing tr msgs now with
  | nil =>
    rw [List.map_nil, List.reverse_nil, List.nil_append, ← hl, Function.update_eq_self]
    exact h.congr (fun _ => rfl) fun _ hp => hp.1
  | cons msg rest ih =>
    have hone : Recorded (.disposed port msg :: tr) (Function.update msgs port rest)
        (fun p => now p ∧ p ≠ port) := by
      have hlast := h.last port
      refine h.next rfl nofun ?_ (fun hp => absurd rfl hp.2) fun p _ hp => hp.1
      change (generations port tr).1.sent =
        (generations port tr).1.received ++ ((generations port tr).1.disposed ++ [msg]) ++ rest
      rw [hlast, hl, List.append_assoc, List.append_assoc, List.append_assoc]
      rfl
    have hrest := ih hone (Function.update_self _ _ _)
    rw [Function.update_idem] at hrest
    rw [List.map_cons, List.reverse_cons, List.append_assoc]
    exact hrest.congr (fun _ => rfl) fun p hp => ⟨hp, hp.2⟩

/-- An empty port is opened. -/
theorem opened {now' : Nat → Prop} (h : Recorded tr msgs now) (hm : msgs port = [])
    (hn : ∀ p, p ≠ port → now' p → now p) : Recorded (.opened port :: tr) msgs now' := by
  have hother : ∀ p, p ≠ port → generations p (.opened port :: tr) = generations p tr :=
    fun p hp => generations_other fun heq => hp heq.symm
  refine ⟨fun p g hg => ?_, fun p => ?_, fun p hp => ?_⟩
  · by_cases heq : p = port
    · rw [heq, generations_opened] at hg
      rcases List.mem_cons.mp hg with rfl | hg
      · rw [h.last port, hm, List.append_nil]
      · exact h.past port g hg
    · rw [hother p heq] at hg
      exact h.past p g hg
  · by_cases heq : p = port
    · rw [heq, generations_opened, hm]
      rfl
    · rw [hother p heq]
      exact h.last p
  · by_cases heq : p = port
    · rw [heq, generations_opened]
    · rw [hother p heq]
      exact h.undisturbed p (hn p heq hp)

end Recorded

-- ---------------------------------------------------------------------------
-- The nodes
-- ---------------------------------------------------------------------------

variable {nodes : Nat} {s s' : PortTable} {fl fl' : List Node} {ql : Nat → List Node} {node : Node}
  {tidy : Nat → Prop}

/-- One list of many is put first. -/
theorem flatMap_perm {l : List Nat} (ql : Nat → List Node) (hp : p ∈ l) (hl : l.Nodup) :
    (l.flatMap ql).Perm (ql p ++ l.flatMap (Function.update ql p [])) := by
  induction l with
  | nil => cases hp
  | cons a l ih =>
    obtain ⟨ha, hl⟩ := List.nodup_cons.mp hl
    rw [List.flatMap_cons, List.flatMap_cons]
    rcases List.mem_cons.mp hp with rfl | hp
    · rw [Function.update_self, List.nil_append]
      have hsame : l.flatMap (Function.update ql p []) = l.flatMap ql :=
        List.flatMap_congr fun b hb => Function.update_of_ne (ne_of_mem_of_not_mem hb ha) _ _
      rw [hsame]
    · have hne : a ≠ p := fun heq => ha (heq ▸ hp)
      rw [Function.update_of_ne hne]
      exact ((ih hp hl).append_left (ql a)).trans (by
        rw [← List.append_assoc, ← List.append_assoc]
        exact List.perm_append_comm.append_right _)

/-- All nodes are free or in a port. The lists of the ports that are `tidy` can be
followed. -/
structure Chains (nodes : Nat) (fl : List Node) (ql : Nat → List Node) (tidy : Nat → Prop)
    (s : PortTable) : Prop where
  free : Follows s.ptnext s.ptfree fl
  queue : ∀ p, tidy p → Follows s.ptnext (s.porttab p).pthead (ql p) ∧
    (s.porttab p).pttail = (ql p).getLast?
  inside : ∀ p, ql p ≠ [] → p < NPORTS
  perm : (fl ++ (List.range NPORTS).flatMap ql).Perm (List.range nodes)

namespace Chains

/-- The nodes of all ports but one. -/
def others (ql : Nat → List Node) (p : Nat) : List Node :=
  (List.range NPORTS).flatMap (Function.update ql p [])

theorem perm_update (hp : p < NPORTS) (ql : Nat → List Node) (l : List Node) :
    ((List.range NPORTS).flatMap (Function.update ql p l)).Perm (l ++ others ql p) := by
  have hperm := flatMap_perm (Function.update ql p l) (List.mem_range.mpr hp) List.nodup_range
  rw [Function.update_self, Function.update_idem] at hperm
  exact hperm

theorem split (h : Chains nodes fl ql tidy s) (hp : p < NPORTS) :
    (fl ++ ql p ++ others ql p).Perm (List.range nodes) := by
  have hperm := perm_update hp ql (ql p)
  rw [Function.update_eq_self] at hperm
  rw [List.append_assoc]
  exact (hperm.symm.append_left fl).trans h.perm

theorem nodup (h : Chains nodes fl ql tidy s) (hp : p < NPORTS) :
    (fl ++ ql p ++ others ql p).Nodup := (h.split hp).nodup_iff.mpr List.nodup_range

theorem length_le (h : Chains nodes fl ql tidy s) (p : Nat) : (ql p).length ≤ nodes := by
  by_cases hnil : ql p = []
  · rw [hnil]
    exact Nat.zero_le nodes
  · have hlen := (h.split (h.inside p hnil)).length_eq
    rw [List.length_append, List.length_append, List.length_range] at hlen
    omega

/-- No node is in another list too. -/
theorem apart (h : Chains nodes fl ql tidy s) (hp : p < NPORTS) {p' : Nat} (hne : p' ≠ p) {a : Node}
    (ha : a ∈ ql p') : a ∉ fl ∧ a ∉ ql p := by
  have hin : p' < NPORTS := h.inside p' (List.ne_nil_of_mem ha)
  have hother : a ∈ others ql p := by
    refine List.mem_flatMap.mpr ⟨p', List.mem_range.mpr hin, ?_⟩
    rw [Function.update_of_ne hne]
    exact ha
  have hdisj := (List.nodup_append.mp (h.nodup hp)).2.2
  exact ⟨fun hf => hdisj a (List.mem_append_left _ hf) a hother rfl,
    fun hq => hdisj a (List.mem_append_right _ hq) a hother rfl⟩

theorem pool (h : Chains nodes fl ql tidy s) (hp : p < NPORTS) (ht : tidy p) :
    Pool p fl (ql p) s :=
  ⟨h.free, (h.queue p ht).1, (h.queue p ht).2, (List.nodup_append.mp (h.nodup hp)).1⟩

/-- Nodes move between the free list and one port. -/
theorem move {l : List Node} {tidy' : Nat → Prop} (h : Chains nodes fl ql tidy s) (hp : p < NPORTS)
    (hfree : Follows s'.ptnext s'.ptfree fl')
    (hqueue : tidy' p → Follows s'.ptnext (s'.porttab p).pthead l ∧
      (s'.porttab p).pttail = l.getLast?)
    (hperm : (fl' ++ l).Perm (fl ++ ql p)) (htidy : ∀ p', p' ≠ p → tidy' p' → tidy p')
    (hnext : ∀ a, a ∉ fl → a ∉ ql p → s'.ptnext a = s.ptnext a)
    (htab : ∀ p', p' ≠ p → s'.porttab p' = s.porttab p') :
    Chains nodes fl' (Function.update ql p l) tidy' s' := by
  refine ⟨hfree, fun p' ht => ?_, fun p' hne => ?_, ?_⟩
  · by_cases heq : p' = p
    · rw [heq] at ht ⊢
      rw [Function.update_self]
      exact hqueue ht
    · obtain ⟨hq, hl⟩ := h.queue p' (htidy p' heq ht)
      rw [Function.update_of_ne heq, htab p' heq]
      refine ⟨hq.congr fun a ha => ?_, hl⟩
      obtain ⟨hf, hq⟩ := h.apart hp heq ha
      exact hnext a hf hq
  · by_cases heq : p' = p
    · rw [heq]
      exact hp
    · rw [Function.update_of_ne heq] at hne
      exact h.inside p' hne
  · refine (((perm_update hp ql l).append_left fl').trans ?_).trans (h.split hp)
    rw [← List.append_assoc]
    exact hperm.append_right _

end Chains

-- ---------------------------------------------------------------------------
-- Nodes that move
-- ---------------------------------------------------------------------------

/-- A message is sent: what the port has, and what else is left as it is. -/
theorem linkNode_frame (port : Nat) (node : Node) (msg : Msg) (s : PortTable) :
    (s.linkNode port node msg).ptmsg = Function.update s.ptmsg node msg ∧
    (∀ p, p ≠ port → (s.linkNode port node msg).porttab p = s.porttab p) ∧
    ∀ a, a ≠ node → (s.porttab port).pttail ≠ some a →
      (s.linkNode port node msg).ptnext a = s.ptnext a := by
  unfold PortTable.linkNode
  dsimp only
  cases htail : (s.porttab port).pttail with
  | none =>
    exact ⟨rfl, fun p hp => Function.update_of_ne hp _ _,
      fun a ha _ => Function.update_of_ne ha _ _⟩
  | some tailnode =>
    refine ⟨rfl, fun p hp => Function.update_of_ne hp _ _, fun a ha hne => ?_⟩
    change Function.update (Function.update s.ptnext node none) tailnode (some node) a = _
    rw [Function.update_of_ne (fun heq => hne (by rw [heq])), Function.update_of_ne ha]

theorem unlinkNode_frame (port : Nat) (node : Node) (s : PortTable) :
    (s.unlinkNode port node).ptmsg = s.ptmsg ∧
    (∀ p, p ≠ port → (s.unlinkNode port node).porttab p = s.porttab p) ∧
    ∀ a, a ≠ node → (s.unlinkNode port node).ptnext a = s.ptnext a := by
  unfold PortTable.unlinkNode
  dsimp only
  split
  · exact ⟨rfl, fun p hp => Function.update_of_ne hp _ _, fun a ha => Function.update_of_ne ha _ _⟩
  · exact ⟨rfl, fun p hp => Function.update_of_ne hp _ _, fun a ha => Function.update_of_ne ha _ _⟩

namespace Chains

/-- A message is sent. -/
theorem link (h : Chains nodes (node :: fl) ql tidy s) (hp : p < NPORTS) (ht : tidy p) (msg : Msg) :
    Chains nodes fl (Function.update ql p (ql p ++ [node])) tidy (s.linkNode p node msg) := by
  have hpool := (h.pool hp ht).link msg
  obtain ⟨-, htab, hnext⟩ := linkNode_frame p node msg s
  refine h.move hp hpool.free (fun _ => ⟨hpool.queue, hpool.tail⟩) ?_ (fun _ _ ht => ht)
    (fun a hf hq => hnext a (fun heq => hf (heq ▸ List.mem_cons_self)) ?_) htab
  · rw [List.cons_append, ← List.append_assoc]
    exact List.perm_append_comm
  · rw [(h.queue p ht).2]
    exact fun hl => hq (List.mem_of_getLast? hl)

/-- Its message is the last one of the port. -/
theorem link_msgs (h : Chains nodes (node :: fl) ql tidy s) (hp : p < NPORTS) (msg : Msg) (p' : Nat) :
    (Function.update ql p (ql p ++ [node]) p').map (s.linkNode p node msg).ptmsg =
      Function.update (fun p => (ql p).map s.ptmsg) p ((ql p).map s.ptmsg ++ [msg]) p' := by
  rw [(linkNode_frame p node msg s).1]
  have hsame : ∀ p', node ∉ ql p' →
      (ql p').map (Function.update s.ptmsg node msg) = (ql p').map s.ptmsg := fun p' hn =>
    List.map_congr_left fun a ha => Function.update_of_ne (ne_of_mem_of_not_mem ha hn) _ _
  by_cases heq : p' = p
  · have hn : node ∉ ql p := fun hq =>
      (List.nodup_append.mp (List.nodup_append.mp (h.nodup hp)).1).2.2 node
        List.mem_cons_self node hq rfl
    rw [heq, Function.update_self, Function.update_self, List.map_append, hsame p hn, List.map_cons,
      Function.update_self, List.map_nil]
  · have hn : node ∉ ql p' := fun hq => (h.apart hp heq hq).1 List.mem_cons_self
    rw [Function.update_of_ne heq, Function.update_of_ne heq]
    exact hsame p' hn

/-- A message is received. -/
theorem unlink {rest : List Node} (h : Chains nodes fl ql tidy s) (hp : p < NPORTS) (ht : tidy p)
    (hq : ql p = node :: rest) :
    Chains nodes (node :: fl) (Function.update ql p rest) tidy (s.unlinkNode p node) := by
  have hpool := h.pool hp ht
  rw [hq] at hpool
  have hpool' := hpool.unlink
  obtain ⟨-, htab, hnext⟩ := unlinkNode_frame p node s
  refine h.move hp hpool'.free (fun _ => ⟨hpool'.queue, hpool'.tail⟩) ?_ (fun _ _ ht => ht)
    (fun a _ hn => hnext a fun heq => hn ?_) htab
  · rw [hq]
    exact List.perm_middle.symm
  · rw [heq, hq]
    exact List.mem_cons_self

end Chains

/-- The loop of `_ptclear` disposes of the messages in their order. -/
theorem disposeLoop_eq {l : List Node} {walk : Option Node} {n : Nat} (h : Follows s.ptnext walk l)
    (hl : l.length ≤ n) : s.disposeLoop port n walk =
      { s with trace := ((l.map s.ptmsg).map (Event.disposed port)).reverse ++ s.trace } := by
  induction l generalizing walk s n with
  | nil =>
    rw [h.head?_eq, List.head?_nil]
    cases n with
    | zero => rfl
    | succ n => rfl
  | cons a l ih =>
    rw [h.head?_eq, List.head?_cons]
    cases n with
    | zero => exact absurd hl (Nat.not_succ_le_zero _)
    | succ n =>
      have hrest : Follows (s.log (.disposed port (s.ptmsg a))).ptnext (s.ptnext a) l := h.tail
      rw [PortTable.disposeLoop, ih hrest (Nat.le_of_succ_le_succ hl), List.map_cons, List.map_cons,
        List.reverse_cons, List.append_assoc]
      rfl

/-- The messages of a port are disposed of, and its nodes are free. -/
theorem Chains.freeMessages (h : Chains nodes fl ql tidy s) (hp : p < NPORTS) (ht : tidy p) :
    ∃ next free, s.freeMessages nodes p = { s with
        ptnext := next
        ptfree := free
        trace := (((ql p).map s.ptmsg).map (Event.disposed p)).reverse ++ s.trace } ∧
      ∃ fl', Chains nodes fl' (Function.update ql p []) (fun p' => p' ≠ p ∧ tidy p')
        { s with ptnext := next, ptfree := free } := by
  obtain ⟨hq, hl⟩ := h.queue p ht
  have hmove : ∀ next free, Follows next free (ql p ++ fl) →
      (∀ a, a ∉ ql p → next a = s.ptnext a) → ∃ fl', Chains nodes fl' (Function.update ql p [])
        (fun p' => p' ≠ p ∧ tidy p') { s with ptnext := next, ptfree := free } := by
    intro next free hfree hnext
    refine ⟨ql p ++ fl, h.move hp hfree (fun ht' => absurd rfl ht'.1) ?_ (fun _ _ ht' => ht'.2)
      (fun a _ ha => hnext a ha) fun _ _ => rfl⟩
    rw [List.append_nil]
    exact List.perm_append_comm
  unfold PortTable.freeMessages
  rw [hq.head?_eq]
  rcases List.eq_nil_or_concat (ql p) with hnil | ⟨l, last, hlast⟩
  · refine ⟨s.ptnext, s.ptfree, ?_, hmove _ _ ?_ fun _ _ => rfl⟩
    · rw [hnil]
      rfl
    · rw [hnil]
      exact h.free
  · rw [List.concat_eq_append] at hlast
    have hnd := (List.nodup_append.mp (h.nodup hp)).1
    rw [hlast] at hnd hl
    have hdisj := List.nodup_append.mp hnd
    have hlf : last ∉ fl := fun hf => hdisj.2.2 last hf last (by simp) rfl
    have hll : last ∉ l := fun hm =>
      (List.nodup_append.mp hdisj.2.1).2.2 last hm last (by simp) rfl
    have hjoined : Follows (Function.update s.ptnext last s.ptfree) (ql p).head? (ql p ++ fl) := by
      have hfollow := hq
      rw [hq.head?_eq, hlast] at hfollow
      have hredirect := hfollow.redirect hll h.free hlf
      rwa [hlast, List.append_assoc]
    obtain ⟨first, rest, hfirst⟩ : ∃ first rest, ql p = first :: rest :=
      List.exists_cons_of_ne_nil (by rw [hlast]; simp)
    have hhead : (ql p).head? = some first := by rw [hfirst]; rfl
    rw [hhead] at hjoined ⊢
    dsimp only
    rw [hq.head?_eq, hhead] at hq
    rw [disposeLoop_eq hq (h.length_le p)]
    dsimp only
    rw [hl, List.getLast?_concat]
    refine ⟨_, _, rfl, hmove _ _ hjoined fun a ha => Function.update_of_ne (fun heq => ha ?_) _ _⟩
    rw [heq, hlast]
    simp

end Xinu.Ports
