import XinuCMips.Lib.Threaded
import Mathlib.Data.List.Nodup
import Mathlib.Logic.Function.Basic

/-!
# Lists linked in both directions

A doubly linked list is a list of nodes in which each node's `next` field
holds the node after it and each node's `prev` field the node before it.
`Links next prev l` says so of the whole list, head and tail nodes included.

* `Links.congr` — only `next` of the nodes before the last and `prev` of the
  nodes after the first matter;
* `Links.link`, `Links.unlink` — the two edits, as updates of the fields, on
  a list without repeated nodes.
-/

namespace DoubleLinks

variable {α : Type*} {next prev next' prev' : α → α}

/-- Neighbours in `l` point at each other. -/
def Links (next prev : α → α) (l : List α) : Prop :=
  l.IsChain fun a b => next a = b ∧ prev b = a

@[simp] theorem links_singleton (a : α) : Links next prev [a] :=
  List.isChain_singleton a

@[simp] theorem links_cons_cons {a b : α} {l : List α} :
    Links next prev (a :: b :: l) ↔ (next a = b ∧ prev b = a) ∧ Links next prev (b :: l) :=
  List.isChain_cons_cons

/-- A linked list splits at any of its nodes. -/
theorem links_split {c : α} {l₁ l₂ : List α} :
    Links next prev (l₁ ++ c :: l₂) ↔ Links next prev (l₁ ++ [c]) ∧ Links next prev (c :: l₂) :=
  List.isChain_split

/-- The neighbours of a node inside the list. -/
theorem Links.around {pre post : List α} {a x b : α}
    (h : Links next prev (pre ++ a :: x :: b :: post)) :
    next a = x ∧ prev x = a ∧ next x = b ∧ prev b = x := by
  rw [links_split, links_cons_cons, links_cons_cons] at h
  exact ⟨h.2.1.1, h.2.1.2, h.2.2.1.1, h.2.2.1.2⟩

theorem Links.next_eq {pre post : List α} {a b : α} (h : Links next prev (pre ++ a :: b :: post)) :
    next a = b ∧ prev b = a := by
  rw [links_split, links_cons_cons] at h
  exact h.2.1

/-- The `next` fields alone, and the `prev` fields alone. -/
theorem Links.threaded {l : List α} (h : Links next prev l) : Thread.Threaded next l :=
  List.IsChain.imp (fun _ _ hab => hab.1) h

theorem Links.threaded_reverse {l : List α} (h : Links next prev l) :
    Thread.Threaded prev l.reverse := by
  unfold Thread.Threaded
  rw [List.isChain_reverse]
  exact List.IsChain.imp (fun _ _ hab => hab.2) h

/-- Fields that agree where the list reads them link the same list. -/
theorem Links.congr {l : List α} (h : Links next prev l)
    (hnext : ∀ a ∈ l.dropLast, next' a = next a) (hprev : ∀ b ∈ l.tail, prev' b = prev b) :
    Links next' prev' l := by
  induction l with
  | nil => exact List.isChain_nil
  | cons a l ih =>
    cases l with
    | nil => simp
    | cons b l =>
      rw [links_cons_cons] at h ⊢
      simp only [List.dropLast_cons_cons, List.mem_cons, forall_eq_or_imp] at hnext
      simp only [List.tail_cons, List.mem_cons, forall_eq_or_imp] at hprev
      refine ⟨⟨hnext.1.trans h.1.1, hprev.1.trans h.1.2⟩, ih h.2 hnext.2 ?_⟩
      exact hprev.2

/-- Fields that agree on all nodes link the same list. -/
theorem Links.congr_mem {l : List α} (h : Links next prev l)
    (hnext : ∀ a ∈ l, next' a = next a) (hprev : ∀ b ∈ l, prev' b = prev b) :
    Links next' prev' l :=
  h.congr (fun a ha => hnext a (List.dropLast_subset _ ha))
    fun b hb => hprev b (List.mem_of_mem_tail hb)

variable [DecidableEq α]

/-- **Unlinking.** Removing `x` from between `a` and `b` redirects one field
of each neighbour. -/
theorem Links.unlink {pre post : List α} {a x b : α}
    (h : Links next prev (pre ++ a :: x :: b :: post))
    (nd : (pre ++ a :: x :: b :: post).Nodup) :
    Links (Function.update next a b) (Function.update prev b a) (pre ++ a :: b :: post) := by
  rw [links_split, links_cons_cons, links_cons_cons] at h
  obtain ⟨hpre, -, -, hpost⟩ := h
  rw [List.nodup_append] at nd
  obtain ⟨-, nd, hdisj⟩ := nd
  simp only [List.nodup_cons, List.mem_cons, not_or] at nd
  rw [links_split, links_cons_cons]
  refine ⟨hpre.congr (fun y hy => ?_) (fun y hy => ?_), ⟨by simp, by simp⟩,
    hpost.congr (fun y hy => ?_) (fun y hy => ?_)⟩
  · -- nodes before `a`
    rw [List.dropLast_concat] at hy
    exact Function.update_of_ne (hdisj y hy a (by simp)) _ _
  · refine Function.update_of_ne ?_ _ _
    rcases List.mem_append.mp (List.mem_of_mem_tail hy) with hy | hy
    · exact hdisj y hy b (by simp)
    · rw [List.mem_singleton] at hy
      subst hy
      exact nd.1.2.1
  · -- nodes from `b` on
    refine Function.update_of_ne ?_ _ _
    rintro rfl
    rcases List.mem_cons.mp (List.dropLast_subset _ hy) with hy | hy
    · exact nd.1.2.1 hy
    · exact nd.1.2.2 hy
  · refine Function.update_of_ne ?_ _ _
    rintro rfl
    exact nd.2.2.1 hy

/-- **Linking in.** Inserting a new node `x` between `a` and `b` sets both its
fields and one of each neighbour. -/
theorem Links.link {pre post : List α} {a x b : α}
    (h : Links next prev (pre ++ a :: b :: post)) (nd : (pre ++ a :: b :: post).Nodup)
    (hx : x ∉ pre ++ a :: b :: post) :
    Links (Function.update (Function.update next x b) a x)
      (Function.update (Function.update prev x a) b x) (pre ++ a :: x :: b :: post) := by
  rw [links_split, links_cons_cons] at h
  obtain ⟨hpre, -, hpost⟩ := h
  rw [List.nodup_append] at nd
  obtain ⟨-, nd, hdisj⟩ := nd
  simp only [List.nodup_cons, List.mem_cons, not_or] at nd
  simp only [List.mem_append, List.mem_cons, not_or] at hx
  rw [links_split, links_cons_cons, links_cons_cons]
  refine ⟨hpre.congr (fun y hy => ?_) (fun y hy => ?_), ⟨by simp, ?_⟩, ⟨?_, by simp⟩,
    hpost.congr (fun y hy => ?_) (fun y hy => ?_)⟩
  · -- nodes before `a`
    rw [List.dropLast_concat] at hy
    rw [Function.update_of_ne (hdisj y hy a (by simp)), Function.update_of_ne]
    rintro rfl
    exact hx.1 hy
  · have hya : y ∈ pre ∨ y = a := by
      simpa using List.mem_of_mem_tail hy
    rw [Function.update_of_ne, Function.update_of_ne]
    · rintro rfl
      exact hya.elim hx.1 hx.2.1
    · rintro rfl
      exact hya.elim (fun h => hdisj y h y (by simp) rfl) fun h => nd.1.1 h.symm
  · rw [Function.update_of_ne hx.2.2.1, Function.update_self]
  · rw [Function.update_of_ne hx.2.1, Function.update_self]
  · -- nodes from `b` on
    have hyb : y = b ∨ y ∈ post := List.mem_cons.mp (List.dropLast_subset _ hy)
    rw [Function.update_of_ne, Function.update_of_ne]
    · rintro rfl
      exact hyb.elim hx.2.2.1 hx.2.2.2
    · rintro rfl
      exact hyb.elim nd.1.1 nd.1.2
  · have hyp : y ∈ post := hy
    rw [Function.update_of_ne, Function.update_of_ne]
    · rintro rfl
      exact hx.2.2.2 hyp
    · rintro rfl
      exact nd.2.1 hyp

end DoubleLinks
