import Mathlib.Data.List.Chain

/-!
# Lists threaded through a `next` function

A singly linked list in memory is a list of nodes in which each node's
`next` field holds the node after it. `Threaded next l` says so of the
whole list `l`, terminator included, so the head cell, the inner nodes and
the final null pointer are all elements of `l`.

* `Threaded.congr` — only the fields of the nodes before the last matter.
* `Threaded.continues` — two lists that start together go on together.
* `threaded_redirect` — overwriting one field cuts the list there and
  continues it elsewhere; every insertion and removal is one of these.
-/

namespace Thread

variable {α : Type*}

/-- Each element of `l` holds the following one in its `next` field. -/
def Threaded (next : α → α) (l : List α) : Prop :=
  l.IsChain fun a b => next a = b

@[simp] theorem threaded_singleton (next : α → α) (a : α) : Threaded next [a] :=
  List.isChain_singleton a

@[simp] theorem threaded_cons_cons {next : α → α} {a b : α} {l : List α} :
    Threaded next (a :: b :: l) ↔ next a = b ∧ Threaded next (b :: l) :=
  List.isChain_cons_cons

/-- A threaded list splits at any of its nodes. -/
theorem threaded_split {next : α → α} {c : α} {l₁ l₂ : List α} :
    Threaded next (l₁ ++ c :: l₂) ↔ Threaded next (l₁ ++ [c]) ∧ Threaded next (c :: l₂) :=
  List.isChain_split

/-- Two functions that agree on every node but the last thread the same list. -/
theorem Threaded.congr {next next' : α → α} {l : List α} (h : Threaded next l)
    (hag : ∀ a ∈ l.dropLast, next' a = next a) : Threaded next' l := by
  induction l with
  | nil => exact List.isChain_nil
  | cons a l ih =>
    cases l with
    | nil => simp
    | cons b l =>
      rw [threaded_cons_cons] at h ⊢
      simp only [List.dropLast_cons_cons, List.mem_cons, forall_eq_or_imp] at hag
      exact ⟨hag.1.trans h.1, ih h.2 hag.2⟩

/-- **Redirecting one field.** If `next'` agrees with `next` on the nodes
before `a` and sends `a` to a list threaded by `next'`, the two pieces join. -/
theorem threaded_redirect {next next' : α → α} {l r r' : List α} {a b : α}
    (h : Threaded next (l ++ a :: r)) (hag : ∀ x ∈ l, next' x = next x)
    (ha : next' a = b) (hr : Threaded next' (b :: r')) :
    Threaded next' (l ++ a :: b :: r') := by
  rw [threaded_split] at h ⊢
  refine ⟨h.1.congr fun x hx => hag x ?_, threaded_cons_cons.mpr ⟨ha, hr⟩⟩
  simpa using hx

/-- Following `next` from a node leads to the node after it. -/
theorem Threaded.next_eq {next : α → α} {l r : List α} {a b : α}
    (h : Threaded next (l ++ a :: b :: r)) : next a = b := by
  rw [threaded_split, threaded_cons_cons] at h
  exact h.2.1

/-- **A prefix determines how the list goes on.** A list from `a` to `z` that
meets a list from `a` to `x` without `z` in it contains that list. -/
theorem Threaded.continues {next : α → α} {x z : α} (hx : x ≠ z) : ∀ {l l' : List α} {a : α},
    Threaded next (a :: l ++ [x]) → Threaded next (a :: l' ++ [z]) → z ∉ l →
      ∃ r, l' = l ++ x :: r
  | [], [], a, h, h', _ => by
    simp only [List.cons_append, List.nil_append, threaded_cons_cons] at h h'
    exact absurd (h.1.symm.trans h'.1) hx
  | [], b :: l', a, h, h', _ => by
    simp only [List.cons_append, List.nil_append, threaded_cons_cons] at h h'
    exact ⟨l', by rw [h'.1.symm.trans h.1]; rfl⟩
  | b :: l, [], a, h, h', hz => by
    simp only [List.cons_append, List.nil_append, threaded_cons_cons] at h h'
    exact absurd (h'.1.symm.trans h.1) fun hzb => hz (hzb ▸ List.mem_cons_self)
  | b :: l, c :: l', a, h, h', hz => by
    simp only [List.cons_append, threaded_cons_cons] at h h'
    obtain rfl : b = c := h.1.symm.trans h'.1
    obtain ⟨r, hr⟩ := Threaded.continues hx h.2 h'.2 fun hm => hz (List.mem_cons_of_mem _ hm)
    exact ⟨r, by rw [hr, List.cons_append]⟩

end Thread
