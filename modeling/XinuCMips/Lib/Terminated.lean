import Mathlib.Data.List.Basic

/-!
# Strings one after another

Strings in a buffer, each with a separator behind it. Empty ones do not count.

* `pieces_cons`, `pieces_last` — how the buffer is taken apart from the front;
* `pieces_encode` — strings that are written are read back.
-/

namespace Terminated

variable {α : Type} [BEq α] {sep : α} {a l : List α}

/-- The strings of a buffer. -/
def pieces (sep : α) (l : List α) : List (List α) := (l.splitOn sep).filter fun a => !a.isEmpty

/-- A buffer with strings. -/
def encode (sep : α) (as : List (List α)) : List α := as.flatMap fun a => a ++ [sep]

theorem pieces_nil : pieces sep ([] : List α) = [] := by
  unfold pieces
  rw [List.splitOn_nil]
  rfl

variable [LawfulBEq α]

/-- The first string ends at the first separator. -/
theorem pieces_cons (h : sep ∉ a) (l : List α) :
    pieces sep (a ++ sep :: l) = if a = [] then pieces sep l else a :: pieces sep l := by
  unfold pieces
  rw [List.splitOn_append_cons_self_of_not_mem h]
  cases a with
  | nil => rfl
  | cons x a => rfl

/-- The last string may have none behind it. -/
theorem pieces_last (h : sep ∉ a) : pieces sep a = if a = [] then [] else [a] := by
  unfold pieces
  rw [List.splitOn_eq_singleton h]
  cases a with
  | nil => rfl
  | cons x a => rfl

/-- **What is written is read back.** -/
theorem pieces_encode {as : List (List α)} (h : ∀ a ∈ as, sep ∉ a ∧ a ≠ []) :
    pieces sep (encode sep as) = as := by
  induction as with
  | nil => exact pieces_nil
  | cons a as ih =>
    obtain ⟨hsep, hne⟩ := h a List.mem_cons_self
    have hcons : encode sep (a :: as) = a ++ sep :: encode sep as := List.append_assoc _ _ _
    rw [hcons, pieces_cons hsep, if_neg hne, ih fun b hb => h b (List.mem_cons_of_mem a hb)]

end Terminated
