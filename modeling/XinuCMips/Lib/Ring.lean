import Mathlib.Data.List.Basic
import Mathlib.Data.Nat.ModEq

/-!
# Ring buffers

An array of `n` slots holds a queue from the slot `head` on, round the end of
the array. The slots are a function of the index, so that a wrong index shows
as a wrong slot.

* `Ring.Holds.enqueue` — storing behind the last element;
* `Ring.Holds.dequeue` — taking the first element;
* `Ring.next_of_lt`    — a shorter wrap is the right one below its end.
-/

namespace Ring

variable {α : Type} {n m i head : Nat} {slots : Nat → α} {a b : α} {q : List α}

/-- The index behind `i` in a ring of `n` slots: incremented, and back to the
start when it is `n` or more. -/
def next (n i : Nat) : Nat := if i + 1 ≥ n then 0 else i + 1

theorem next_lt (hn : 0 < n) : next n i < n := by
  unfold next
  by_cases h : i + 1 ≥ n
  · rw [if_pos h]
    exact hn
  · rw [if_neg h]
    omega

theorem next_eq_mod (hi : i < n) : next n i = (i + 1) % n := by
  unfold next
  by_cases h : i + 1 ≥ n
  · have hin : i + 1 = n := by omega
    rw [if_pos h, hin, Nat.mod_self]
  · rw [if_neg h, Nat.mod_eq_of_lt (by omega)]

/-- Below its last slot a ring does not show how long it is. -/
theorem next_of_lt (hi : i + 1 < m) : next m i = i + 1 := if_neg (by omega)

theorem next_add_mod (hh : head < n) (k : Nat) :
    (next n head + k) % n = (head + (k + 1)) % n := by
  rw [next_eq_mod hh, Nat.mod_add_mod, Nat.add_assoc, Nat.add_comm 1 k]

/-- The slots hold `q`, oldest first, from `head` on. -/
def Holds (n : Nat) (slots : Nat → α) (head : Nat) (q : List α) : Prop :=
  ∀ k a, q[k]? = some a → slots ((head + k) % n) = a

theorem holds_nil : Holds n slots head [] := by
  intro k a h
  rw [List.getElem?_nil] at h
  cases h

/-- Two offsets below `n` are two slots. -/
theorem slot_ne {j k : Nat} (hk : k < j) (hj : j < n) : (head + k) % n ≠ (head + j) % n := by
  intro h
  have hmod : k ≡ j [MOD n] := Nat.ModEq.add_left_cancel' head h
  have := hmod.eq_of_lt_of_lt (by omega) hj
  omega

/-- **Storing in the slot behind the last element appends it**, unless the ring
is full. -/
theorem Holds.enqueue (h : Holds n slots head q) (hq : q.length < n) (a : α) :
    Holds n (Function.update slots ((head + q.length) % n) a) head (q ++ [a]) := by
  intro k b hb
  rcases Nat.lt_or_ge k q.length with hk | hk
  · rw [List.getElem?_append_left hk] at hb
    rw [Function.update_of_ne (slot_ne hk hq)]
    exact h k b hb
  · -- only the new element stands behind the old ones
    rw [List.getElem?_append_right hk] at hb
    have hk0 : k = q.length := by
      by_contra hne
      rw [List.getElem?_eq_none (by simp; omega)] at hb
      cases hb
    subst hk0
    rw [Nat.sub_self] at hb
    rw [Function.update_self]
    exact Option.some.inj hb

/-- The first element is in the slot `head`. -/
theorem Holds.front (h : Holds n slots head (a :: q)) (hh : head < n) : slots head = a := by
  have h0 := h 0 a rfl
  rwa [Nat.add_zero, Nat.mod_eq_of_lt hh] at h0

/-- **Moving the head on drops the first element.** -/
theorem Holds.dequeue (h : Holds n slots head (a :: q)) (hh : head < n) :
    Holds n slots (next n head) q := by
  intro k b hb
  rw [next_add_mod hh k]
  exact h (k + 1) b hb

/-- The slot behind the last element of a shorter queue. -/
theorem tail_dequeue (hh : head < n) :
    (next n head + q.length) % n = (head + (a :: q).length) % n :=
  next_add_mod hh q.length

/-- The slot behind the last element of a longer queue. -/
theorem tail_enqueue (hn : 0 < n) :
    next n ((head + q.length) % n) = (head + (q ++ [a]).length) % n := by
  rw [next_eq_mod (Nat.mod_lt _ hn), Nat.mod_add_mod, List.length_append]
  rfl

end Ring
