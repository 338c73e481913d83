import Mathlib

/-!
# One's complement sums of 16-bit words

Words are added with the carry put back in at the low end. The sum is a number from
0 to 65535; it is the plain sum modulo 65535, with 65535 for every multiple but zero
itself (`fold`).

* `sum_eq`      — adding word by word comes to `fold` of the plain sum;
* `sum_map_swap` — swapping the bytes of all words swaps those of the sum;
* `sum_set`     — a word that makes the sum up to 65535.
-/

namespace OnesComplement

/-- End-around carry. -/
def add (a b : Nat) : Nat := if a + b < 0x10000 then a + b else a + b - 0xFFFF

def sum : List Nat → Nat
  | [] => 0
  | w :: ws => add w (sum ws)

/-- What is put in for a zero word to make the sum 65535. -/
def checksum (ws : List Nat) : Nat := 0xFFFF - sum ws

/-- The one's complement value of a plain sum. -/
def fold (u : Nat) : Nat := if u = 0 then 0 else (u - 1) % 0xFFFF + 1

/-- The word with its bytes swapped. -/
def swap (x : Nat) : Nat := x % 256 * 256 + x / 256

variable {a b u w : Nat} {ws : List Nat}

theorem fold_le (u : Nat) : fold u ≤ 0xFFFF := by
  unfold fold
  split <;> omega

theorem fold_lt (u : Nat) : fold u < 0x10000 := by
  have hle := fold_le u
  omega

theorem fold_of_le (h : u ≤ 0xFFFF) : fold u = u := by
  unfold fold
  split <;> omega

/-- Carrying at once or in the end is the same. -/
theorem fold_add_fold (a u : Nat) : fold (a + fold u) = fold (a + u) := by
  unfold fold
  split <;> split <;> split <;> omega

theorem add_eq (ha : a < 0x10000) (hb : b < 0x10000) : add a b = fold (a + b) := by
  unfold add fold
  split <;> split <;> omega

/-- The halves of a sum add up to the same value. -/
theorem fold_halves (u : Nat) : fold (u % 0x10000 + u / 0x10000) = fold u := by
  have hdiv := Nat.mod_add_div u 0x10000
  generalize u % 0x10000 = r at *
  generalize u / 0x10000 = q at *
  unfold fold
  split <;> split <;> omega

/-- **The sum word by word.** -/
theorem sum_eq (h : ∀ w ∈ ws, w < 0x10000) : sum ws = fold ws.sum := by
  induction ws with
  | nil => rfl
  | cons w ws ih =>
    rw [List.forall_mem_cons] at h
    rw [sum, ih h.2, add_eq h.1 (fold_lt _), fold_add_fold, List.sum_cons]

theorem sum_lt (h : ∀ w ∈ ws, w < 0x10000) : sum ws < 0x10000 := by
  rw [sum_eq h]
  exact fold_lt _

theorem swap_lt (h : a < 0x10000) : swap a < 0x10000 := by
  unfold swap
  omega

theorem swap_swap (h : a < 0x10000) : swap (swap a) = a := by
  unfold swap
  omega

/-- Swapping the bytes multiplies by 256. -/
theorem swap_fold (u : Nat) : swap (fold u) = fold (256 * u) := by
  rcases Nat.eq_zero_or_pos u with rfl | hu
  · decide
  · unfold fold
    rw [if_neg (Nat.ne_of_gt hu), if_neg (by omega)]
    unfold swap
    omega

theorem fold_swap_add (ha : a < 0x10000) (u : Nat) : fold (swap a + u) = fold (256 * a + u) := by
  unfold swap fold
  split <;> split <;> omega

/-- **The bytes of the sum** stand as those of the words do. -/
theorem sum_map_swap (h : ∀ w ∈ ws, w < 0x10000) : sum (ws.map swap) = swap (sum ws) := by
  induction ws with
  | nil => rfl
  | cons w ws ih =>
    rw [List.forall_mem_cons] at h
    have hsum := sum_lt h.2
    calc sum ((w :: ws).map swap) = add (swap w) (swap (sum ws)) := by rw [List.map_cons, sum, ih h.2]
      _ = fold (swap w + swap (sum ws)) := add_eq (swap_lt h.1) (swap_lt hsum)
      _ = fold (256 * w + 256 * sum ws) := by
        rw [fold_swap_add h.1, Nat.add_comm, fold_swap_add hsum, Nat.add_comm]
      _ = swap (fold (w + sum ws)) := by rw [swap_fold, Nat.mul_add]
      _ = swap (sum (w :: ws)) := by rw [sum, add_eq h.1 hsum]

theorem checksum_swap (h : ∀ w ∈ ws, w < 0x10000) : checksum (ws.map swap) = swap (checksum ws) := by
  have hsum := sum_lt h
  unfold checksum
  rw [sum_map_swap h]
  unfold swap
  omega

theorem sum_set_zero {k : Nat} (hk : ws[k]? = some 0) (v : Nat) : (ws.set k v).sum = ws.sum + v := by
  induction ws generalizing k with
  | nil => cases hk
  | cons w ws ih =>
    cases k with
    | zero =>
      obtain rfl : w = 0 := Option.some.inj hk
      rw [List.set_cons_zero, List.sum_cons, List.sum_cons, Nat.zero_add, Nat.add_comm]
    | succ k =>
      rw [List.set_cons_succ, List.sum_cons, List.sum_cons, ih hk, Nat.add_assoc]

/-- **With the checksum put in for a zero word** the words sum to 65535. -/
theorem sum_set {k : Nat} (h : ∀ w ∈ ws, w < 0x10000) (hk : ws[k]? = some 0) :
    sum (ws.set k (checksum ws)) = 0xFFFF := by
  have hset : ∀ w ∈ ws.set k (checksum ws), w < 0x10000 := by
    intro w hw
    rcases List.mem_or_eq_of_mem_set hw with hw | rfl
    · exact h w hw
    · unfold checksum
      omega
  rw [sum_eq hset, sum_set_zero hk, checksum, sum_eq h]
  unfold fold
  split_ifs <;> omega

end OnesComplement
