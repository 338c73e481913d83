import Mathlib.Data.List.Basic
import Mathlib.Logic.Function.Basic

/-!
# Lists linked through an optional pointer

`Follows next head l` says that a list starting at `head` and followed
through `next` runs through the elements of `l`, in order, and ends in a null
pointer behind the last one.

* `follows_iff_getElem?` — the same, one element at a time;
* `Follows.congr` — only the links of the elements matter;
* `Follows.unique` — a pointer starts at most one list;
* `Follows.redirect` — the last link is turned to another list;
* `Follows.countFrom` — a loop that counts the elements comes to their number.
-/

namespace Follow

variable {α : Type} {next next' : α → Option α} {head : Option α} {l l' : List α} {a : α}

/-- `l` are the elements met from `head` on. -/
def Follows (next : α → Option α) : Option α → List α → Prop
  | head, [] => head = none
  | head, a :: l => head = some a ∧ Follows next (next a) l

theorem Follows.head?_eq (h : Follows next head l) : head = l.head? := by
  cases l with
  | nil => exact h
  | cons a l => exact h.1

theorem Follows.tail (h : Follows next head (a :: l)) : Follows next (next a) l := h.2

theorem Follows.next_eq (h : Follows next head (a :: l)) : next a = l.head? := h.2.head?_eq

/-- Two functions that agree on the elements link the same list. -/
theorem Follows.congr (h : Follows next head l) (hag : ∀ a ∈ l, next' a = next a) :
    Follows next' head l := by
  induction l generalizing head with
  | nil => exact h
  | cons a l ih =>
    rw [List.forall_mem_cons] at hag
    refine ⟨h.1, ?_⟩
    rw [hag.1]
    exact ih h.2 hag.2

/-- **Each element links to the one behind it.** -/
theorem follows_iff_getElem? :
    Follows next l.head? l ↔ ∀ j a, l[j]? = some a → next a = l[j + 1]? := by
  induction l with
  | nil => simp [Follows]
  | cons b l ih =>
    constructor
    · intro h j a hj
      cases j with
      | zero =>
        obtain rfl := Option.some.inj hj
        rw [h.next_eq, List.head?_eq_getElem?]
        rfl
      | succ j => exact ih.mp (h.next_eq ▸ h.tail) j a hj
    · intro h
      have hb : next b = l.head? := by
        rw [h 0 b rfl, List.head?_eq_getElem?]
        rfl
      refine ⟨rfl, ?_⟩
      rw [hb]
      exact ih.mpr fun j a hj => h (j + 1) a hj

/-- A pointer starts at most one list. -/
theorem Follows.unique (h : Follows next head l) (h' : Follows next head l') : l = l' := by
  induction l generalizing head l' with
  | nil =>
    cases l' with
    | nil => rfl
    | cons b l' => exact absurd (h.symm.trans h'.1) (by simp)
  | cons a l ih =>
    cases l' with
    | nil => exact absurd (h.1.symm.trans h') (by simp)
    | cons b l' =>
      obtain rfl := Option.some.inj (h.1.symm.trans h'.1)
      rw [ih h.2 h'.2]

/-- **Turning the last link** to the start of another list joins the two. -/
theorem Follows.redirect [DecidableEq α] {free : Option α} {t : α} {m : List α}
    (h : Follows next head (l ++ [t])) (ht : t ∉ l) (hm : Follows next free m) (htm : t ∉ m) :
    Follows (Function.update next t free) head (l ++ t :: m) := by
  induction l generalizing head with
  | nil =>
    refine ⟨h.1, ?_⟩
    rw [Function.update_self]
    exact hm.congr fun a ha => Function.update_of_ne (ne_of_mem_of_not_mem ha htm) _ _
  | cons b l ih =>
    obtain ⟨htb, htl⟩ := not_or.mp fun hor => ht (List.mem_cons.mpr hor)
    refine ⟨h.1, ?_⟩
    rw [Function.update_of_ne (Ne.symm htb)]
    exact ih h.2 htl

/-- The loop that follows `next` from a pointer on and counts, for a number of
turns at most. -/
def countFrom (next : α → Option α) : Nat → Option α → Nat → Option Nat
  | _, none, n => some n
  | 0, some _, _ => none
  | turns + 1, some a, n => countFrom next turns (next a) (n + 1)

/-- **A list is counted** in as many turns as it has elements. -/
theorem Follows.countFrom {turns : Nat} (h : Follows next head l) (hl : l.length ≤ turns)
    (n : Nat) : countFrom next turns head n = some (n + l.length) := by
  induction l generalizing head turns n with
  | nil =>
    obtain rfl : head = none := h
    cases turns <;> rfl
  | cons a l ih =>
    obtain ⟨rfl, htail⟩ := h
    match turns, hl with
    | turns + 1, hl =>
      rw [Follow.countFrom, ih htail (Nat.le_of_succ_le_succ hl), List.length_cons]
      congr 1
      omega

end Follow
