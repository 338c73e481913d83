import Mathlib.Data.List.Nodup
import Mathlib.Logic.Function.Basic

/-!
# Delta lists

In a delta list the key of an element is its delay after the element before
it, so that counting down the first key counts down all delays. `due` is the
delay of an element from now.

* `due_shift`       — a change of the first key moves every delay;
* `due_insert_old`, `due_insert_new` — insertion;
* `due_remove`      — removal.
-/

namespace Delta

variable {α : Type} {key key' : α → Int} {x p : α} {l before after : List α}

/-- The delay of a whole list. -/
def total (key : α → Int) : List α → Int
  | [] => 0
  | y :: l => key y + total key l

theorem total_congr (h : ∀ y ∈ l, key' y = key y) : total key' l = total key l := by
  induction l with
  | nil => rfl
  | cons y l ih =>
    unfold total
    rw [h y (by simp), ih fun z hz => h z (by simp [hz])]

theorem total_nonneg (h : ∀ y ∈ l, 0 ≤ key y) : 0 ≤ total key l := by
  induction l with
  | nil => exact Int.le_refl _
  | cons y l ih =>
    have h1 := h y (by simp)
    have h2 := ih fun z hz => h z (by simp [hz])
    unfold total
    omega

variable [DecidableEq α]

/-- The delay of `x`: the keys up to and including its own. -/
def due (key : α → Int) : List α → α → Int
  | [], _ => 0
  | y :: l, x => if x = y then key y else key y + due key l x

/-- Add `v` to the first key of a list. -/
def shift (key : α → Int) (v : Int) : List α → α → Int
  | [] => key
  | y :: _ => Function.update key y (key y + v)

theorem due_cons_self (key : α → Int) (x : α) (l : List α) : due key (x :: l) x = key x :=
  if_pos rfl

theorem due_cons_of_ne {y : α} (h : x ≠ y) (key : α → Int) (l : List α) :
    due key (y :: l) x = key y + due key l x := if_neg h

theorem due_append_of_mem (h : x ∈ before) : due key (before ++ after) x = due key before x := by
  induction before with
  | nil => simp at h
  | cons y l ih =>
    rw [List.cons_append]
    by_cases hxy : x = y
    · subst hxy
      rw [due_cons_self, due_cons_self]
    · rw [due_cons_of_ne hxy, due_cons_of_ne hxy, ih ((List.mem_cons.mp h).resolve_left hxy)]

theorem due_append_of_not_mem (h : x ∉ before) :
    due key (before ++ after) x = total key before + due key after x := by
  induction before with
  | nil => simp [total]
  | cons y l ih =>
    rw [List.mem_cons, not_or] at h
    rw [List.cons_append, due_cons_of_ne h.1, ih h.2, total]
    omega

theorem due_congr (h : ∀ y ∈ l, key' y = key y) (x : α) : due key' l x = due key l x := by
  induction l with
  | nil => rfl
  | cons y l ih =>
    unfold due
    rw [h y (by simp), ih fun z hz => h z (by simp [hz])]

theorem shift_of_not_mem (h : x ∉ l) (key : α → Int) (v : Int) : shift key v l x = key x := by
  cases l with
  | nil => rfl
  | cons y l =>
    rw [List.mem_cons, not_or] at h
    exact Function.update_of_ne h.1 _ _

/-- A change of the first key moves every delay. -/
theorem due_shift (hnd : l.Nodup) (hx : x ∈ l) (v : Int) :
    due (shift key v l) l x = due key l x + v := by
  cases l with
  | nil => simp at hx
  | cons y l =>
    have hy : shift key v (y :: l) y = key y + v := Function.update_self _ _ _
    by_cases hxy : x = y
    · subst hxy
      rw [due_cons_self, due_cons_self, hy]
    · have hl : ∀ z ∈ l, shift key v (y :: l) z = key z := by
        intro z hz
        refine Function.update_of_ne ?_ _ _
        rintro rfl
        exact (List.nodup_cons.mp hnd).1 hz
      rw [due_cons_of_ne hxy, due_cons_of_ne hxy, hy, due_congr hl]
      omega

/-! ## Insertion and removal -/

/-- A new element splits the delay before the next one. -/
def insertKey (key : α → Int) (p : α) (k : Int) (after : List α) : α → Int :=
  shift (Function.update key p k) (-k) after

variable {k : Int}

theorem insertKey_before (hnd : (before ++ p :: after).Nodup) :
    ∀ y ∈ before, insertKey key p k after y = key y := by
  intro y hy
  have hdis := (List.nodup_append.mp hnd).2.2 y hy
  unfold insertKey
  rw [shift_of_not_mem fun hya => hdis y (by simp [hya]) rfl]
  exact Function.update_of_ne (hdis p (by simp)) _ _

theorem insertKey_self (hnd : (before ++ p :: after).Nodup) : insertKey key p k after p = k := by
  have hp := (List.nodup_cons.mp (List.nodup_append.mp hnd).2.1).1
  unfold insertKey
  rw [shift_of_not_mem hp]
  exact Function.update_self _ _ _

theorem due_insert_new (hnd : (before ++ p :: after).Nodup) :
    due (insertKey key p k after) (before ++ p :: after) p = total key before + k := by
  have hp : p ∉ before := fun hp => (List.nodup_append.mp hnd).2.2 p hp p (by simp) rfl
  rw [due_append_of_not_mem hp, due_cons_self, insertKey_self hnd,
    total_congr (insertKey_before hnd)]

/-- Insertion leaves the delays of the others. -/
theorem due_insert_old (hnd : (before ++ p :: after).Nodup) (hx : x ∈ before ++ after) :
    due (insertKey key p k after) (before ++ p :: after) x = due key (before ++ after) x := by
  have hsplit := List.nodup_append.mp hnd
  have hcons := List.nodup_cons.mp hsplit.2.1
  by_cases hxb : x ∈ before
  · rw [due_append_of_mem hxb, due_append_of_mem hxb, due_congr (insertKey_before hnd)]
  · have hxa := (List.mem_append.mp hx).resolve_left hxb
    have hxp : x ≠ p := by
      rintro rfl
      exact hcons.1 hxa
    have hup : ∀ y ∈ after, Function.update key p k y = key y := by
      intro y hy
      refine Function.update_of_ne ?_ _ _
      rintro rfl
      exact hcons.1 hy
    rw [due_append_of_not_mem hxb, due_append_of_not_mem hxb, due_cons_of_ne hxp,
      insertKey_self hnd, total_congr (insertKey_before hnd)]
    unfold insertKey
    rw [due_shift hcons.2 hxa, due_congr hup]
    omega

/-- The next element inherits the delay of one that is removed. -/
theorem due_remove (hnd : (before ++ p :: after).Nodup) (hx : x ∈ before ++ after) :
    due (shift key (key p) after) (before ++ after) x = due key (before ++ p :: after) x := by
  have hsplit := List.nodup_append.mp hnd
  have hcons := List.nodup_cons.mp hsplit.2.1
  have hb : ∀ y ∈ before, shift key (key p) after y = key y := fun y hy =>
    shift_of_not_mem (fun hya => hsplit.2.2 y hy y (by simp [hya]) rfl) _ _
  by_cases hxb : x ∈ before
  · rw [due_append_of_mem hxb, due_append_of_mem hxb, due_congr hb]
  · have hxa := (List.mem_append.mp hx).resolve_left hxb
    have hxp : x ≠ p := by
      rintro rfl
      exact hcons.1 hxa
    rw [due_append_of_not_mem hxb, due_append_of_not_mem hxb, due_cons_of_ne hxp, total_congr hb,
      due_shift hcons.2 hxa]
    omega

/-! ## Bounds -/

theorem shift_nonneg {v : Int} (hhead : ∀ y S, l = y :: S → 0 ≤ key y + v) (h : 0 ≤ key x) :
    0 ≤ shift key v l x := by
  cases l with
  | nil => exact h
  | cons y S =>
    change 0 ≤ Function.update key y (key y + v) x
    by_cases hxy : x = y
    · rw [hxy, Function.update_self]
      exact hhead y S rfl
    · rw [Function.update_of_ne hxy]
      exact h

/-- A new key that is no longer than the next one leaves no negative key. -/
theorem insertKey_nonneg (hnd : (before ++ p :: after).Nodup) (hk : 0 ≤ k)
    (hhead : ∀ y S, after = y :: S → k ≤ key y) (h : ∀ y ∈ before ++ after, 0 ≤ key y) :
    ∀ y ∈ before ++ p :: after, 0 ≤ insertKey key p k after y := by
  intro y hy
  have hp := (List.nodup_cons.mp (List.nodup_append.mp hnd).2.1).1
  refine shift_nonneg (fun z S hz => ?_) ?_
  · have hzp : z ≠ p := by
      rintro rfl
      exact hp (by rw [hz]; exact List.mem_cons_self)
    have hle := hhead z S hz
    rw [Function.update_of_ne hzp]
    omega
  · by_cases hyp : y = p
    · rw [hyp, Function.update_self]
      exact hk
    · rw [Function.update_of_ne hyp]
      refine h y ?_
      simp only [List.mem_append, List.mem_cons] at hy ⊢
      tauto

theorem due_nonpos (h : ∀ y ∈ l, key y ≤ 0) : due key l x ≤ 0 := by
  induction l with
  | nil => exact Int.le_refl _
  | cons y l ih =>
    have h1 := h y (by simp)
    have h2 := ih fun z hz => h z (by simp [hz])
    unfold due
    split <;> omega

theorem key_le_due (h : ∀ y ∈ l, 0 ≤ key y) (hx : x ∈ l) : key x ≤ due key l x := by
  induction l with
  | nil => simp at hx
  | cons y l ih =>
    by_cases hxy : x = y
    · subst hxy
      exact Int.le_of_eq (due_cons_self key x l).symm
    · have h1 := h y (by simp)
      have h2 := ih (fun z hz => h z (by simp [hz])) ((List.mem_cons.mp hx).resolve_left hxy)
      rw [due_cons_of_ne hxy]
      omega

/-- The first delay is the shortest. -/
theorem head_le_due {y : α} (h : ∀ z ∈ y :: l, 0 ≤ key z) (hx : x ∈ y :: l) :
    key y ≤ due key (y :: l) x := by
  by_cases hxy : x = y
  · subst hxy
    exact Int.le_of_eq (due_cons_self key x l).symm
  · have hxl := (List.mem_cons.mp hx).resolve_left hxy
    have h1 := key_le_due (fun z hz => h z (List.mem_cons_of_mem _ hz)) hxl
    have h2 := h x hx
    rw [due_cons_of_ne hxy]
    omega

end Delta
