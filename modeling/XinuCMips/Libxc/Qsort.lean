import Mathlib.Logic.Function.Basic
import Mathlib.Data.UInt
import XinuCMips.Lib.Quicksort

/-!
# `qsort`

The array is a part of the memory, from `base` on, and a pointer is an address. An access
has a result only where it is one of an element of the array, and the length of a segment
only where it is not negative. The size of an array in memory is in the range of `unsigned`
and of `int`, so that no computation with sizes and addresses wraps around.

* `view_qsexc`, `view_qstexc` — the loops over bytes move whole elements;
* `turn_view`   — a turn of the partition is one on elements;
* `qsort_sorts` — the array is sorted.
-/

namespace Xinu.Libxc

open Quicksort

abbrev Bytes := Nat → UInt8

/-- The loop of `qsexc`: the bytes at `ri` and `rj` change places. -/
def qsexcLoop : Nat → Nat → Nat → Bytes → Bytes
  | 0, _, _, mem => mem
  | n + 1, ri, rj, mem =>
    let c := mem ri
    let mem := Function.update mem ri (mem rj)
    let mem := Function.update mem rj c
    qsexcLoop n (ri + 1) (rj + 1) mem

/-- The loop of `qstexc`. -/
def qstexcLoop : Nat → Nat → Nat → Nat → Bytes → Bytes
  | 0, _, _, _, mem => mem
  | n + 1, ri, rj, rk, mem =>
    let c := mem ri
    let mem := Function.update mem ri (mem rk)
    let mem := Function.update mem rk (mem rj)
    let mem := Function.update mem rj c
    qstexcLoop n (ri + 1) (rj + 1) (rk + 1) mem

/-- The array of a call, with the size of an element and the function that compares two. -/
structure Qs where
  base : Nat
  nel : Nat
  qses : Nat
  qscmp : (Fin qses → UInt8) → (Fin qses → UInt8) → Int

namespace Qs

variable (q : Qs)

/-- The element at an address. -/
def elem (mem : Bytes) (p : Nat) : Fin q.qses → UInt8 := fun d => mem (p + d)

/-- There is an element of the array at an address. -/
def Inside (p : Nat) : Prop :=
  q.base ≤ p ∧ p < q.base + q.nel * q.qses ∧ (p - q.base) % q.qses = 0

instance (p : Nat) : Decidable (q.Inside p) := by
  unfold Inside
  infer_instance

/-- `(*qscmp)(i, j)`. -/
def compare (mem : Bytes) (i j : Nat) : Option Int :=
  if q.Inside i ∧ q.Inside j then some (q.qscmp (q.elem mem i) (q.elem mem j)) else none

def qsexc (i j : Nat) (mem : Bytes) : Option Bytes :=
  if q.Inside i ∧ q.Inside j then some (qsexcLoop q.qses i j mem) else none

def qstexc (i j k : Nat) (mem : Bytes) : Option Bytes :=
  if q.Inside i ∧ q.Inside j ∧ q.Inside k then some (qstexcLoop q.qses i j k mem) else none

/-- The variables of the partition in `qs1`, and the label where it goes on: the head of the
`for`, or `loop`. -/
structure Qs1 where
  label : Label
  i : Nat
  j : Nat
  lp : Nat
  hp : Nat
  mem : Bytes

/-- How a turn ends. -/
inductive Turn
  | next (s : Qs1)
  | done

/-- From one label to the next one. -/
def turn (s : Qs1) : Option Turn :=
  let es := q.qses
  match s.label with
  | .top =>
    if s.i < s.lp then
      (q.compare s.mem s.i s.lp).bind fun c =>
        if c = 0 then
          (q.qsexc s.i (s.lp - es) s.mem).map fun mem => .next { s with lp := s.lp - es, mem := mem }
        else if c < 0 then some (.next { s with i := s.i + es })
        else some (.next { s with label := .loop })
    else some (.next { s with label := .loop })
  | .loop =>
    if s.j > s.hp then
      (q.compare s.mem s.hp s.j).bind fun c =>
        if c = 0 then
          (q.qsexc (s.hp + es) s.j s.mem).map fun mem => .next { s with hp := s.hp + es, mem := mem }
        else if c > 0 then
          if s.i = s.lp then
            (q.qstexc s.i (s.hp + es) s.j s.mem).map fun mem => .next { s with
              i := s.lp + es, lp := s.lp + es, hp := s.hp + es, mem := mem }
          else
            (q.qsexc s.i s.j s.mem).map fun mem => .next { s with
              label := .top, i := s.i + es, j := s.j - es, mem := mem }
        else some (.next { s with j := s.j - es })
    else if s.i = s.lp then some .done
    else
      (q.qstexc s.j (s.lp - es) s.i s.mem).map fun mem => .next { s with
        label := .top, j := s.hp - es, lp := s.lp - es, hp := s.hp - es, mem := mem }

/-- The partition, with a bound on the turns: `lp`, `hp` and the memory at its end. -/
def partition : Nat → Qs1 → Option Qs1
  | 0, _ => none
  | k + 1, s => (q.turn s).bind fun
    | .next s => partition k s
    | .done => some s

/-- `qs1`, with a bound on the depth of the calls; the jump to `start` is a call, too. -/
def qs1 : Nat → Nat → Nat → Bytes → Option Bytes
  | 0, _, _, _ => none
  | k + 1, a, l, mem =>
    let es := q.qses
    if l < a then none
    else if l - a ≤ es then some mem
    else
      let n := es * ((l - a) / (2 * es))
      (q.partition (2 * (l - a) + 2)
        { label := .top, i := a, j := l - es, lp := a + n, hp := a + n, mem := mem }).bind fun s =>
        if s.lp - a ≥ l - s.hp then
          (qs1 k (s.hp + es) l s.mem).bind fun mem => qs1 k a s.lp mem
        else (qs1 k a s.lp s.mem).bind fun mem => qs1 k (s.hp + es) l mem

end Qs

/-- `qsort`. -/
def qsort (a n es : Nat) (fc : (Fin es → UInt8) → (Fin es → UInt8) → Int) (mem : Bytes) :
    Option Bytes :=
  Qs.qs1 ⟨a, n, es, fc⟩ (n + 1) a (a + n * es) mem

/-- The elements of an array. -/
def elements (a n es : Nat) (mem : Bytes) : List (Fin es → UInt8) :=
  (List.range n).map fun k d => mem (a + k * es + d)

-- ---------------------------------------------------------------------------
-- The exchanges
-- ---------------------------------------------------------------------------

/-- What `qsexc` leaves at an address. -/
theorem qsexcLoop_apply {n ri rj : Nat} (h : ri = rj ∨ ri + n ≤ rj ∨ rj + n ≤ ri) (mem : Bytes)
    (x : Nat) :
    qsexcLoop n ri rj mem x =
      if ri ≤ x ∧ x < ri + n then mem (rj + (x - ri))
      else if rj ≤ x ∧ x < rj + n then mem (ri + (x - rj))
      else mem x := by
  induction n generalizing ri rj mem with
  | zero =>
    rw [if_neg (by omega), if_neg (by omega)]
    rfl
  | succ n ih =>
    -- the bytes that the turn writes are not read again
    rw [qsexcLoop, ih (by omega)]
    simp only [Function.update_apply]
    split_ifs <;> exact congrArg mem (by omega)

/-- What `qstexc` leaves at an address; the second and the third element may be one. -/
theorem qstexcLoop_apply {n ri rj rk : Nat} (hj : ri + n ≤ rj ∨ rj + n ≤ ri)
    (hk : ri + n ≤ rk ∨ rk + n ≤ ri) (hjk : rj = rk ∨ rj + n ≤ rk ∨ rk + n ≤ rj) (mem : Bytes)
    (x : Nat) :
    qstexcLoop n ri rj rk mem x =
      if ri ≤ x ∧ x < ri + n then mem (rk + (x - ri))
      else if rj ≤ x ∧ x < rj + n then mem (ri + (x - rj))
      else if rk ≤ x ∧ x < rk + n then mem (rj + (x - rk))
      else mem x := by
  induction n generalizing ri rj rk mem with
  | zero =>
    rw [if_neg (by omega), if_neg (by omega), if_neg (by omega)]
    rfl
  | succ n ih =>
    rw [qstexcLoop, ih (by omega) (by omega) (by omega)]
    simp only [Function.update_apply]
    split_ifs <;> exact congrArg mem (by omega)

namespace Qs

-- ---------------------------------------------------------------------------
-- Addresses and elements
-- ---------------------------------------------------------------------------

variable {q : Qs} {mem mem' : Bytes} {i j k m n : Nat}

/-- The address of an element. -/
def addr (q : Qs) (k : Nat) : Nat := q.base + k * q.qses

/-- The memory as a sequence of elements. -/
def view (q : Qs) (mem : Bytes) : Nat → Fin q.qses → UInt8 := fun k => q.elem mem (q.addr k)

theorem addr_succ (k : Nat) : q.addr (k + 1) = q.addr k + q.qses := by
  rw [addr, addr, Nat.succ_mul, Nat.add_assoc]

theorem addr_pred (hk : 0 < k) : q.addr (k - 1) = q.addr k - q.qses := by
  obtain ⟨n, rfl⟩ := Nat.exists_eq_add_one.mpr hk
  rw [addr_succ, Nat.add_sub_cancel, Nat.add_sub_cancel]

theorem addr_lt_iff (hes : 0 < q.qses) : q.addr i < q.addr j ↔ i < j := by
  rw [addr, addr, Nat.add_lt_add_iff_left, Nat.mul_lt_mul_right hes]

theorem addr_inj (hes : 0 < q.qses) : q.addr i = q.addr j ↔ i = j := by
  rw [addr, addr, Nat.add_left_cancel_iff, Nat.mul_left_inj (Nat.pos_iff_ne_zero.mp hes)]

/-- Different elements have no byte in common. -/
theorem addr_apart (h : i < j) : q.addr i + q.qses ≤ q.addr j := by
  rw [← addr_succ, addr, addr]
  exact Nat.add_le_add_left (Nat.mul_le_mul_right _ h) _

theorem addr_apart_of_ne (h : i ≠ j) :
    q.addr i + q.qses ≤ q.addr j ∨ q.addr j + q.qses ≤ q.addr i := by
  rcases Nat.lt_or_gt_of_ne h with hlt | hlt
  · exact .inl (addr_apart hlt)
  · exact .inr (addr_apart hlt)

theorem addr_cases (i j : Nat) : q.addr i = q.addr j ∨ q.addr i + q.qses ≤ q.addr j ∨
    q.addr j + q.qses ≤ q.addr i := by
  by_cases h : i = j
  · exact .inl (congrArg q.addr h)
  · exact .inr (addr_apart_of_ne h)

theorem inside_addr (hes : 0 < q.qses) (hk : k < q.nel) : q.Inside (q.addr k) := by
  refine ⟨Nat.le_add_right _ _, ?_, ?_⟩
  · exact Nat.add_lt_add_left (Nat.mul_lt_mul_of_pos_right hk hes) _
  · rw [addr, Nat.add_sub_cancel_left, Nat.mul_mod_left]

/-- A byte belongs to one element. -/
theorem byte_iff (k m : Nat) (d : Fin q.qses) :
    (q.addr m ≤ q.addr k + d ∧ q.addr k + d < q.addr m + q.qses) ↔ k = m := by
  have hd := d.isLt
  constructor
  · intro hin
    by_contra hne
    rcases addr_apart_of_ne (q := q) hne with hapart | hapart <;> omega
  · rintro rfl
    omega

/-- **`qsexc` exchanges two elements.** -/
theorem view_qsexc (i j : Nat) (mem : Bytes) :
    q.view (qsexcLoop q.qses (q.addr i) (q.addr j) mem) = exchange (q.view mem) i j := by
  funext k d
  rw [view, elem, qsexcLoop_apply (addr_cases i j), exchange_apply]
  simp only [byte_iff]
  by_cases hi : k = i
  · subst hi
    rw [if_pos rfl, if_pos rfl, Nat.add_sub_cancel_left]
    rfl
  · rw [if_neg hi, if_neg hi]
    by_cases hj : k = j
    · subst hj
      rw [if_pos rfl, if_pos rfl, Nat.add_sub_cancel_left]
      rfl
    · rw [if_neg hj, if_neg hj]
      rfl

/-- **`qstexc` rotates three elements.** -/
theorem view_qstexc (hj : i ≠ j) (hk : i ≠ k) (mem : Bytes) :
    q.view (qstexcLoop q.qses (q.addr i) (q.addr j) (q.addr k) mem) =
      rotate (q.view mem) i j k := by
  funext m d
  rw [view, elem, qstexcLoop_apply (addr_apart_of_ne hj) (addr_apart_of_ne hk) (addr_cases j k),
    rotate_apply hj hk]
  simp only [byte_iff]
  by_cases hmi : m = i
  · subst hmi
    rw [if_pos rfl, if_pos rfl, Nat.add_sub_cancel_left]
    rfl
  · rw [if_neg hmi, if_neg hmi]
    by_cases hmj : m = j
    · subst hmj
      rw [if_pos rfl, if_pos rfl, Nat.add_sub_cancel_left]
      rfl
    · rw [if_neg hmj, if_neg hmj]
      by_cases hmk : m = k
      · subst hmk
        rw [if_pos rfl, if_pos rfl, Nat.add_sub_cancel_left]
        rfl
      · rw [if_neg hmk, if_neg hmk]
        rfl

/-- The memory outside of the array is the same. -/
def SameOutside (q : Qs) (mem mem' : Bytes) : Prop :=
  ∀ x, x < q.base ∨ q.addr q.nel ≤ x → mem' x = mem x

/-- A byte outside of the array is none of an element's. -/
theorem not_byte {x : Nat} (hx : x < q.base ∨ q.addr q.nel ≤ x) (hk : k < q.nel) :
    ¬ (q.addr k ≤ x ∧ x < q.addr k + q.qses) := by
  have hle : q.base ≤ q.addr k := Nat.le_add_right _ _
  have happ := addr_apart (q := q) hk
  omega

/-- What the two do to an array, when they get elements of it. -/
theorem qsexc_view (hes : 0 < q.qses) (hi : i < q.nel) (hj : j < q.nel) (mem : Bytes) :
    ∃ mem', q.qsexc (q.addr i) (q.addr j) mem = some mem' ∧
      q.view mem' = exchange (q.view mem) i j ∧ q.SameOutside mem mem' := by
  refine ⟨_, if_pos ⟨inside_addr hes hi, inside_addr hes hj⟩, view_qsexc i j mem, fun x hx => ?_⟩
  rw [qsexcLoop_apply (addr_cases i j), if_neg (not_byte hx hi), if_neg (not_byte hx hj)]

theorem qstexc_view (hes : 0 < q.qses) (hi : i < q.nel) (hj : j < q.nel) (hk : k < q.nel)
    (hij : i ≠ j) (hik : i ≠ k) (mem : Bytes) :
    ∃ mem', q.qstexc (q.addr i) (q.addr j) (q.addr k) mem = some mem' ∧
      q.view mem' = rotate (q.view mem) i j k ∧ q.SameOutside mem mem' := by
  refine ⟨_, if_pos ⟨inside_addr hes hi, inside_addr hes hj, inside_addr hes hk⟩,
    view_qstexc hij hik mem, fun x hx => ?_⟩
  rw [qstexcLoop_apply (addr_apart_of_ne hij) (addr_apart_of_ne hik) (addr_cases j k),
    if_neg (not_byte hx hi), if_neg (not_byte hx hj), if_neg (not_byte hx hk)]

theorem compare_view (hes : 0 < q.qses) (hi : i < q.nel) (hj : j < q.nel) (mem : Bytes) :
    q.compare mem (q.addr i) (q.addr j) = some (q.qscmp (q.view mem i) (q.view mem j)) :=
  if_pos ⟨inside_addr hes hi, inside_addr hes hj⟩

-- ---------------------------------------------------------------------------
-- The partition
-- ---------------------------------------------------------------------------

/-- The variables of `qs1` for those of a partition of elements. -/
def atFrontier (q : Qs) (t : Frontier (Fin q.qses → UInt8)) (mem : Bytes) : Qs1 :=
  { label := t.label, i := q.addr t.i, j := q.addr t.j, lp := q.addr t.lp, hp := q.addr t.hp,
    mem := mem }

variable {lo hi : Nat} {p : Fin q.qses → UInt8} {t : Frontier (Fin q.qses → UInt8)}

/-- **A turn of the partition is one on elements.** -/
theorem turn_view (hes : 0 < q.qses) (hhi : hi ≤ q.nel) (h : Inv q.qscmp lo hi p t)
    (hv : q.view mem = t.v) :
    match Quicksort.turn q.qscmp t with
    | none => q.turn (q.atFrontier t mem) = some .done
    | some t' => ∃ mem', q.turn (q.atFrontier t mem) = some (.next (q.atFrontier t' mem')) ∧
        q.view mem' = t'.v ∧ q.SameOutside mem mem' := by
  have hle := h.i_le
  have hlp := h.lp_le
  have hhp := h.hp_le
  have hj := h.j_lt
  obtain ⟨label, i, j, lp, hp, v⟩ := t
  dsimp only at hle hlp hhp hj hv
  subst hv
  have hsame : q.SameOutside mem mem := fun _ _ => rfl
  unfold Quicksort.turn turn atFrontier
  cases label with
  | top =>
    dsimp only
    by_cases hilp : i < lp
    · rw [if_pos hilp, if_pos ((addr_lt_iff hes).mpr hilp),
        compare_view hes (by omega) (by omega), Option.bind_some]
      by_cases heq : q.qscmp (q.view mem i) (q.view mem lp) = 0
      · obtain ⟨mem', hmem, hview, hout⟩ :=
          qsexc_view (q := q) (i := i) (j := lp - 1) hes (by omega) (by omega) mem
        rw [if_pos heq, if_pos heq, ← addr_pred (by omega), hmem]
        exact ⟨mem', rfl, hview, hout⟩
      · by_cases hlt : q.qscmp (q.view mem i) (q.view mem lp) < 0
        · rw [if_neg heq, if_neg heq, if_pos hlt, if_pos hlt, ← addr_succ]
          exact ⟨mem, rfl, rfl, hsame⟩
        · rw [if_neg heq, if_neg heq, if_neg hlt, if_neg hlt]
          exact ⟨mem, rfl, rfl, hsame⟩
    · rw [if_neg hilp, if_neg fun hlt => hilp ((addr_lt_iff hes).mp hlt)]
      exact ⟨mem, rfl, rfl, hsame⟩
  | loop =>
    dsimp only
    by_cases hhpj : hp < j
    · rw [if_pos hhpj, if_pos ((addr_lt_iff hes).mpr hhpj),
        compare_view hes (by omega) (by omega), Option.bind_some]
      by_cases heq : q.qscmp (q.view mem hp) (q.view mem j) = 0
      · obtain ⟨mem', hmem, hview, hout⟩ :=
          qsexc_view (q := q) (i := hp + 1) (j := j) hes (by omega) (by omega) mem
        rw [if_pos heq, if_pos heq, ← addr_succ, hmem]
        exact ⟨mem', rfl, hview, hout⟩
      · by_cases hgt : 0 < q.qscmp (q.view mem hp) (q.view mem j)
        · rw [if_neg heq, if_neg heq, if_pos hgt, if_pos hgt]
          by_cases hilp : i = lp
          · subst hilp
            obtain ⟨mem', hmem, hview, hout⟩ := qstexc_view (q := q) (i := i) (j := hp + 1) (k := j)
              hes (by omega) (by omega) (by omega) (by omega) (by omega) mem
            rw [if_pos rfl, if_pos rfl, ← addr_succ, ← addr_succ, hmem]
            exact ⟨mem', rfl, hview, hout⟩
          · obtain ⟨mem', hmem, hview, hout⟩ :=
              qsexc_view (q := q) (i := i) (j := j) hes (by omega) (by omega) mem
            rw [if_neg hilp, if_neg fun heq' => hilp ((addr_inj hes).mp heq'), hmem, ← addr_succ,
              ← addr_pred (by omega)]
            exact ⟨mem', rfl, hview, hout⟩
        · rw [if_neg heq, if_neg heq, if_neg hgt, if_neg hgt, ← addr_pred (by omega)]
          exact ⟨mem, rfl, rfl, hsame⟩
    · rw [if_neg hhpj, if_neg fun hlt => hhpj ((addr_lt_iff hes).mp hlt)]
      by_cases hilp : i = lp
      · subst hilp
        rw [if_pos rfl, if_pos rfl]
      · obtain ⟨mem', hmem, hview, hout⟩ := qstexc_view (q := q) (i := j) (j := lp - 1) (k := i)
          hes (by omega) (by omega) (by omega) (by omega) (by omega) mem
        rw [if_neg hilp, if_neg fun heq' => hilp ((addr_inj hes).mp heq'), ← addr_pred (by omega),
          ← addr_pred (by omega), hmem]
        exact ⟨mem', rfl, hview, hout⟩

theorem SameOutside.trans {mem'' : Bytes} (h : q.SameOutside mem mem')
    (h' : q.SameOutside mem' mem'') : q.SameOutside mem mem'' :=
  fun x hx => (h' x hx).trans (h x hx)

/-- **The partition ends**, with all elements compared. -/
theorem partition_view (hes : 0 < q.qses) (hc : TotalPreorder q.qscmp) (hhi : hi ≤ q.nel)
    (h : Inv q.qscmp lo hi p t) (hv : q.view mem = t.v) (hk : t.left < k) :
    ∃ t' mem', q.partition k (q.atFrontier t mem) = some (q.atFrontier t' mem') ∧
      Inv q.qscmp lo hi p t' ∧ t'.i = t'.lp ∧ t'.j = t'.hp ∧ q.view mem' = t'.v ∧
      Moved lo hi (q.view mem) (q.view mem') ∧ q.SameOutside mem mem' := by
  induction k generalizing t mem with
  | zero => exact absurd hk (Nat.not_lt_zero _)
  | succ k ih =>
    have hview := turn_view hes hhi h hv
    cases hturn : Quicksort.turn q.qscmp t with
    | none =>
      obtain ⟨hi', hj⟩ := h.parts hturn
      rw [hturn] at hview
      refine ⟨t, mem, ?_, h, hi', hj, hv, .refl _ _ _, fun _ _ => rfl⟩
      rw [partition, hview, Option.bind_some]
    | some t' =>
      obtain ⟨hinv, hmoved, hleft⟩ := h.turns hc hturn
      rw [hturn] at hview
      obtain ⟨mem', heq, hv', hout⟩ := hview
      obtain ⟨t'', mem'', hpart, hinv', hi', hj, hv'', hmoved', hout'⟩ := ih hinv hv' (by omega)
      refine ⟨t'', mem'', ?_, hinv', hi', hj, hv'', ?_, hout.trans hout'⟩
      · rw [partition, heq, Option.bind_some]
        exact hpart
      · rw [hv'] at hmoved'
        rw [hv]
        exact hmoved.trans hmoved'

theorem addr_sub (lo hi : Nat) : q.addr hi - q.addr lo = (hi - lo) * q.qses := by
  rw [addr, addr, Nat.add_sub_add_left, Nat.mul_sub_right_distrib]

/-- `es * (n / (2 * es))` goes to the element in the middle. -/
theorem addr_middle (hes : 0 < q.qses) (lo hi : Nat) :
    q.addr lo + q.qses * ((hi - lo) * q.qses / (2 * q.qses)) = q.addr (lo + (hi - lo) / 2) := by
  rw [Nat.mul_div_mul_right _ _ hes, addr, addr, Nat.add_mul, Nat.add_assoc,
    Nat.mul_comm q.qses]

/-- **`qs1` sorts a segment.** -/
theorem qs1_view (hes : 0 < q.qses) (hc : TotalPreorder q.qscmp) (mem : Bytes) (lo hi : Nat)
    (hle : lo ≤ hi) (hhi : hi ≤ q.nel) (hk : hi - lo < k) :
    ∃ mem', q.qs1 k (q.addr lo) (q.addr hi) mem = some mem' ∧
      Moved lo hi (q.view mem) (q.view mem') ∧ Sorted q.qscmp lo hi (q.view mem') ∧
      q.SameOutside mem mem' := by
  induction k generalizing lo hi mem with
  | zero => exact absurd hk (Nat.not_lt_zero _)
  | succ k ih =>
    have horder : ¬ q.addr hi < q.addr lo := fun hlt => Nat.not_lt.mpr hle ((addr_lt_iff hes).mp hlt)
    unfold qs1
    dsimp only
    rw [if_neg horder, addr_sub, addr_middle hes]
    by_cases hone : hi - lo ≤ 1
    · refine ⟨mem, if_pos ?_, .refl _ _ _, fun k l hk hkl hl => by omega, fun _ _ => rfl⟩
      exact (Nat.mul_le_mul_right _ hone).trans (Nat.le_of_eq (Nat.one_mul _))
    · have hmany : ¬ (hi - lo) * q.qses ≤ q.qses := by
        have hmul := Nat.mul_le_mul_right q.qses (Nat.lt_of_not_le hone)
        omega
      rw [if_neg hmany, ← addr_pred (by omega)]
      have hstart : Inv q.qscmp lo hi (q.view mem (lo + (hi - lo) / 2)) ⟨.top, lo, hi - 1,
          lo + (hi - lo) / 2, lo + (hi - lo) / 2, q.view mem⟩ :=
        .start hc (q.view mem) (by omega) (by omega)
      have hfuel : (hi - lo) * 1 ≤ (hi - lo) * q.qses := Nat.mul_le_mul_left _ hes
      obtain ⟨t, mem₁, hpart, hinv, hi', hj, hview, hmoved, hout⟩ :=
        partition_view hes hc hhi hstart rfl (k := 2 * ((hi - lo) * q.qses) + 2)
          (by simp only [Frontier.left, if_true]; omega)
      have hlo := hinv.lo_le
      have hlp := hinv.lp_le
      have hhp := hinv.hp_le
      have hjlt := hinv.j_lt
      have hparted := hinv.parted hi' hj
      rw [← hview] at hparted
      rw [show (⟨.top, q.addr lo, q.addr (hi - 1), q.addr (lo + (hi - lo) / 2),
        q.addr (lo + (hi - lo) / 2), mem⟩ : Qs1) = q.atFrontier ⟨.top, lo, hi - 1,
          lo + (hi - lo) / 2, lo + (hi - lo) / 2, q.view mem⟩ mem from rfl, hpart, Option.bind_some]
      dsimp only [atFrontier]
      rw [← addr_succ]
      by_cases hside : q.addr t.lp - q.addr lo ≥ q.addr hi - q.addr t.hp
      · -- the part behind the pivots comes first
        obtain ⟨mem₂, hback, hmoved₂, hsorted₂, hout₂⟩ := ih mem₁ (t.hp + 1) hi
          (by omega) hhi (by omega)
        obtain ⟨mem₃, hfront, hmoved₃, hsorted₃, hout₃⟩ := ih mem₂ lo t.lp
          (by omega) (by omega) (by omega)
        have hfinal := (hparted.back hlp hmoved₂).front hlp hmoved₃
        refine ⟨mem₃, (if_pos hside).trans ?_, ?_, ?_, (hout.trans hout₂).trans hout₃⟩
        · rw [hback, Option.bind_some, hfront]
        · exact (hmoved.trans (hmoved₂.mono (by omega) (Nat.le_refl _))).trans
            (hmoved₃.mono (Nat.le_refl _) (by omega))
        · exact hfinal.sorted hc hsorted₃ (hsorted₂.of_moved hmoved₃ (.inr (by omega)))
      · obtain ⟨mem₂, hfront, hmoved₂, hsorted₂, hout₂⟩ := ih mem₁ lo t.lp
          (by omega) (by omega) (by omega)
        obtain ⟨mem₃, hback, hmoved₃, hsorted₃, hout₃⟩ := ih mem₂ (t.hp + 1) hi
          (by omega) hhi (by omega)
        have hfinal := (hparted.front hlp hmoved₂).back hlp hmoved₃
        refine ⟨mem₃, (if_neg hside).trans ?_, ?_, ?_, (hout.trans hout₂).trans hout₃⟩
        · rw [hfront, Option.bind_some, hback]
        · exact (hmoved.trans (hmoved₂.mono (Nat.le_refl _) (by omega))).trans
            (hmoved₃.mono (by omega) (Nat.le_refl _))
        · exact hfinal.sorted hc (hsorted₂.of_moved hmoved₃ (.inl (by omega))) hsorted₃

end Qs

/-- **The array is sorted**: `qsort` ends, no access leaves the elements of the array, the
elements are the same ones and in order, and the memory outside is as it was. -/
theorem qsort_sorts (a n es : Nat) (fc : (Fin es → UInt8) → (Fin es → UInt8) → Int)
    (hfc : TotalPreorder fc) (mem : Bytes) :
    ∃ mem', qsort a n es fc mem = some mem' ∧
      (elements a n es mem').Perm (elements a n es mem) ∧
      (elements a n es mem').Pairwise (fun x y => fc x y ≤ 0) ∧
      ∀ x, x < a ∨ a + n * es ≤ x → mem' x = mem x := by
  rcases Nat.eq_zero_or_pos es with rfl | hes
  · -- without bytes all elements are one
    refine ⟨mem, ?_, .refl _, ?_, fun _ _ => rfl⟩
    · rw [qsort, Qs.qs1, if_neg (Nat.not_lt.mpr (Nat.le_add_right _ _)), if_pos (by simp)]
    · refine List.pairwise_of_forall fun x y => ?_
      rw [Subsingleton.elim y x, hfc.refl]
  · obtain ⟨mem', hsort, hmoved, hsorted, hout⟩ := Qs.qs1_view (q := ⟨a, n, es, fc⟩)
      (k := n + 1) hes hfc mem 0 n (Nat.zero_le _) (Nat.le_refl _) (Nat.lt_succ_self _)
    refine ⟨mem', ?_, hmoved.perm, ?_, hout⟩
    · rw [Qs.addr, Nat.zero_mul, Nat.add_zero] at hsort
      exact hsort
    · refine List.pairwise_map.mpr (List.pairwise_lt_range.imp_of_mem ?_)
      intro k l _ hl hkl
      exact hsorted k l (Nat.zero_le _) hkl (List.mem_range.mp hl)

/-- Bytes are compared by their difference. -/
def byteOrder (x y : Fin 1 → UInt8) : Int := (x 0).toNat - (y 0).toNat

theorem byteOrder_total : TotalPreorder byteOrder where
  flip x y := by
    unfold byteOrder
    omega
  trans x y z hxy hyz := by
    unfold byteOrder at *
    omega

/-- Sixteen bytes of a memory in which every address holds its own square. -/
theorem qsort_sorts_bytes :
    ∃ mem', qsort 64 16 1 byteOrder (fun x => UInt8.ofNat (x * x)) = some mem' ∧
      (elements 64 16 1 mem').Perm (elements 64 16 1 fun x => UInt8.ofNat (x * x)) ∧
      (elements 64 16 1 mem').Pairwise (fun x y => byteOrder x y ≤ 0) ∧
      ∀ x, x < 64 ∨ 64 + 16 * 1 ≤ x → mem' x = UInt8.ofNat (x * x) :=
  qsort_sorts 64 16 1 byteOrder byteOrder_total _

end Xinu.Libxc
