import Mathlib.Data.List.Perm.Basic
import Mathlib.Data.List.Nodup
import Mathlib.Logic.Equiv.Basic

/-!
# Partition around a moving pivot

A segment of a sequence is partitioned in place around a pivot that stands in the middle of
it. The elements equal to the pivot form a block, from `lp` to `hp`, that grows and moves;
in front of `i` the elements are known to be less, behind `j` to be greater.

The sequence is a function, and elements are compared by the sign of a number.

* `Inv.turns` — every turn keeps the invariant, moves elements inside the segment only, and
  comes nearer to the end;
* `Inv.parts` — at the end all elements have been compared;
* `Parted.sorted` — a partition of which both sides are sorted is sorted.
-/

namespace Quicksort

variable {α : Type}

/-- The function compares as a total preorder does. -/
structure TotalPreorder (c : α → α → Int) : Prop where
  flip : ∀ x y, c x y ≤ 0 ↔ 0 ≤ c y x
  trans : ∀ x y z, c x y ≤ 0 → c y z ≤ 0 → c x z ≤ 0

namespace TotalPreorder

variable {c : α → α → Int} (h : TotalPreorder c)

include h

theorem refl (x : α) : c x x = 0 := by
  have hflip := h.flip x x
  omega

/-- An element equal to the pivot can stand for it. -/
theorem sign_right {x y p : α} (hy : c y p = 0) :
    (c x y < 0 ↔ c x p < 0) ∧ (c x y = 0 ↔ c x p = 0) := by
  have hyp := h.flip y p
  have hpy := h.flip p y
  have hle : c x y ≤ 0 ↔ c x p ≤ 0 :=
    ⟨fun hxy => h.trans x y p hxy (by omega), fun hxp => h.trans x p y hxp (by omega)⟩
  have hge : c y x ≤ 0 ↔ c p x ≤ 0 :=
    ⟨fun hyx => h.trans p y x (by omega) hyx, fun hpx => h.trans y p x (by omega) hpx⟩
  rw [h.flip y x, h.flip p x] at hge
  omega

theorem sign_left {x y p : α} (hy : c y p = 0) :
    (c y x < 0 ↔ 0 < c x p) ∧ (c y x = 0 ↔ c x p = 0) := by
  obtain ⟨hlt, heq⟩ := h.sign_right (x := x) hy
  have hyx := h.flip y x
  have hxy := h.flip x y
  omega

end TotalPreorder

-- ---------------------------------------------------------------------------
-- Moving elements
-- ---------------------------------------------------------------------------

/-- Two elements change places. -/
def exchange (v : Nat → α) (i j : Nat) : Nat → α := v ∘ Equiv.swap i j

/-- The element at `k` goes to `i`, that at `j` to `k`, and that at `i` to `j`. -/
def rotate (v : Nat → α) (i j k : Nat) : Nat → α := exchange (exchange v i k) k j

theorem exchange_apply (v : Nat → α) (i j k : Nat) :
    exchange v i j k = if k = i then v j else if k = j then v i else v k := by
  rw [exchange, Function.comp_apply, Equiv.swap_apply_def]
  split
  · rfl
  · split <;> rfl

theorem rotate_apply {v : Nat → α} {i j k : Nat} (hj : i ≠ j) (hk : i ≠ k) (x : Nat) :
    rotate v i j k x = if x = i then v k else if x = j then v i else if x = k then v j else v x := by
  simp only [rotate, exchange_apply]
  by_cases hi : x = i
  · subst hi
    simp [hj, hk]
  · by_cases hxj : x = j
    · subst hxj
      by_cases hxk : x = k <;> simp [hxk, hi, Ne.symm hk]
    · by_cases hxk : x = k
      · subst hxk
        simp [hi, hxj, Ne.symm hj, Ne.symm hxj]
      · simp [hxk, hxj, hi]

/-- The elements of a segment have been moved inside it. -/
def Moved (lo hi : Nat) (v w : Nat → α) : Prop :=
  ∃ σ : Equiv.Perm Nat, (∀ k, k < lo ∨ hi ≤ k → σ k = k) ∧ w = v ∘ σ

namespace Moved

variable {lo hi lo' hi' i j k : Nat} {v w u : Nat → α}

theorem refl (lo hi : Nat) (v : Nat → α) : Moved lo hi v v := ⟨Equiv.refl Nat, fun _ _ => rfl, rfl⟩

theorem trans (h : Moved lo hi v w) (h' : Moved lo hi w u) : Moved lo hi v u := by
  obtain ⟨σ, hσ, rfl⟩ := h
  obtain ⟨τ, hτ, rfl⟩ := h'
  refine ⟨τ.trans σ, fun k hk => ?_, rfl⟩
  rw [Equiv.trans_apply, hτ k hk, hσ k hk]

theorem mono (h : Moved lo hi v w) (hlo : lo' ≤ lo) (hhi : hi ≤ hi') : Moved lo' hi' v w := by
  obtain ⟨σ, hσ, rfl⟩ := h
  exact ⟨σ, fun k hk => hσ k (by omega), rfl⟩

/-- Outside of the segment nothing moves. -/
theorem outside (h : Moved lo hi v w) (hk : k < lo ∨ hi ≤ k) : w k = v k := by
  obtain ⟨σ, hσ, rfl⟩ := h
  rw [Function.comp_apply, hσ k hk]

/-- What all elements of the segment have in common they keep. -/
theorem forall_mem (h : Moved lo hi v w) {P : α → Prop} (hP : ∀ k, lo ≤ k → k < hi → P (v k)) :
    ∀ k, lo ≤ k → k < hi → P (w k) := by
  obtain ⟨σ, hσ, rfl⟩ := h
  intro k hlo hhi
  have hin : ¬ (σ k < lo ∨ hi ≤ σ k) := by
    intro hout
    have hfix := σ.injective (hσ (σ k) hout)
    omega
  exact hP (σ k) (by omega) (by omega)

theorem exchange (hi' : lo ≤ i ∧ i < hi) (hj : lo ≤ j ∧ j < hi) (v : Nat → α) :
    Moved lo hi v (exchange v i j) := by
  refine ⟨Equiv.swap i j, fun k hk => Equiv.swap_apply_of_ne_of_ne ?_ ?_, rfl⟩ <;> omega

theorem rotate (hi' : lo ≤ i ∧ i < hi) (hj : lo ≤ j ∧ j < hi) (hk : lo ≤ k ∧ k < hi)
    (v : Nat → α) : Moved lo hi v (rotate v i j k) :=
  (Moved.exchange hi' hk v).trans (Moved.exchange hk hj _)

/-- The elements are the same ones. -/
theorem perm {n : Nat} (h : Moved 0 n v w) :
    ((List.range n).map w).Perm ((List.range n).map v) := by
  obtain ⟨σ, hσ, rfl⟩ := h
  have hrange : ((List.range n).map σ).Perm (List.range n) := by
    refine (List.perm_ext_iff_of_nodup (List.nodup_range.map σ.injective) List.nodup_range).mpr ?_
    intro k
    rw [List.mem_map, List.mem_range]
    constructor
    · rintro ⟨x, hx, rfl⟩
      by_contra hout
      have hfix := σ.injective (hσ (σ x) (.inr (Nat.le_of_not_lt hout)))
      rw [hfix] at hout
      exact hout (List.mem_range.mp hx)
    · intro hk
      refine ⟨σ.symm k, List.mem_range.mpr ?_, σ.apply_symm_apply k⟩
      by_contra hout
      have hfix := hσ (σ.symm k) (.inr (Nat.le_of_not_lt hout))
      rw [σ.apply_symm_apply] at hfix
      omega
  rw [← List.map_map]
  exact hrange.map v

end Moved

-- ---------------------------------------------------------------------------
-- The partition
-- ---------------------------------------------------------------------------

/-- Where a turn begins: with the elements in front of the block, or behind it. -/
inductive Label
  | top | loop
  deriving DecidableEq, Repr

structure Frontier (α : Type) where
  label : Label
  i : Nat
  j : Nat
  lp : Nat
  hp : Nat
  v : Nat → α

/-- One turn, or nothing at the end. -/
def turn (c : α → α → Int) (s : Frontier α) : Option (Frontier α) :=
  match s.label with
  | .top =>
    if s.i < s.lp then
      if c (s.v s.i) (s.v s.lp) = 0 then
        some { s with lp := s.lp - 1, v := exchange s.v s.i (s.lp - 1) }
      else if c (s.v s.i) (s.v s.lp) < 0 then some { s with i := s.i + 1 }
      else some { s with label := .loop }
    else some { s with label := .loop }
  | .loop =>
    if s.hp < s.j then
      if c (s.v s.hp) (s.v s.j) = 0 then
        some { s with hp := s.hp + 1, v := exchange s.v (s.hp + 1) s.j }
      else if 0 < c (s.v s.hp) (s.v s.j) then
        if s.i = s.lp then
          some { s with
            i := s.lp + 1, lp := s.lp + 1, hp := s.hp + 1, v := rotate s.v s.i (s.hp + 1) s.j }
        else some { s with label := .top, i := s.i + 1, j := s.j - 1, v := exchange s.v s.i s.j }
      else some { s with j := s.j - 1 }
    else if s.i = s.lp then none
    else some { s with
      label := .top, j := s.hp - 1, lp := s.lp - 1, hp := s.hp - 1,
      v := rotate s.v s.j (s.lp - 1) s.i }

/-- The invariant, for the segment from `lo` to `hi` and a pivot. -/
structure Inv (c : α → α → Int) (lo hi : Nat) (p : α) (s : Frontier α) : Prop where
  lo_le : lo ≤ s.i
  i_le : s.i ≤ s.lp
  lp_le : s.lp ≤ s.hp
  hp_le : s.hp ≤ s.j
  j_lt : s.j < hi
  less : ∀ k, lo ≤ k → k < s.i → c (s.v k) p < 0
  same : ∀ k, s.lp ≤ k → k ≤ s.hp → c (s.v k) p = 0
  more : ∀ k, s.j < k → k < hi → 0 < c (s.v k) p
  /-- the element that waits in front of the block for one to change places with -/
  waits : s.label = .loop → s.i < s.lp → 0 < c (s.v s.i) p

/-- The elements that have not been compared, and the half of a turn. -/
def Frontier.left (s : Frontier α) : Nat :=
  2 * ((s.lp - s.i) + (s.j - s.hp)) + if s.label = .top then 1 else 0

variable {c : α → α → Int} {lo hi : Nat} {p : α} {s s' : Frontier α}

namespace Inv

/-- An equal element in front of the block goes to it. -/
theorem front_same (h : Inv c lo hi p s) (hl : s.label = .top) (hlt : s.i < s.lp)
    (hsign : c (s.v s.i) p = 0) :
    Inv c lo hi p { s with lp := s.lp - 1, v := exchange s.v s.i (s.lp - 1) } where
  lo_le := h.lo_le
  i_le := Nat.le_pred_of_lt hlt
  lp_le := Nat.le_trans (Nat.pred_le _) h.lp_le
  hp_le := h.hp_le
  j_lt := h.j_lt
  less k hk hki := by
    dsimp only at hki ⊢
    rw [exchange_apply, if_neg (by omega), if_neg (by omega)]
    exact h.less k hk hki
  same k hk hkp := by
    dsimp only at hk hkp ⊢
    rw [exchange_apply]
    by_cases hki : k = s.i
    · rw [if_pos hki, show s.lp - 1 = s.i by omega]
      exact hsign
    · by_cases hkl : k = s.lp - 1
      · rw [if_neg hki, if_pos hkl]
        exact hsign
      · rw [if_neg hki, if_neg hkl]
        exact h.same k (by omega) hkp
  more k hk hkh := by
    have hlp := h.lp_le
    have hhp := h.hp_le
    dsimp only at hk ⊢
    rw [exchange_apply, if_neg (by omega), if_neg (by omega)]
    exact h.more k hk hkh
  waits hloop _ := by
    dsimp only at hloop
    rw [hl] at hloop
    cases hloop

/-- An element in front of the block that is less stays where it is. -/
theorem front_less (h : Inv c lo hi p s) (hl : s.label = .top) (hlt : s.i < s.lp)
    (hsign : c (s.v s.i) p < 0) : Inv c lo hi p { s with i := s.i + 1 } where
  lo_le := Nat.le_succ_of_le h.lo_le
  i_le := hlt
  lp_le := h.lp_le
  hp_le := h.hp_le
  j_lt := h.j_lt
  less k hk hki := by
    dsimp only at hki ⊢
    by_cases hkl : k = s.i
    · rw [hkl]
      exact hsign
    · exact h.less k hk (by omega)
  same := h.same
  more := h.more
  waits hloop _ := by
    dsimp only at hloop
    rw [hl] at hloop
    cases hloop

/-- An element in front of the block that is greater waits. -/
theorem front_waits (h : Inv c lo hi p s) (hsign : s.i < s.lp → 0 < c (s.v s.i) p) :
    Inv c lo hi p { s with label := .loop } :=
  { h with waits := fun _ => hsign }

/-- An equal element behind the block goes to it. -/
theorem back_same (h : Inv c lo hi p s) (hl : s.label = .loop) (hlt : s.hp < s.j)
    (hsign : c (s.v s.j) p = 0) :
    Inv c lo hi p { s with hp := s.hp + 1, v := exchange s.v (s.hp + 1) s.j } where
  lo_le := h.lo_le
  i_le := h.i_le
  lp_le := Nat.le_succ_of_le h.lp_le
  hp_le := hlt
  j_lt := h.j_lt
  less k hk hki := by
    have hi' := h.i_le
    have hlp := h.lp_le
    dsimp only at hki ⊢
    rw [exchange_apply, if_neg (by omega), if_neg (by omega)]
    exact h.less k hk hki
  same k hk hkp := by
    dsimp only at hk hkp ⊢
    rw [exchange_apply]
    by_cases hkh : k = s.hp + 1
    · rw [if_pos hkh]
      exact hsign
    · rw [if_neg hkh, if_neg (by omega)]
      exact h.same k hk (by omega)
  more k hk hkh := by
    dsimp only at hk ⊢
    rw [exchange_apply, if_neg (by omega), if_neg (by omega)]
    exact h.more k hk hkh
  waits _ hlt' := by
    have hlp := h.lp_le
    dsimp only at hlt' ⊢
    rw [exchange_apply, if_neg (by omega), if_neg (by omega)]
    exact h.waits hl hlt'

/-- A lesser element behind the block goes in front of it, and the block makes room. -/
theorem back_less (h : Inv c lo hi p s) (hlt : s.hp < s.j) (hi' : s.i = s.lp)
    (hsign : c (s.v s.j) p < 0) :
    Inv c lo hi p { s with
      i := s.lp + 1, lp := s.lp + 1, hp := s.hp + 1, v := rotate s.v s.i (s.hp + 1) s.j } where
  lo_le := by
    have hlo := h.lo_le
    dsimp only
    omega
  i_le := Nat.le_refl _
  lp_le := Nat.succ_le_succ h.lp_le
  hp_le := hlt
  j_lt := h.j_lt
  less k hk hki := by
    have hlp := h.lp_le
    dsimp only at hki ⊢
    rw [rotate_apply (by omega) (by omega)]
    by_cases hkl : k = s.i
    · rw [if_pos hkl]
      exact hsign
    · rw [if_neg hkl, if_neg (by omega), if_neg (by omega)]
      exact h.less k hk (by omega)
  same k hk hkp := by
    have hlp := h.lp_le
    dsimp only at hk hkp ⊢
    rw [rotate_apply (by omega) (by omega), if_neg (by omega)]
    by_cases hkh : k = s.hp + 1
    · rw [if_pos hkh, hi']
      exact h.same s.lp (Nat.le_refl _) hlp
    · rw [if_neg hkh, if_neg (by omega)]
      exact h.same k (by omega) (by omega)
  more k hk hkh := by
    have hlp := h.lp_le
    dsimp only at hk ⊢
    rw [rotate_apply (by omega) (by omega), if_neg (by omega), if_neg (by omega),
      if_neg (by omega)]
    exact h.more k hk hkh
  waits _ hlt' := absurd hlt' (Nat.lt_irrefl _)

/-- The element that waits changes places with a lesser one behind the block. -/
theorem back_waits (h : Inv c lo hi p s) (hl : s.label = .loop) (hlt : s.hp < s.j)
    (hi' : s.i ≠ s.lp) (hsign : c (s.v s.j) p < 0) :
    Inv c lo hi p { s with
      label := .top, i := s.i + 1, j := s.j - 1, v := exchange s.v s.i s.j } where
  lo_le := Nat.le_succ_of_le h.lo_le
  i_le := Nat.lt_of_le_of_ne h.i_le hi'
  lp_le := h.lp_le
  hp_le := Nat.le_pred_of_lt hlt
  j_lt := Nat.lt_of_le_of_lt (Nat.pred_le _) h.j_lt
  less k hk hki := by
    have hle := h.i_le
    have hlp := h.lp_le
    dsimp only at hki ⊢
    rw [exchange_apply]
    by_cases hkl : k = s.i
    · rw [if_pos hkl]
      exact hsign
    · rw [if_neg hkl, if_neg (by omega)]
      exact h.less k hk (by omega)
  same k hk hkp := by
    have hle := h.i_le
    dsimp only at hk hkp ⊢
    rw [exchange_apply, if_neg (by omega), if_neg (by omega)]
    exact h.same k hk hkp
  more k hk hkh := by
    have hle := h.i_le
    have hlp := h.lp_le
    dsimp only at hk ⊢
    rw [exchange_apply, if_neg (by omega)]
    by_cases hkj : k = s.j
    · rw [if_pos hkj]
      exact h.waits hl (by omega)
    · rw [if_neg hkj]
      exact h.more k (by omega) hkh
  waits := nofun

/-- A greater element behind the block stays where it is. -/
theorem back_more (h : Inv c lo hi p s) (hlt : s.hp < s.j) (hsign : 0 < c (s.v s.j) p) :
    Inv c lo hi p { s with j := s.j - 1 } :=
  { h with
    hp_le := Nat.le_pred_of_lt hlt
    j_lt := Nat.lt_of_le_of_lt (Nat.pred_le _) h.j_lt
    more := fun k hk hkh => by
      dsimp only at hk ⊢
      by_cases hkj : k = s.j
      · rw [hkj]
        exact hsign
      · exact h.more k (by omega) hkh }

/-- The element that waits goes behind the block, and the block makes room. -/
theorem front_more (h : Inv c lo hi p s) (hl : s.label = .loop) (hge : ¬ s.hp < s.j)
    (hi' : s.i ≠ s.lp) :
    Inv c lo hi p { s with
      label := .top, j := s.hp - 1, lp := s.lp - 1, hp := s.hp - 1,
      v := rotate s.v s.j (s.lp - 1) s.i } where
  lo_le := h.lo_le
  i_le := Nat.le_pred_of_lt (Nat.lt_of_le_of_ne h.i_le hi')
  lp_le := Nat.sub_le_sub_right h.lp_le 1
  hp_le := Nat.le_refl _
  j_lt := by
    have hhp := h.hp_le
    have hj := h.j_lt
    dsimp only
    omega
  less k hk hki := by
    have hle := h.i_le
    have hlp := h.lp_le
    have hhp := h.hp_le
    dsimp only at hki ⊢
    rw [rotate_apply (by omega) (by omega), if_neg (by omega), if_neg (by omega),
      if_neg (by omega)]
    exact h.less k hk hki
  same k hk hkp := by
    have hle := h.i_le
    have hlp := h.lp_le
    have hhp := h.hp_le
    dsimp only at hk hkp ⊢
    rw [rotate_apply (by omega) (by omega), if_neg (by omega)]
    by_cases hkl : k = s.lp - 1
    · rw [if_pos hkl]
      exact h.same s.j (by omega) (by omega)
    · rw [if_neg hkl, if_neg (by omega)]
      exact h.same k (by omega) (by omega)
  more k hk hkh := by
    have hle := h.i_le
    have hlp := h.lp_le
    have hhp := h.hp_le
    dsimp only at hk ⊢
    rw [rotate_apply (by omega) (by omega)]
    by_cases hkj : k = s.j
    · rw [if_pos hkj]
      exact h.waits hl (by omega)
    · rw [if_neg hkj, if_neg (by omega), if_neg (by omega)]
      exact h.more k (by omega) hkh
  waits := nofun

end Inv

/-- What a turn keeps: the invariant and the elements of the segment; and it leaves less to
do. -/
structure Turns (c : α → α → Int) (lo hi : Nat) (p : α) (s s' : Frontier α) : Prop where
  inv : Inv c lo hi p s'
  moved : Moved lo hi s.v s'.v
  left_lt : s'.left < s.left

/-- **What a turn does.** -/
theorem Inv.turns (h : Inv c lo hi p s) (hc : TotalPreorder c) (ht : turn c s = some s') :
    Turns c lo hi p s s' := by
  have hlo := h.lo_le
  have hle := h.i_le
  have hlp := h.lp_le
  have hhp := h.hp_le
  have hj := h.j_lt
  unfold turn at ht
  split at ht
  next hl =>
    obtain ⟨hless, hzero⟩ := hc.sign_right (x := s.v s.i) (h.same s.lp (Nat.le_refl _) hlp)
    split_ifs at ht with hilp heq hlt <;> obtain rfl := Option.some.inj ht
    · exact ⟨h.front_same hl hilp (hzero.mp heq), .exchange (by omega) (by omega) _,
        by simp only [Frontier.left]; omega⟩
    · exact ⟨h.front_less hl hilp (hless.mp hlt), .refl _ _ _, by simp only [Frontier.left]; omega⟩
    · exact ⟨h.front_waits fun _ => by omega, .refl _ _ _, by simp [Frontier.left, hl]⟩
    · exact ⟨h.front_waits fun hilp' => absurd hilp' hilp, .refl _ _ _, by simp [Frontier.left, hl]⟩
  next hl =>
    obtain ⟨hless, hzero⟩ := hc.sign_left (x := s.v s.j) (h.same s.hp hlp (Nat.le_refl _))
    split_ifs at ht with hhpj heq hgt hilp hilp <;> obtain rfl := Option.some.inj ht
    · exact ⟨h.back_same hl hhpj (hzero.mp heq), .exchange (by omega) (by omega) _,
        by simp only [Frontier.left]; omega⟩
    · exact ⟨h.back_less hhpj hilp (by omega), .rotate (by omega) (by omega) (by omega) _,
        by simp only [Frontier.left]; omega⟩
    · exact ⟨h.back_waits hl hhpj hilp (by omega), .exchange (by omega) (by omega) _,
        by simp only [Frontier.left, hl, reduceCtorEq, if_false, if_true]; omega⟩
    · exact ⟨h.back_more hhpj (by omega), .refl _ _ _, by simp only [Frontier.left]; omega⟩
    · exact ⟨h.front_more hl hhpj hilp, .rotate (by omega) (by omega) (by omega) _,
        by simp only [Frontier.left, hl, reduceCtorEq, if_false, if_true]; omega⟩

/-- At the end all elements have been compared. -/
theorem Inv.parts (h : Inv c lo hi p s) (ht : turn c s = none) :
    s.i = s.lp ∧ s.j = s.hp := by
  have hhp := h.hp_le
  unfold turn at ht
  split at ht
  · split_ifs at ht
  · split_ifs at ht
    exact ⟨‹_›, by omega⟩

/-- The segment is in order. -/
def Sorted (c : α → α → Int) (lo hi : Nat) (v : Nat → α) : Prop :=
  ∀ k l, lo ≤ k → k < l → l < hi → c (v k) (v l) ≤ 0

/-- What moves outside of the segment leaves it in order. -/
theorem Sorted.of_moved {v w : Nat → α} {lo' hi' : Nat} (h : Sorted c lo hi v)
    (hm : Moved lo' hi' v w) (hapart : hi ≤ lo' ∨ hi' ≤ lo) : Sorted c lo hi w := by
  intro k l hk hkl hl
  rw [hm.outside (by omega), hm.outside (by omega)]
  exact h k l hk hkl hl

/-- The segment in three parts: what is less than the pivot, equal to it and greater. -/
structure Parted (c : α → α → Int) (lo hi lp hp : Nat) (p : α) (v : Nat → α) : Prop where
  less : ∀ k, lo ≤ k → k < lp → c (v k) p < 0
  same : ∀ k, lp ≤ k → k ≤ hp → c (v k) p = 0
  more : ∀ k, hp < k → k < hi → 0 < c (v k) p

namespace Parted

variable {lp hp : Nat} {v w : Nat → α}

/-- What moves inside the first part or inside the last one stays there. -/
theorem front (h : Parted c lo hi lp hp p v) (hle : lp ≤ hp) (hm : Moved lo lp v w) :
    Parted c lo hi lp hp p w where
  less := hm.forall_mem (P := fun x => c x p < 0) h.less
  same k hk hkp := by
    rw [hm.outside (.inr hk)]
    exact h.same k hk hkp
  more k hk hkh := by
    rw [hm.outside (.inr (by omega))]
    exact h.more k hk hkh

theorem back (h : Parted c lo hi lp hp p v) (hle : lp ≤ hp) (hm : Moved (hp + 1) hi v w) :
    Parted c lo hi lp hp p w where
  less k hk hkl := by
    rw [hm.outside (.inl (by omega))]
    exact h.less k hk hkl
  same k hk hkp := by
    rw [hm.outside (.inl (Nat.lt_succ_of_le hkp))]
    exact h.same k hk hkp
  more := hm.forall_mem (P := fun x => 0 < c x p) h.more

/-- **A partition of which both sides are sorted is sorted.** -/
theorem sorted (h : Parted c lo hi lp hp p v) (hc : TotalPreorder c) (hfront : Sorted c lo lp v)
    (hback : Sorted c (hp + 1) hi v) : Sorted c lo hi v := by
  intro k l hk hkl hl
  by_cases hlp : l < lp
  · exact hfront k l hk hkl hlp
  · by_cases hhp : hp < k
    · exact hback k l hhp hkl hl
    · -- the pivot stands between the two
      have hle : c (v k) p ≤ 0 := by
        by_cases hklp : k < lp
        · exact Int.le_of_lt (h.less k hk hklp)
        · exact Int.le_of_eq (h.same k (by omega) (by omega))
      have hge : 0 ≤ c (v l) p := by
        by_cases hlhp : l ≤ hp
        · exact Int.le_of_eq (h.same l (by omega) hlhp).symm
        · exact Int.le_of_lt (h.more l (by omega) hl)
      exact hc.trans _ p _ hle ((hc.flip p (v l)).mpr hge)

end Parted

theorem Inv.parted (h : Inv c lo hi p s) (hi' : s.i = s.lp) (hj : s.j = s.hp) :
    Parted c lo hi s.lp s.hp p s.v :=
  ⟨hi' ▸ h.less, h.same, hj ▸ h.more⟩

/-- Where a partition begins. -/
theorem Inv.start (hc : TotalPreorder c) {n : Nat} (v : Nat → α) (hn : lo ≤ n) (hhi : n < hi) :
    Inv c lo hi (v n) ⟨.top, lo, hi - 1, n, n, v⟩ where
  lo_le := Nat.le_refl _
  i_le := hn
  lp_le := Nat.le_refl _
  hp_le := by
    dsimp only
    omega
  j_lt := by
    dsimp only
    omega
  less k hk hki := absurd hki (Nat.not_lt.mpr hk)
  same k hk hkp := by
    obtain rfl : k = n := Nat.le_antisymm hkp hk
    exact hc.refl _
  more k hk hkh := by
    dsimp only at hk
    omega
  waits := nofun

end Quicksort
