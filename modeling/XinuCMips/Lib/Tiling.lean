import Mathlib.Data.List.Chain
import Mathlib.Data.List.Perm.Basic
import Mathlib.Tactic.Linarith

/-!
# Tilings of an address range

A *tiling* cuts a range of addresses into consecutive tiles, each either
free or in use. It is the picture behind an allocator with a sorted free
list: the free list is the list of free tiles, and "fully coalesced" says
that no two free tiles are neighbours. Since a tiling leaves no gaps,
nothing about disjointness or coverage has to be maintained separately:
all of it is read off the tiling (`exists_layout_mem`).

* `takeFirst_tiles`, `takeLast_tiles` — carving a block out of the first
  (last) free tile that is large enough turns a coalesced tiling into a
  coalesced tiling with one more tile in use.
* `putBack_tiles` — returning a tile in use and merging it with its free
  neighbours keeps the tiling coalesced.
-/

namespace Tiling

/-- A run of addresses, free or in use. -/
structure Tile where
  free : Bool
  len : Nat

/-- Two neighbours that a coalescing allocator never leaves side by side. -/
def Mergeable (s t : Tile) : Prop := s.free = true ∧ t.free = true

/-- No tile is empty, no two neighbours are both free, and tiles in use have
at least `least` addresses. -/
structure Coalesced (least : Nat) (ts : List Tile) : Prop where
  pos : ∀ t ∈ ts, 0 < t.len
  least_le : ∀ t ∈ ts, t.free = false → least ≤ t.len
  apart : ts.IsChain fun s t => ¬ Mergeable s t

/-- Number of addresses a tiling covers. -/
def width (ts : List Tile) : Nat := (ts.map Tile.len).sum

/-- The tiles with their first addresses, the tiling starting at `a`. -/
def layout : Nat → List Tile → List (Nat × Tile)
  | _, [] => []
  | a, t :: ts => (a, t) :: layout (a + t.len) ts

/-- First address and length of the free (or of the used) tiles, in order. -/
def spans (free : Bool) : Nat → List Tile → List (Nat × Nat)
  | _, [] => []
  | a, t :: ts =>
    if t.free = free then (a, t.len) :: spans free (a + t.len) ts
    else spans free (a + t.len) ts

@[simp] theorem width_nil : width [] = 0 := rfl

@[simp] theorem width_cons (t : Tile) (ts : List Tile) : width (t :: ts) = t.len + width ts := by
  simp [width]

@[simp] theorem width_append (s t : List Tile) : width (s ++ t) = width s + width t := by
  simp [width]

@[simp] theorem spans_nil (b : Bool) (a : Nat) : spans b a [] = [] := rfl

@[simp] theorem spans_cons_same {b : Bool} {t : Tile} (h : t.free = b) (a : Nat) (ts : List Tile) :
    spans b a (t :: ts) = (a, t.len) :: spans b (a + t.len) ts := if_pos h

@[simp] theorem spans_cons_other {b : Bool} {t : Tile} (h : t.free ≠ b) (a : Nat)
    (ts : List Tile) : spans b a (t :: ts) = spans b (a + t.len) ts := if_neg h

theorem spans_append (b : Bool) (a : Nat) (s t : List Tile) :
    spans b a (s ++ t) = spans b a s ++ spans b (a + width s) t := by
  induction s generalizing a with
  | nil => simp
  | cons x s ih =>
    by_cases hx : x.free = b
    · simp [hx, ih, Nat.add_assoc]
    · simp [hx, ih, Nat.add_assoc]

theorem Coalesced.tail {least : Nat} {t : Tile} {ts : List Tile} (h : Coalesced least (t :: ts)) :
    Coalesced least ts where
  pos x hx := h.pos x (List.mem_cons_of_mem _ hx)
  least_le x hx := h.least_le x (List.mem_cons_of_mem _ hx)
  apart := h.apart.tail

/-! ## What a tiling says about its spans -/

theorem mem_spans {b : Bool} {a : Nat} {ts : List Tile} {p : Nat × Nat} :
    p ∈ spans b a ts ↔ ∃ t, (p.1, t) ∈ layout a ts ∧ t.free = b ∧ t.len = p.2 := by
  induction ts generalizing a with
  | nil => simp [layout]
  | cons x ts ih =>
    by_cases hx : x.free = b
    · rw [spans_cons_same hx, List.mem_cons, ih]
      constructor
      · rintro (rfl | ⟨t, ht, hb, hl⟩)
        · exact ⟨x, by simp [layout], hx, rfl⟩
        · exact ⟨t, List.mem_cons_of_mem _ ht, hb, hl⟩
      · rintro ⟨t, ht, hb, hl⟩
        rcases List.mem_cons.mp ht with heq | ht
        · left
          obtain ⟨h1, h2⟩ := Prod.mk.injEq .. ▸ heq
          subst h2
          exact Prod.ext h1 hl.symm
        · exact Or.inr ⟨t, ht, hb, hl⟩
    · rw [spans_cons_other hx, ih]
      constructor
      · rintro ⟨t, ht, hb, hl⟩
        exact ⟨t, List.mem_cons_of_mem _ ht, hb, hl⟩
      · rintro ⟨t, ht, hb, hl⟩
        rcases List.mem_cons.mp ht with heq | ht
        · obtain ⟨-, h2⟩ := Prod.mk.injEq .. ▸ heq
          exact absurd (h2 ▸ hb) hx
        · exact ⟨t, ht, hb, hl⟩

/-- Every tile lies inside the tiled range. -/
theorem layout_bounds {a : Nat} {ts : List Tile} {p : Nat × Tile} (hp : p ∈ layout a ts) :
    a ≤ p.1 ∧ p.1 + p.2.len ≤ a + width ts := by
  induction ts generalizing a with
  | nil => simp [layout] at hp
  | cons t ts ih =>
    rw [width_cons]
    rcases List.mem_cons.mp hp with rfl | hp
    · simp only
      omega
    · have := ih hp
      omega

/-- Every address of the range lies in a tile. -/
theorem exists_layout_mem {a x : Nat} {ts : List Tile} (hlo : a ≤ x) (hhi : x < a + width ts) :
    ∃ p ∈ layout a ts, p.1 ≤ x ∧ x < p.1 + p.2.len := by
  induction ts generalizing a with
  | nil =>
    simp only [width_nil] at hhi
    omega
  | cons t ts ih =>
    rw [width_cons] at hhi
    by_cases hx : x < a + t.len
    · exact ⟨(a, t), by simp [layout], hlo, hx⟩
    · obtain ⟨p, hp, h⟩ := ih (show a + t.len ≤ x by omega) (by omega)
      exact ⟨p, List.mem_cons_of_mem _ hp, h⟩

theorem spans_bounds {b : Bool} {a : Nat} {ts : List Tile} {p : Nat × Nat}
    (hp : p ∈ spans b a ts) : a ≤ p.1 ∧ p.1 + p.2 ≤ a + width ts := by
  obtain ⟨t, ht, -, hl⟩ := mem_spans.mp hp
  have := layout_bounds ht
  simp only at this
  omega

theorem spans_pairwise (b : Bool) (a : Nat) (ts : List Tile) :
    (spans b a ts).Pairwise fun p q => p.1 + p.2 ≤ q.1 := by
  induction ts generalizing a with
  | nil => exact List.Pairwise.nil
  | cons t ts ih =>
    by_cases ht : t.free = b
    · rw [spans_cons_same ht, List.pairwise_cons]
      exact ⟨fun q hq => (spans_bounds hq).1, ih _⟩
    · rw [spans_cons_other ht]
      exact ih _

/-- A free span and a used span have no address in common. -/
theorem spans_disjoint {a : Nat} {ts : List Tile} {p q : Nat × Nat}
    (hp : p ∈ spans true a ts) (hq : q ∈ spans false a ts) :
    p.1 + p.2 ≤ q.1 ∨ q.1 + q.2 ≤ p.1 := by
  induction ts generalizing a with
  | nil => simp at hp
  | cons t ts ih =>
    cases ht : t.free with
    | true =>
      rw [spans_cons_same ht] at hp
      rw [spans_cons_other (by simp [ht])] at hq
      rcases List.mem_cons.mp hp with rfl | hp
      · exact Or.inl (spans_bounds hq).1
      · exact ih hp hq
    | false =>
      rw [spans_cons_other (by simp [ht])] at hp
      rw [spans_cons_same ht] at hq
      rcases List.mem_cons.mp hq with rfl | hq
      · exact Or.inr (spans_bounds hp).1
      · exact ih hp hq

theorem exists_span_mem {a x : Nat} {ts : List Tile} (hlo : a ≤ x) (hhi : x < a + width ts) :
    ∃ b, ∃ p ∈ spans b a ts, p.1 ≤ x ∧ x < p.1 + p.2 := by
  obtain ⟨p, hp, h⟩ := exists_layout_mem hlo hhi
  exact ⟨p.2.free, (p.1, p.2.len), mem_spans.mpr ⟨p.2, hp, rfl, rfl⟩, h⟩

/-- Free and used spans together have as many addresses as the tiling. -/
theorem sum_spans (a : Nat) (ts : List Tile) :
    ((spans true a ts).map Prod.snd).sum + ((spans false a ts).map Prod.snd).sum = width ts := by
  induction ts generalizing a with
  | nil => rfl
  | cons t ts ih =>
    have h := ih (a + t.len)
    rw [width_cons]
    cases ht : t.free with
    | true =>
      rw [spans_cons_same ht, spans_cons_other (by simp [ht]), List.map_cons, List.sum_cons]
      omega
    | false =>
      rw [spans_cons_other (by simp [ht]), spans_cons_same ht, List.map_cons, List.sum_cons]
      omega

/-- Free spans of a coalesced tiling are separated by at least one used tile. -/
theorem Coalesced.spaced {least : Nat} {ts : List Tile} (h : Coalesced least ts) (a : Nat) :
    (spans true a ts).Pairwise fun p q => p.1 + p.2 + least ≤ q.1 := by
  induction ts generalizing a with
  | nil => exact List.Pairwise.nil
  | cons t ts ih =>
    cases ht : t.free with
    | false =>
      rw [spans_cons_other (by simp [ht])]
      exact ih h.tail _
    | true =>
      rw [spans_cons_same ht, List.pairwise_cons]
      refine ⟨fun q hq => ?_, ih h.tail _⟩
      cases ts with
      | nil => simp at hq
      | cons u ts =>
        -- the neighbour of a free tile is in use, so the next free span starts past it
        have hu : u.free = false := by
          have := (List.isChain_cons_cons.mp h.apart).1
          cases hu : u.free with
          | false => rfl
          | true => exact absurd ⟨ht, hu⟩ this
        rw [spans_cons_other (by simp [hu])] at hq
        have := (spans_bounds hq).1
        have := h.least_le u (by simp) hu
        simp only
        omega

theorem spans_pos {least : Nat} {ts : List Tile} (h : Coalesced least ts) {b : Bool} {a : Nat}
    {p : Nat × Nat} (hp : p ∈ spans b a ts) : 0 < p.2 := by
  obtain ⟨t, ht, -, hl⟩ := mem_spans.mp hp
  rw [← hl]
  refine h.pos t ?_
  clear hl hp h
  induction ts generalizing a with
  | nil => simp [layout] at ht
  | cons x ts ih =>
    rcases List.mem_cons.mp ht with heq | ht
    · rw [Prod.mk.injEq] at heq
      simp [heq.2]
    · exact List.mem_cons_of_mem _ (ih ht)

/-! ## Carving a block out of a free tile -/

theorem coalesced_cons_cons {least : Nat} {s t : Tile} {ts : List Tile} :
    Coalesced least (s :: t :: ts) ↔
      (0 < s.len ∧ (s.free = false → least ≤ s.len)) ∧ ¬ Mergeable s t ∧
        Coalesced least (t :: ts) := by
  constructor
  · intro h
    exact ⟨⟨h.pos s (by simp), h.least_le s (by simp)⟩,
      (List.isChain_cons_cons.mp h.apart).1, h.tail⟩
  · rintro ⟨⟨hpos, hleast⟩, hst, h⟩
    refine ⟨?_, ?_, List.isChain_cons_cons.mpr ⟨hst, h.apart⟩⟩
    · intro x hx
      rcases List.mem_cons.mp hx with rfl | hx
      · exact hpos
      · exact h.pos x hx
    · intro x hx
      rcases List.mem_cons.mp hx with rfl | hx
      · exact hleast
      · exact h.least_le x hx

/-- A used tile may be put in front of any coalesced tiling. -/
theorem Coalesced.cons_used {least n : Nat} {ts : List Tile} (h : Coalesced least ts)
    (hn : 0 < n) (hl : least ≤ n) : Coalesced least (⟨false, n⟩ :: ts) := by
  cases ts with
  | nil => exact ⟨by simpa using hn, by simpa using hl, List.isChain_singleton _⟩
  | cons t ts => exact coalesced_cons_cons.mpr ⟨⟨hn, fun _ => hl⟩, by simp [Mergeable], h⟩

/-- A free tile may be put in front of a tiling that does not start with one. -/
theorem Coalesced.cons_free {least n : Nat} {ts : List Tile} (h : Coalesced least ts)
    (hn : 0 < n) (hts : ∀ t ∈ ts.head?, t.free = false) : Coalesced least (⟨true, n⟩ :: ts) := by
  cases ts with
  | nil => exact ⟨by simpa using hn, by simp, List.isChain_singleton _⟩
  | cons t ts =>
    refine coalesced_cons_cons.mpr ⟨⟨hn, by simp⟩, ?_, h⟩
    rintro ⟨-, ht⟩
    simp [hts t (by simp)] at ht

theorem Coalesced.head_used {least : Nat} {s : Tile} {ts : List Tile}
    (h : Coalesced least (s :: ts)) (hs : s.free = true) : ∀ t ∈ ts.head?, t.free = false := by
  intro t ht
  cases ts with
  | nil => simp at ht
  | cons u ts =>
    simp only [List.head?_cons, Option.mem_def, Option.some.injEq] at ht
    subst ht
    have hm := (List.isChain_cons_cons.mp h.apart).1
    cases hu : u.free with
    | false => rfl
    | true => exact absurd ⟨hs, hu⟩ hm

/-- A used span is a used tile between two shorter tilings. -/
theorem exists_used_split {lo : Nat} {ts : List Tile} {p : Nat × Nat}
    (hp : p ∈ spans false lo ts) :
    ∃ t₁ t₂, ts = t₁ ++ ⟨false, p.2⟩ :: t₂ ∧ p.1 = lo + width t₁ := by
  induction ts generalizing lo with
  | nil => simp at hp
  | cons t ts ih =>
    have hlater : p ∈ spans false (lo + t.len) ts →
        ∃ t₁ t₂, t :: ts = t₁ ++ ⟨false, p.2⟩ :: t₂ ∧ p.1 = lo + width t₁ := by
      intro hp
      obtain ⟨t₁, t₂, rfl, hw⟩ := ih hp
      exact ⟨t :: t₁, t₂, rfl, by rw [hw, width_cons]; omega⟩
    cases ht : t.free with
    | true =>
      rw [spans_cons_other (by simp [ht])] at hp
      exact hlater hp
    | false =>
      rw [spans_cons_same ht] at hp
      rcases List.mem_cons.mp hp with rfl | hp
      · exact ⟨[], ts, by rw [← ht]; rfl, rfl⟩
      · exact hlater hp

/-- A free span below a used tile either ends at that tile or is separated
from it by another used tile. -/
theorem Coalesced.below_used {least lo n : Nat} {t₁ t₂ : List Tile}
    (hc : Coalesced least (t₁ ++ ⟨false, n⟩ :: t₂)) {b : Nat × Nat} (hb : b ∈ spans true lo t₁) :
    b.1 + b.2 = lo + width t₁ ∨ b.1 + b.2 + least ≤ lo + width t₁ := by
  induction t₁ generalizing lo with
  | nil => simp at hb
  | cons t t₁ ih =>
    rw [width_cons, ← Nat.add_assoc]
    have hlater : b ∈ spans true (lo + t.len) t₁ → _ := ih hc.tail
    cases ht : t.free with
    | false =>
      rw [spans_cons_other (by simp [ht])] at hb
      exact hlater hb
    | true =>
      rw [spans_cons_same ht] at hb
      rcases List.mem_cons.mp hb with rfl | hb
      · cases t₁ with
        | nil => exact Or.inl rfl
        | cons u t₁ =>
          -- the neighbour of a free tile is in use
          have hu := hc.head_used ht u (by simp)
          have := hc.least_le u (by simp) hu
          rw [width_cons]
          right
          show lo + t.len + least ≤ _
          omega
      · exact hlater hb

/-- Remove `n` addresses from the low end of the first span that has them. -/
def takeFirst (n : Nat) : List (Nat × Nat) → Option (Nat × List (Nat × Nat))
  | [] => none
  | (a, l) :: bs =>
    if l = n then some (a, bs)
    else if n < l then some (a, (a + n, l - n) :: bs)
    else (takeFirst n bs).map fun r => (r.1, (a, l) :: r.2)

/-- Remove `n` addresses from the high end of the last span that has them. -/
def takeLast (n : Nat) : List (Nat × Nat) → Option (Nat × List (Nat × Nat))
  | [] => none
  | (a, l) :: bs =>
    match takeLast n bs with
    | some r => some (r.1, (a, l) :: r.2)
    | none =>
      if l = n then some (a, bs)
      else if n < l then some (a + (l - n), (a, l - n) :: bs)
      else none

/-- What carving `n` addresses at `r` out of `ts` has to achieve. -/
structure Carved (least lo n r : Nat) (ts : List Tile) (bs : List (Nat × Nat))
    (ts' : List Tile) : Prop where
  free_eq : spans true lo ts' = bs
  used_perm : (spans false lo ts').Perm ((r, n) :: spans false lo ts)
  width_eq : width ts' = width ts

/-- Carving from the tail of a tiling is carving from the tiling. -/
theorem Carved.cons {least lo n r : Nat} {t : Tile} {ts ts' : List Tile} {bs : List (Nat × Nat)}
    (h : Carved least (lo + t.len) n r ts bs ts') :
    Carved least lo n r (t :: ts) (if t.free = true then (lo, t.len) :: bs else bs) (t :: ts') := by
  refine ⟨?_, ?_, by simp [h.width_eq]⟩
  · cases ht : t.free <;> simp [ht, h.free_eq]
  · cases ht : t.free with
    | true => simpa [ht] using h.used_perm
    | false =>
      simp only [ht, spans_cons_same]
      exact (h.used_perm.cons _).trans (List.Perm.swap ..)

private theorem takeFirst_carved {least n : Nat} (hn : 0 < n) (hl : least ≤ n) :
    ∀ {ts : List Tile} {s : Tile} {lo r : Nat} {bs : List (Nat × Nat)},
      Coalesced least (s :: ts) → takeFirst n (spans true lo ts) = some (r, bs) →
      ∃ ts', Coalesced least (s :: ts') ∧ Carved least lo n r ts bs ts' := by
  intro ts
  induction ts with
  | nil =>
    intro s lo r bs _ h
    simp [takeFirst] at h
  | cons t ts ih =>
    intro s lo r bs hc h
    obtain ⟨hs, hst, htc⟩ := coalesced_cons_cons.mp hc
    cases ht : t.free with
    | false =>
      rw [spans_cons_other (by simp [ht])] at h
      obtain ⟨ts', hc', hcar⟩ := ih htc h
      refine ⟨t :: ts', coalesced_cons_cons.mpr ⟨hs, hst, hc'⟩, ?_⟩
      simpa [ht] using hcar.cons
    | true =>
      rw [spans_cons_same ht, takeFirst] at h
      have hst' : s.free = false := by
        cases hsf : s.free with
        | false => rfl
        | true => exact absurd ⟨hsf, ht⟩ hst
      split_ifs at h with hlen hlt
      · -- exact fit: the tile changes hands
        obtain ⟨rfl, rfl⟩ := Prod.mk.inj (Option.some.inj h)
        refine ⟨⟨false, n⟩ :: ts, ?_, ?_, ?_, ?_⟩
        · exact coalesced_cons_cons.mpr ⟨hs, by simp [Mergeable], htc.tail.cons_used hn hl⟩
        · simp [hlen]
        · simp [ht, hlen]
        · simp [hlen]
      · -- the low part changes hands, the rest stays free
        obtain ⟨rfl, rfl⟩ := Prod.mk.inj (Option.some.inj h)
        refine ⟨⟨false, n⟩ :: ⟨true, t.len - n⟩ :: ts, ?_, ?_, ?_, ?_⟩
        · refine coalesced_cons_cons.mpr ⟨hs, by simp [Mergeable], ?_⟩
          exact (htc.tail.cons_free (by omega) (htc.head_used ht)).cons_used hn hl
        · have : lo + n + (t.len - n) = lo + t.len := by omega
          simp [this]
        · have : lo + n + (t.len - n) = lo + t.len := by omega
          simp [ht, this]
        · simp only [width_cons]
          omega
      · -- too small: carve further on
        obtain ⟨⟨r', bs'⟩, hr, heq⟩ := Option.map_eq_some_iff.mp h
        obtain ⟨rfl, rfl⟩ := Prod.mk.inj heq
        obtain ⟨ts', hc', hcar⟩ := ih htc hr
        refine ⟨t :: ts', coalesced_cons_cons.mpr ⟨hs, hst, hc'⟩, ?_⟩
        simpa [ht] using hcar.cons

/-- **First fit.** A block carved from the first free span that is large
enough leaves a coalesced tiling in which that block is in use. -/
theorem takeFirst_tiles {least n lo r : Nat} {ts : List Tile} {bs : List (Nat × Nat)}
    (hn : 0 < n) (hl : least ≤ n) (hc : Coalesced least ts)
    (h : takeFirst n (spans true lo ts) = some (r, bs)) :
    ∃ ts', Coalesced least ts' ∧ Carved least lo n r ts bs ts' := by
  obtain ⟨ts', hc', hcar⟩ := takeFirst_carved hn hl (hc.cons_used hn hl) h
  exact ⟨ts', hc'.tail, hcar⟩

private theorem takeLast_carved {least n : Nat} (hn : 0 < n) (hl : least ≤ n) :
    ∀ {ts : List Tile} {s : Tile} {lo r : Nat} {bs : List (Nat × Nat)},
      Coalesced least (s :: ts) → takeLast n (spans true lo ts) = some (r, bs) →
      ∃ ts', Coalesced least (s :: ts') ∧ Carved least lo n r ts bs ts' := by
  intro ts
  induction ts with
  | nil =>
    intro s lo r bs _ h
    simp [takeLast] at h
  | cons t ts ih =>
    intro s lo r bs hc h
    obtain ⟨hs, hst, htc⟩ := coalesced_cons_cons.mp hc
    cases ht : t.free with
    | false =>
      rw [spans_cons_other (by simp [ht])] at h
      obtain ⟨ts', hc', hcar⟩ := ih htc h
      refine ⟨t :: ts', coalesced_cons_cons.mpr ⟨hs, hst, hc'⟩, ?_⟩
      simpa [ht] using hcar.cons
    | true =>
      rw [spans_cons_same ht, takeLast] at h
      have hst' : s.free = false := by
        cases hsf : s.free with
        | false => rfl
        | true => exact absurd ⟨hsf, ht⟩ hst
      cases htail : takeLast n (spans true (lo + t.len) ts) with
      | some r' =>
        -- a later span was taken
        rw [htail] at h
        obtain ⟨rfl, rfl⟩ := Prod.mk.inj (Option.some.inj h)
        obtain ⟨ts', hc', hcar⟩ := ih htc htail
        refine ⟨t :: ts', coalesced_cons_cons.mpr ⟨hs, hst, hc'⟩, ?_⟩
        simpa [ht] using hcar.cons
      | none =>
        rw [htail] at h
        simp only at h
        split_ifs at h with hlen hlt
        · obtain ⟨rfl, rfl⟩ := Prod.mk.inj (Option.some.inj h)
          refine ⟨⟨false, n⟩ :: ts, ?_, ?_, ?_, ?_⟩
          · exact coalesced_cons_cons.mpr ⟨hs, by simp [Mergeable], htc.tail.cons_used hn hl⟩
          · simp [hlen]
          · simp [ht, hlen]
          · simp [hlen]
        · -- the high part changes hands, the rest stays free
          obtain ⟨rfl, rfl⟩ := Prod.mk.inj (Option.some.inj h)
          have hsum : lo + (t.len - n) + n = lo + t.len := by omega
          refine ⟨⟨true, t.len - n⟩ :: ⟨false, n⟩ :: ts, ?_, ?_, ?_, ?_⟩
          · refine coalesced_cons_cons.mpr ⟨hs, by simp [Mergeable, hst'], ?_⟩
            refine (htc.tail.cons_used hn hl).cons_free (by omega) ?_
            simp
          · simp [hsum]
          · simp [ht, hsum]
          · simp only [width_cons]
            omega

/-- **Last fit.** A block carved from the last free span that is large
enough leaves a coalesced tiling in which that block is in use. -/
theorem takeLast_tiles {least n lo r : Nat} {ts : List Tile} {bs : List (Nat × Nat)}
    (hn : 0 < n) (hl : least ≤ n) (hc : Coalesced least ts)
    (h : takeLast n (spans true lo ts) = some (r, bs)) :
    ∃ ts', Coalesced least ts' ∧ Carved least lo n r ts bs ts' := by
  obtain ⟨ts', hc', hcar⟩ := takeLast_carved hn hl (hc.cons_used hn hl) h
  exact ⟨ts', hc'.tail, hcar⟩

/-! ## Returning a used tile -/

/-- Merge `b` with the last span before it when they touch. -/
def mergePrev (l : List (Nat × Nat)) (b : Nat × Nat) : List (Nat × Nat) × (Nat × Nat) :=
  match l.getLast? with
  | some p => if p.1 + p.2 = b.1 then (l.dropLast, (p.1, p.2 + b.2)) else (l, b)
  | none => (l, b)

/-- Merge `b` with the first span after it when they touch. -/
def mergeNext (b : Nat × Nat) : List (Nat × Nat) → List (Nat × Nat)
  | [] => [b]
  | q :: l => if b.1 + b.2 = q.1 then (b.1, b.2 + q.2) :: l else b :: q :: l

/-- Insert `b` between the spans `l` before it and `r` after it. -/
def putBack (l : List (Nat × Nat)) (b : Nat × Nat) (r : List (Nat × Nat)) : List (Nat × Nat) :=
  (mergePrev l b).1 ++ mergeNext (mergePrev l b).2 r

/-- Merging to the right: a free tile of some length takes the place of the
used tile and of a free neighbour above it. -/
private theorem mergeNext_tiles {least n : Nat} {t₂ : List Tile} (lo : Nat)
    (hc : Coalesced least (⟨false, n⟩ :: t₂)) (a k : Nat) (hak : a + k = lo) :
    ∃ m t₂', spans true a (⟨true, k + m⟩ :: t₂') = mergeNext (a, k + n) (spans true (lo + n) t₂) ∧
      spans false a (⟨true, k + m⟩ :: t₂') = spans false (lo + n) t₂ ∧
      m + width t₂' = n + width t₂ ∧ Coalesced least (⟨true, m⟩ :: t₂') := by
  have hn : 0 < n := hc.pos ⟨false, n⟩ (by simp)
  cases t₂ with
  | nil =>
    exact ⟨n, [], by simp [mergeNext], by simp, by simp, hc.tail.cons_free hn (by simp)⟩
  | cons t t₂ =>
    cases ht : t.free with
    | true =>
      refine ⟨n + t.len, t₂, ?_, ?_, by simp; omega, ?_⟩
      · have h1 : a + (k + n) = lo + n := by omega
        have h2 : a + (k + (n + t.len)) = lo + n + t.len := by omega
        have h3 : k + n + t.len = k + (n + t.len) := by omega
        simp [mergeNext, ht, h1, h2, h3]
      · have h2 : a + (k + (n + t.len)) = lo + n + t.len := by omega
        simp [ht, h2]
      · exact hc.tail.tail.cons_free (by omega) (hc.tail.head_used ht)
    | false =>
      refine ⟨n, t :: t₂, ?_, ?_, by simp, ?_⟩
      · have h1 : a + (k + n) = lo + n := by omega
        have htail : ∀ q ∈ spans true (lo + n + t.len) t₂, lo + n < q.1 := by
          intro q hq
          have := (spans_bounds hq).1
          have := hc.pos t (by simp)
          omega
        simp only [spans_cons_same, h1]
        rw [spans_cons_other (by simp [ht])]
        cases hsp : spans true (lo + n + t.len) t₂ with
        | nil => simp [mergeNext]
        | cons q l =>
          have := htail q (by simp [hsp])
          simp only [mergeNext, h1]
          rw [if_neg (by omega)]
      · have h1 : a + (k + n) = lo + n := by omega
        simp [h1]
      · exact hc.tail.cons_free hn (by simp [ht])

/-- The part of a coalesced tiling before a given tile is coalesced, and so
is any coalesced continuation that does not clash with its last tile. -/
private theorem coalesced_append {least : Nat} {s t : List Tile} :
    Coalesced least (s ++ t) ↔ Coalesced least s ∧ Coalesced least t ∧
      ∀ x ∈ s.getLast?, ∀ y ∈ t.head?, ¬ Mergeable x y := by
  constructor
  · intro h
    obtain ⟨h1, h2, h3⟩ := List.isChain_append.mp h.apart
    exact ⟨⟨fun x hx => h.pos x (by simp [hx]), fun x hx => h.least_le x (by simp [hx]), h1⟩,
      ⟨fun x hx => h.pos x (by simp [hx]), fun x hx => h.least_le x (by simp [hx]), h2⟩, h3⟩
  · rintro ⟨h1, h2, h3⟩
    refine ⟨fun x hx => ?_, fun x hx => ?_, List.isChain_append.mpr ⟨h1.apart, h2.apart, h3⟩⟩
    · rcases List.mem_append.mp hx with hx | hx
      · exact h1.pos x hx
      · exact h2.pos x hx
    · rcases List.mem_append.mp hx with hx | hx
      · exact h1.least_le x hx
      · exact h2.least_le x hx

/-- **Returning a block.** Turning a used tile into a free one and merging it
with the free tiles it touches leaves a coalesced tiling whose free spans
are those of `putBack`. -/
theorem putBack_tiles {least n lo : Nat} {t₁ t₂ : List Tile}
    (hc : Coalesced least (t₁ ++ ⟨false, n⟩ :: t₂)) :
    ∃ ts', Coalesced least ts' ∧
      spans true lo ts' = putBack (spans true lo t₁) (lo + width t₁, n)
        (spans true (lo + width t₁ + n) t₂) ∧
      spans false lo ts' = spans false lo t₁ ++ spans false (lo + width t₁ + n) t₂ ∧
      width ts' = width (t₁ ++ ⟨false, n⟩ :: t₂) := by
  obtain ⟨hc₁, hc₂, -⟩ := coalesced_append.mp hc
  rcases List.eq_nil_or_concat t₁ with rfl | ⟨s, t, rfl⟩
  · -- nothing below
    obtain ⟨m, t₂', hfree, hused, hw, hc'⟩ := mergeNext_tiles lo hc₂ lo 0 (by simp)
    rw [Nat.zero_add, Nat.zero_add] at hfree
    rw [Nat.zero_add] at hused
    refine ⟨⟨true, m⟩ :: t₂', hc', ?_, by simpa using hused, by simpa using hw⟩
    simpa [putBack, mergePrev] using hfree
  · rw [List.concat_eq_append] at hc hc₁ ⊢
    obtain ⟨hs, -, hst⟩ := coalesced_append.mp hc₁
    have hlast : ∀ x ∈ s.getLast?, ¬ Mergeable x t := fun x hx => hst x hx t (by simp)
    cases ht : t.free with
    | true =>
      -- the tile below is free and absorbs the block
      obtain ⟨m, t₂', hfree, hused, hw, hc'⟩ := mergeNext_tiles (lo + width s + t.len) hc₂
        (lo + width s) t.len rfl
      refine ⟨s ++ ⟨true, t.len + m⟩ :: t₂', ?_, ?_, ?_, ?_⟩
      · refine coalesced_append.mpr ⟨hs, ?_, ?_⟩
        · have hm : 0 < m := hc'.pos ⟨true, m⟩ (by simp)
          exact hc'.tail.cons_free (by omega) (hc'.head_used rfl)
        · intro x hx y hy
          simp only [List.head?_cons, Option.mem_def, Option.some.injEq] at hy
          subst hy
          have := hlast x hx
          simpa [Mergeable, ht] using this
      · rw [spans_append, hfree, spans_append]
        simp [putBack, mergePrev, ht, Nat.add_assoc]
      · rw [spans_append, hused, spans_append]
        simp [ht, Nat.add_assoc]
      · simp only [width_append, width_cons, width_nil]
        omega
    | false =>
      -- the tile below is in use, so nothing merges there
      obtain ⟨m, t₂', hfree, hused, hw, hc'⟩ := mergeNext_tiles (lo + width s + t.len) hc₂
        (lo + width s + t.len) 0 rfl
      rw [Nat.zero_add, Nat.zero_add] at hfree
      rw [Nat.zero_add] at hused
      have hsp : spans true lo (s ++ [t]) = spans true lo s := by
        rw [spans_append, spans_cons_other (by simp [ht])]
        simp
      have hprev : mergePrev (spans true lo s) (lo + width s + t.len, n) =
          (spans true lo s, (lo + width s + t.len, n)) := by
        unfold mergePrev
        cases hl : (spans true lo s).getLast? with
        | none => rfl
        | some p =>
          have := (spans_bounds (List.mem_of_getLast? hl)).2
          have := hc₁.pos t (by simp)
          simp only
          rw [if_neg (by omega)]
      refine ⟨s ++ t :: ⟨true, m⟩ :: t₂', ?_, ?_, ?_, ?_⟩
      · rw [show s ++ t :: ⟨true, m⟩ :: t₂' = (s ++ [t]) ++ ⟨true, m⟩ :: t₂' by simp]
        refine coalesced_append.mpr ⟨hc₁, hc', ?_⟩
        intro x hx y _
        rw [List.getLast?_concat, Option.mem_def, Option.some.injEq] at hx
        subst hx
        simp [Mergeable, ht]
      · have hlo : lo + width (s ++ [t]) = lo + width s + t.len := by
          simp [Nat.add_assoc]
        rw [spans_append, spans_cons_other (by simp [ht]), hfree, hsp, hlo, putBack, hprev]
      · rw [spans_append, spans_cons_same ht, hused, spans_append, spans_cons_same ht]
        simp [Nat.add_assoc]
      · simp only [width_append, width_cons, width_nil]
        omega

end Tiling
