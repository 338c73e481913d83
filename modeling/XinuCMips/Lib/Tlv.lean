import Mathlib.Data.List.Basic
import Mathlib.Data.UInt

/-!
# Lists of options: type, length, value

Options follow one another in a message of `len` bytes: a type, a length, and so many
bytes. Type 0 is a pad and type 255 the end; both are single bytes.

A parser that steps from one option to the next by the length alone takes a pad for an
option whose length is the byte behind it, and does not see the end.

* `options`   — the whole options of the list;
* `steps`     — where such a parser stops over;
* `agree_iff` — when it stops at the same options, and takes a value from no other ones;
* `foldl_steps` — then it takes what the options say.
-/

namespace Tlv

def PAD : UInt8 := 0
def END : UInt8 := 255

def Ordinary (t : UInt8) : Prop := t ≠ PAD ∧ t ≠ END

instance (t : UInt8) : Decidable (Ordinary t) := inferInstanceAs (Decidable (_ ∧ _))

variable (b : Nat → UInt8) (len : Nat)

/-- The place behind the option at `p`. -/
def behind (p : Nat) : Nat := p + 2 + (b (p + 1)).toNat

/-- The option at `p` lies in the message. -/
def Whole (p : Nat) : Prop := p + 1 < len ∧ behind b p ≤ len

instance (p : Nat) : Decidable (Whole b len p) := inferInstanceAs (Decidable (_ ∧ _))

theorem lt_behind (p : Nat) : p + 1 < behind b p := by
  unfold behind
  omega

/-- The places of the whole options from `p` on. -/
def options (p : Nat) : List Nat :=
  if p < len then
    if b p = PAD then options (p + 1)
    else if b p = END then []
    else if Whole b len p then p :: options (behind b p)
    else []
  else []
termination_by len - p
decreasing_by
  · omega
  · have := lt_behind b p
    omega

/-- The places at which a parser stops over that does not know pads and ends. -/
def steps (p : Nat) : List Nat :=
  if p + 1 < len then p :: steps (behind b p) else []
termination_by len - p
decreasing_by
  have := lt_behind b p
  omega

/-- How many bytes of an option of each type are taken, from the types that are looked for. -/
structure Wants where
  bytes : UInt8 → Nat
  pad : bytes PAD = 0
  last : bytes END = 0

variable (want : Wants)

/-- The bytes that are taken at `p` belong to a whole option. -/
def Sound (p : Nat) : Prop :=
  0 < want.bytes (b p) → Whole b len p ∧ want.bytes (b p) ≤ (b (p + 1)).toNat

/-- The steps that stop at a whole option. -/
def found (p : Nat) : List Nat :=
  (steps b len p).filter fun q => Ordinary (b q) ∧ Whole b len q

/-- From `p` on there is no whole option, and nothing is taken. -/
def Idle (p : Nat) : Prop :=
  ∀ q ∈ steps b len p, ¬(Ordinary (b q) ∧ Whole b len q) ∧ want.bytes (b q) = 0

/-- The steps keep to the options: each one is at a whole option with enough bytes, or at
two pads. At the first other place the list ends, and nothing is found behind it. -/
def Agree (p : Nat) : Prop :=
  if p + 1 < len then
    if Ordinary (b p) ∧ Whole b len p then
      want.bytes (b p) ≤ (b (p + 1)).toNat ∧ Agree (behind b p)
    else if b p = PAD ∧ b (p + 1) = PAD then Agree (p + 2)
    else want.bytes (b p) = 0 ∧ Idle b len want (behind b p) ∧
      (b p = PAD → b (p + 1) = END ∨ ¬Whole b len (p + 1))
  else True
termination_by len - p
decreasing_by
  · have := lt_behind b p
    omega
  · omega

-- ---------------------------------------------------------------------------
-- The steps
-- ---------------------------------------------------------------------------

variable {b len want} {p q : Nat}

/-- Pads and ends are not looked for. -/
theorem ordinary_of_wanted (h : want.bytes (b q) ≠ 0) : Ordinary (b q) := by
  refine ⟨fun hpad => h ?_, fun hend => h ?_⟩
  · rw [hpad]
    exact want.pad
  · rw [hend]
    exact want.last

theorem steps_of_lt (h : p + 1 < len) : steps b len p = p :: steps b len (behind b p) := by
  rw [steps, if_pos h]

theorem steps_of_not_lt (h : ¬p + 1 < len) : steps b len p = [] := by
  rw [steps, if_neg h]

/-- The steps go on. -/
theorem le_of_mem_steps (h : q ∈ steps b len p) : p ≤ q ∧ q + 1 < len := by
  induction p using steps.induct b len with
  | case1 p hlt ih =>
    rw [steps_of_lt hlt] at h
    rcases List.mem_cons.mp h with rfl | h
    · exact ⟨le_rfl, hlt⟩
    · have hlt := lt_behind b p
      have hle := ih h
      omega
  | case2 p hnot =>
    rw [steps_of_not_lt hnot] at h
    cases h

/-- The steps look at the bytes of the message only. -/
theorem steps_congr {b' : Nat → UInt8} (h : ∀ i < len, b i = b' i) (p : Nat) :
    steps b len p = steps b' len p := by
  induction p using steps.induct b len with
  | case1 p hlt ih =>
    have hbehind : behind b p = behind b' p := by
      unfold behind
      rw [h (p + 1) hlt]
    rw [steps_of_lt hlt, steps_of_lt hlt, ih, hbehind]
  | case2 p hnot => rw [steps_of_not_lt hnot, steps_of_not_lt hnot]

theorem found_cons (h : p + 1 < len) (hopt : Ordinary (b p) ∧ Whole b len p) :
    found b len p = p :: found b len (behind b p) := by
  unfold found
  rw [steps_of_lt h, List.filter_cons_of_pos (by simpa using hopt)]

theorem found_skip (h : p + 1 < len) (hopt : ¬(Ordinary (b p) ∧ Whole b len p)) :
    found b len p = found b len (behind b p) := by
  unfold found
  rw [steps_of_lt h, List.filter_cons_of_neg (by simpa using hopt)]

theorem found_of_not_lt (h : ¬p + 1 < len) : found b len p = [] := by
  unfold found
  rw [steps_of_not_lt h]
  rfl

theorem idle_iff : Idle b len want p ↔
    found b len p = [] ∧ ∀ q ∈ steps b len p, Sound b len want q := by
  unfold found Idle Sound
  rw [List.filter_eq_nil_iff]
  constructor
  · intro h
    refine ⟨fun q hq => ?_, fun q hq hpos => ?_⟩
    · rw [decide_eq_true_eq]
      exact (h q hq).1
    · have hzero := (h q hq).2
      omega
  · rintro ⟨hnone, hsound⟩ q hq
    have hopt := hnone q hq
    rw [decide_eq_true_eq] at hopt
    refine ⟨hopt, ?_⟩
    by_contra hne
    -- bytes are taken, from a whole option
    exact hopt ⟨ordinary_of_wanted hne, (hsound q hq (Nat.pos_of_ne_zero hne)).1⟩

-- ---------------------------------------------------------------------------
-- The options
-- ---------------------------------------------------------------------------

theorem options_pad (h : p < len) (hp : b p = PAD) : options b len p = options b len (p + 1) := by
  rw [options, if_pos h, if_pos hp]

theorem options_of_le (h : len ≤ p) : options b len p = [] := by
  rw [options, if_neg (by omega)]

theorem options_end (hp : b p = END) : options b len p = [] := by
  by_cases h : p < len
  · rw [options, if_pos h, if_neg (by rw [hp]; decide), if_pos hp]
  · exact options_of_le (not_lt.mp h)

theorem options_cons (hopt : Ordinary (b p)) (hw : Whole b len p) :
    options b len p = p :: options b len (behind b p) := by
  have hlt := hw.1
  rw [options, if_pos (by omega), if_neg hopt.1, if_neg hopt.2, if_pos hw]

theorem options_cut (hopt : Ordinary (b p)) (hw : ¬Whole b len p) : options b len p = [] := by
  by_cases h : p < len
  · rw [options, if_pos h, if_neg hopt.1, if_neg hopt.2, if_neg hw]
  · exact options_of_le (not_lt.mp h)

/-- One byte is no option. -/
theorem options_of_not_lt (h : ¬p + 1 < len) : options b len p = [] := by
  by_cases hpad : b p = PAD
  · by_cases hlt : p < len
    · rw [options_pad hlt hpad]
      exact options_of_le (by omega)
    · exact options_of_le (by omega)
  · by_cases hend : b p = END
    · exact options_end hend
    · exact options_cut ⟨hpad, hend⟩ fun hw => h hw.1

/-- An option behind a single pad is missed by the steps. -/
theorem options_pad_ne (h : p + 1 < len) (hp : b p = PAD) (hnext : b (p + 1) ≠ PAD)
    (hend : b (p + 1) ≠ END) (hw : Whole b len (p + 1)) :
    found b len (behind b p) ≠ options b len p := by
  rw [options_pad (by omega) hp, options_cons ⟨hnext, hend⟩ hw]
  intro heq
  have hmem : p + 1 ∈ found b len (behind b p) := by
    rw [heq]
    exact List.mem_cons_self
  have hle := (le_of_mem_steps (List.mem_of_mem_filter hmem)).1
  have hlt := lt_behind b p
  omega

-- ---------------------------------------------------------------------------
-- Agreement
-- ---------------------------------------------------------------------------

/-- **The steps stop at the options of the list, and take a value from none but them,
exactly when they agree.** -/
theorem agree_iff (p : Nat) : Agree b len want p ↔
    found b len p = options b len p ∧ ∀ q ∈ steps b len p, Sound b len want q := by
  induction p using Agree.induct b len with
  | case1 p hlt hopt ih =>
    rw [Agree, if_pos hlt, if_pos hopt, ih, found_cons hlt hopt, options_cons hopt.1 hopt.2,
      steps_of_lt hlt, List.forall_mem_cons, List.cons.injEq, and_iff_right rfl]
    have hsound : Sound b len want p ↔ want.bytes (b p) ≤ (b (p + 1)).toNat :=
      ⟨fun h => by
        rcases Nat.eq_zero_or_pos (want.bytes (b p)) with hz | hpos
        · omega
        · exact (h hpos).2, fun h _ => ⟨hopt.2, h⟩⟩
    rw [hsound]
    tauto
  | case2 p hlt hopt hpads ih =>
    have hbehind : behind b p = p + 2 := by
      unfold behind
      rw [hpads.2]
      rfl
    have hsound : Sound b len want p := fun hpos => by
      rw [hpads.1, want.pad] at hpos
      exact absurd hpos (lt_irrefl 0)
    rw [Agree, if_pos hlt, if_neg hopt, if_pos hpads, ih, found_skip hlt hopt, steps_of_lt hlt,
      hbehind, options_pad (by omega) hpads.1, options_pad hlt hpads.2, List.forall_mem_cons,
      and_iff_right hsound]
  | case3 p hlt hopt hpads =>
    have hsound : Sound b len want p ↔ want.bytes (b p) = 0 := by
      constructor
      · intro h
        by_contra hne
        exact hopt ⟨ordinary_of_wanted hne, (h (Nat.pos_of_ne_zero hne)).1⟩
      · intro h hpos
        omega
    rw [Agree, if_pos hlt, if_neg hopt, if_neg hpads, found_skip hlt hopt, steps_of_lt hlt,
      List.forall_mem_cons, hsound, idle_iff]
    by_cases hmissed : b p = PAD → b (p + 1) = END ∨ ¬Whole b len (p + 1)
    · -- the list ends here
      have hnil : options b len p = [] := by
        by_cases hpad : b p = PAD
        · rw [options_pad (by omega) hpad]
          rcases hmissed hpad with hend | hcut
          · exact options_end hend
          · by_cases hend : b (p + 1) = END
            · exact options_end hend
            · exact options_cut ⟨fun hnext => hpads ⟨hpad, hnext⟩, hend⟩ hcut
        · by_cases hend : b p = END
          · exact options_end hend
          · exact options_cut ⟨hpad, hend⟩ fun hw => hopt ⟨⟨hpad, hend⟩, hw⟩
      rw [hnil]
      tauto
    · obtain ⟨hpad, hnot⟩ := Classical.not_imp.mp hmissed
      obtain ⟨hend, hwhole⟩ := not_or.mp hnot
      refine iff_of_false (fun h => hmissed h.2.2) fun h => ?_
      exact options_pad_ne hlt hpad (fun hnext => hpads ⟨hpad, hnext⟩) hend (not_not.mp hwhole) h.1
  | case4 p hnot =>
    rw [Agree, if_neg hnot, found_of_not_lt hnot, options_of_not_lt hnot, steps_of_not_lt hnot]
    exact iff_of_true trivial ⟨rfl, nofun⟩

-- ---------------------------------------------------------------------------
-- What is taken
-- ---------------------------------------------------------------------------

variable {α : Type} {f : α → Nat → α}

theorem foldl_filter_skip {P : Nat → Prop} [DecidablePred P] {l : List Nat}
    (h : ∀ q ∈ l, ¬P q → ∀ s, f s q = s) (s : α) : (l.filter fun q => P q).foldl f s = l.foldl f s := by
  induction l generalizing s with
  | nil => rfl
  | cons q l ih =>
    obtain ⟨hq, hl⟩ := List.forall_mem_cons.mp h
    by_cases hP : P q
    · rw [List.filter_cons_of_pos (by simpa using hP), List.foldl_cons, List.foldl_cons, ih hl]
    · rw [List.filter_cons_of_neg (by simpa using hP), List.foldl_cons, hq hP, ih hl]

/-- **What the steps take is what the options say** that have enough bytes. -/
theorem foldl_steps (hf : ∀ q, want.bytes (b q) = 0 → ∀ s, f s q = s)
    (hfound : found b len p = options b len p) (hsound : ∀ q ∈ steps b len p, Sound b len want q)
    (s : α) : (steps b len p).foldl f s =
      ((options b len p).filter fun q => want.bytes (b q) ≤ (b (q + 1)).toNat).foldl f s := by
  have hwant : ∀ q ∈ steps b len p, ¬(Ordinary (b q) ∧ Whole b len q) → want.bytes (b q) = 0 := by
    intro q hq hopt
    by_contra hne
    exact hopt ⟨ordinary_of_wanted hne, (hsound q hq (Nat.pos_of_ne_zero hne)).1⟩
  have hall : ∀ q ∈ options b len p, want.bytes (b q) ≤ (b (q + 1)).toNat := by
    intro q hq
    rw [← hfound] at hq
    rcases Nat.eq_zero_or_pos (want.bytes (b q)) with hz | hpos
    · omega
    · exact (hsound q (List.mem_of_mem_filter hq) hpos).2
  rw [List.filter_eq_self.mpr fun q hq => decide_eq_true (hall q hq), ← hfound]
  exact (foldl_filter_skip (fun q hq hopt => hf q (hwant q hq hopt)) s).symm

end Tlv
