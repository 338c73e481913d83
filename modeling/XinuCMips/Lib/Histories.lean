import XinuCMips.Lib.Monitor

/-!
# Machines and the histories of their runs

A machine moves by actions, of which some may not be possible in a state, and
every step shows events. A run collects them in a history, newest first.

* `Machine.Run.invariant` — what every step preserves holds after every run;
* `Machine.Run.accepted`  — a monitor that follows the machine step by step
  accepts the histories of its runs;
* `Machine.Run.transitions_iff` — a condition on the steps, and what it is the
  condition for;
* `Machine.exec_run`      — computing a run.
-/

/-- A machine. The events of one step are listed newest first. -/
structure Machine (S A E : Type) where
  start : S → Prop
  step : S → A → Option (S × List E)

namespace Machine

variable {S A E Q : Type} {M : Machine S A E} {ok : S → A → Prop} {s s' : S} {tr es : List E}

/-- The runs all of whose steps meet a condition on the state and the action. -/
inductive Run (M : Machine S A E) (ok : S → A → Prop) : List E → S → Prop
  | start {s : S} (h : M.start s) : Run M ok [] s
  | step {tr es : List E} {s s' : S} {a : A} (r : Run M ok tr s) (hok : ok s a)
      (h : M.step s a = some (s', es)) : Run M ok (es ++ tr) s'

/-- **The induction over a run.** -/
theorem Run.invariant {I : List E → S → Prop} (r : M.Run ok tr s)
    (hstart : ∀ s, M.start s → I [] s)
    (hstep : ∀ tr es s s' a, I tr s → ok s a → M.step s a = some (s', es) → I (es ++ tr) s') :
    I tr s := by
  induction r with
  | start h => exact hstart _ h
  | step _ hok h ih => exact hstep _ _ _ _ _ ih hok h

/-- A run under a condition is one under every weaker condition. -/
theorem Run.mono {ok' : S → A → Prop} (r : M.Run ok tr s) (h : ∀ s a, ok s a → ok' s a) :
    M.Run ok' tr s := by
  induction r with
  | start hs => exact .start hs
  | step _ hok hst ih => exact .step ih (h _ _ hok) hst

/-! ## Monitors -/

/-- What a monitor knows after more events. -/
def feed (N : Monitor E Q) (q : Q) : List E → Option Q
  | [] => some q
  | e :: es => (feed N q es).bind fun q => N.next q e

theorem run_append (N : Monitor E Q) : ∀ {es tr : List E} {q : Q}, N.run tr = some q →
    N.run (es ++ tr) = feed N q es
  | [], _, _, h => h
  | e :: es, tr, q, h => by
    rw [List.cons_append]
    unfold Monitor.run feed
    rw [run_append N h]

theorem feed_cons (N : Monitor E Q) (q : Q) (e : E) (es : List E) :
    feed N q (e :: es) = (feed N q es).bind fun q => N.next q e := rfl

theorem feed_append (N : Monitor E Q) (q : Q) (es : List E) : ∀ es' : List E,
    feed N q (es' ++ es) = (feed N q es).bind fun q => feed N q es'
  | [] => by
    rw [List.nil_append]
    cases hf : feed N q es with
    | none => rfl
    | some q => rfl
  | e :: es' => by
    rw [List.cons_append, feed_cons, feed_append N q es es', Option.bind_assoc]
    rfl

theorem feed_singleton (N : Monitor E Q) (q : Q) (e : E) : feed N q [e] = N.next q e := rfl

/-- Events that a monitor does not look at. -/
theorem feed_ignored {N : Monitor E Q} (h : ∀ e ∈ es, ∀ q, N.next q e = some q) (q : Q) :
    feed N q es = some q := by
  induction es with
  | nil => rfl
  | cons e es ih =>
    rw [feed_cons, ih fun e' he' => h e' (List.mem_cons_of_mem e he')]
    exact h e List.mem_cons_self q

/-- **A monitor that can follow every step accepts every run.** -/
theorem Run.accepted {N : Monitor E Q} {R : Q → S → Prop} (r : M.Run ok tr s)
    (hstart : ∀ s, M.start s → R N.init s)
    (hstep : ∀ q s s' a es, R q s → ok s a → M.step s a = some (s', es) →
      ∃ q', feed N q es = some q' ∧ R q' s') : ∃ q, N.run tr = some q ∧ R q s := by
  induction r with
  | start h => exact ⟨N.init, rfl, hstart _ h⟩
  | step _ hok h ih =>
    obtain ⟨q, hq, hR⟩ := ih
    obtain ⟨q', hq', hR'⟩ := hstep _ _ _ _ _ hR hok h
    exact ⟨q', (run_append N hq).trans hq', hR'⟩

/-! ## Steps as events -/

structure Transition (S A E : Type) where
  before : S
  act : A
  after : S
  events : List E

/-- The machine that shows its steps. -/
def transitions (M : Machine S A E) : Machine S A (Transition S A E) where
  start := M.start
  step s a := (M.step s a).map fun r => (r.1, [⟨s, a, r.1, r.2⟩])

/-- **What holds of a step exactly under a condition** holds of all steps of a run
exactly when all of them meet the condition. -/
theorem Run.transitions_iff {steps : List (Transition S A E)} {P C : Transition S A E → Prop}
    (r : M.transitions.Run ok steps s)
    (h : ∀ s a s' es, M.step s a = some (s', es) → (P ⟨s, a, s', es⟩ ↔ C ⟨s, a, s', es⟩)) :
    (∀ t ∈ steps, P t) ↔ ∀ t ∈ steps, C t := by
  have hsteps : ∀ t ∈ steps, P t ↔ C t := by
    induction r with
    | start hs => exact nofun
    | step _ _ hst ih =>
      obtain ⟨⟨s', es⟩, hm, hr⟩ := Option.map_eq_some_iff.mp hst
      obtain ⟨rfl, rfl⟩ := Prod.mk.inj hr
      intro t ht
      rcases List.mem_append.mp ht with ht | ht
      · rw [List.mem_singleton.mp ht]
        exact h _ _ _ _ hm
      · exact ih t ht
  exact forall₂_congr hsteps

/-! ## Computed runs -/

/-- The state and the history after a list of actions, if each is possible and
meets the condition. -/
def exec (M : Machine S A E) (ok : S → A → Prop) [∀ s a, Decidable (ok s a)] (s : S) (tr : List E) :
    List A → Option (S × List E)
  | [] => some (s, tr)
  | a :: as =>
    if ok s a then
      match M.step s a with
      | none => none
      | some (s', es) => exec M ok s' (es ++ tr) as
    else none

theorem exec_run [∀ s a, Decidable (ok s a)] {as : List A} {tr' : List E} (r : M.Run ok tr s)
    (h : M.exec ok s tr as = some (s', tr')) : M.Run ok tr' s' := by
  induction as generalizing s tr with
  | nil =>
    obtain ⟨rfl, rfl⟩ := Prod.mk.inj (Option.some.inj h)
    exact r
  | cons a as ih =>
    unfold exec at h
    by_cases hok : ok s a
    · rw [if_pos hok] at h
      cases hst : M.step s a with
      | none =>
        rw [hst] at h
        cases h
      | some p =>
        rw [hst] at h
        exact ih (r.step hok hst) h
    · rw [if_neg hok] at h
      cases h

end Machine
