import Mathlib.Data.List.Infix

/-!
# Monitors

A monitor reads the history of a run and rejects it when an event breaks the
rules. Histories are lists of events, newest first, as a run extends them.

* `Monitor.run_ignore` — events a monitor does not look at;
* `Monitor.run_filter` — histories that differ in nothing else.
-/

/-- A deterministic automaton over events; `next` gives nothing where the
event breaks the rules. -/
structure Monitor (E S : Type) where
  init : S
  next : S → E → Option S

namespace Monitor

variable {E S : Type} (M : Monitor E S)

/-- What the monitor knows after a history that it accepts. -/
def run : List E → Option S
  | [] => some M.init
  | e :: tr => (run tr).bind fun s => M.next s e

variable {M} {e : E} {s : S} {tr tr' : List E}

theorem run_cons (h : M.run tr = some s) : M.run (e :: tr) = M.next s e := by
  unfold run
  rw [h]
  rfl

/-- An event that the monitor does not look at. -/
theorem run_ignore (h : ∀ s, M.next s e = some s) : M.run (e :: tr) = M.run tr := by
  conv_lhs => unfold run
  cases hr : M.run tr with
  | none => rfl
  | some s => exact h s

/-- Only the events a monitor looks at count. -/
theorem run_filter {look : E → Bool} (h : ∀ e, look e = false → ∀ s, M.next s e = some s) :
    ∀ tr, M.run (tr.filter look) = M.run tr
  | [] => rfl
  | e :: tr => by
    cases he : look e with
    | true =>
      rw [List.filter_cons_of_pos he]
      show (M.run (tr.filter look)).bind _ = (M.run tr).bind _
      rw [run_filter h tr]
    | false =>
      rw [List.filter_cons_of_neg (by rw [he]; simp), run_ignore (h e he)]
      exact run_filter h tr

end Monitor
