import Mathlib.Data.List.Infix
import Mathlib.Data.List.Nodup

/-!
# Tables of distinct names

A table gives every name that is looked up the number of the place where it stands, and puts
it at the end if it is new. Numbers stand for names as well as the names themselves.

* `number_append`   — a number stays what it is while the table grows;
* `number_inj`      — numbers of names that have been seen tell them apart;
* `getElem?_number` — a number leads back to its name;
-/

namespace Interning

variable {α : Type} [DecidableEq α] {tab l l' : List α} {a b : α}

/-- The table after a name is looked up. -/
def intern (tab : List α) (a : α) : List α := if a ∈ tab then tab else tab ++ [a]

/-- The table after the names of a list. -/
def internAll (l : List α) : List α := l.foldl intern []

/-- The number of a name among those of a list. -/
def number (l : List α) (a : α) : ℕ := (internAll l).idxOf a

theorem prefix_intern : tab <+: intern tab a := by
  unfold intern
  split_ifs
  · exact List.prefix_rfl
  · exact List.prefix_append _ _

theorem mem_intern : b ∈ intern tab a ↔ b ∈ tab ∨ b = a := by
  unfold intern
  split_ifs with h
  · exact ⟨Or.inl, fun hor => hor.elim id fun heq => heq ▸ h⟩
  · rw [List.mem_append, List.mem_singleton]

theorem nodup_intern (h : tab.Nodup) : (intern tab a).Nodup := by
  unfold intern
  split_ifs with ha
  · exact h
  · exact List.nodup_append.mpr ⟨h, List.nodup_singleton a, by
      rintro x hx y hy rfl
      exact ha (List.mem_singleton.mp hy ▸ hx)⟩

theorem internAll_concat : internAll (l ++ [a]) = intern (internAll l) a :=
  List.foldl_concat _ _ _ _

theorem mem_internAll : a ∈ internAll l ↔ a ∈ l := by
  induction l using List.reverseRecOn with
  | nil => rfl
  | append_singleton l b ih =>
    rw [internAll_concat, mem_intern, ih, List.mem_append, List.mem_singleton]

theorem nodup_internAll : (internAll l).Nodup := by
  induction l using List.reverseRecOn with
  | nil => exact List.nodup_nil
  | append_singleton l b ih =>
    rw [internAll_concat]
    exact nodup_intern ih

theorem prefix_internAll : internAll l <+: internAll (l ++ l') := by
  induction l' using List.reverseRecOn with
  | nil => rw [List.append_nil]
  | append_singleton l' b ih =>
    rw [← List.append_assoc, internAll_concat]
    exact ih.trans prefix_intern

/-- **A number stays.** -/
theorem number_append (h : a ∈ l) : number (l ++ l') a = number l a :=
  (List.IsPrefix.idxOf_eq_of_mem prefix_internAll (mem_internAll.mpr h)).symm

/-- **Numbers tell names apart.** -/
theorem number_inj (h : a ∈ l) : number l a = number l b ↔ a = b :=
  List.idxOf_inj (mem_internAll.mpr h)

/-- The first name has the number 0. -/
theorem number_head : number (a :: l) a = 0 := by
  rw [← List.singleton_append, number_append List.mem_cons_self]
  exact List.idxOf_cons_self

theorem getElem?_number (h : a ∈ l) : (internAll l)[number l a]? = some a :=
  List.getElem?_idxOf (mem_internAll.mpr h)

theorem number_of_getElem? {i : ℕ} (h : (internAll l)[i]? = some a) : number l a = i := by
  obtain ⟨hi, rfl⟩ := List.getElem?_eq_some_iff.mp h
  exact List.Nodup.idxOf_getElem nodup_internAll i hi

theorem internAll_of_mem (h : a ∈ l) : internAll (l ++ [a]) = internAll l := by
  rw [internAll_concat, intern, if_pos (mem_internAll.mpr h)]

theorem internAll_of_notMem (h : a ∉ l) : internAll (l ++ [a]) = internAll l ++ [a] := by
  rw [internAll_concat, intern, if_neg (mt mem_internAll.mp h)]

/-- A new name gets the next number. -/
theorem number_of_notMem (h : a ∉ l) : number (l ++ [a]) a = (internAll l).length := by
  rw [number, internAll_of_notMem h, List.idxOf_append_of_notMem (mt mem_internAll.mp h),
    List.idxOf_cons_self, Nat.add_zero]

/-- A search of the table from the front. -/
theorem findIdx?_of_mem (h : a ∈ l) :
    (internAll l).findIdx? (fun b => decide (b = a)) = some (number l a) := by
  rw [List.findIdx?_eq_some_of_exists ⟨a, mem_internAll.mpr h, decide_eq_true rfl⟩]
  rfl

theorem findIdx?_of_notMem (h : a ∉ l) :
    (internAll l).findIdx? (fun b => decide (b = a)) = none := by
  rw [List.findIdx?_eq_none_iff]
  intro b hb
  exact decide_eq_false fun hab => h (hab ▸ mem_internAll.mp hb)

end Interning
