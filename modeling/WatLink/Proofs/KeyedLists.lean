import Mathlib

/-!
# Lists of entries under keys

Files and measured sizes are kept in lists of entries, in which the first entry
under a key counts.  An entry is put in front after those with its key are taken
out.
-/

namespace WatLink

variable {κ ν : Type} [BEq κ] [LawfulBEq κ]

theorem lookup_erase_ne {key other : κ} (differs : other ≠ key) (entries : List (κ × ν)) :
    (entries.filter fun entry => entry.1 != key).lookup other = entries.lookup other := by
  induction entries with
  | nil => rfl
  | cons entry rest ih =>
      by_cases isEntry : entry.1 = key
      · have notOther : (other == entry.1) = false := by simp [isEntry, differs]
        rw [List.filter_cons_of_neg (by simp [isEntry]), ih, List.lookup_cons, notOther]
      · rw [List.filter_cons_of_pos (by simp [isEntry]), List.lookup_cons, List.lookup_cons, ih]

theorem lookup_put [DecidableEq κ] (key other : κ) (value : ν) (entries : List (κ × ν)) :
    ((key, value) :: entries.filter fun entry => entry.1 != key).lookup other =
      if other = key then some value else entries.lookup other := by
  by_cases same : other = key
  · simp [same]
  · rw [if_neg same, List.lookup_cons, beq_false_of_ne same]
    exact lookup_erase_ne same entries

end WatLink
