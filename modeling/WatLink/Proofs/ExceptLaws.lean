import Mathlib

/-!
# Results with errors

When computations that may fail, one behind the other or with their results changed,
give a value or an error.
-/

namespace WatLink

theorem exceptBind_eq_ok_iff {ε α β : Type} {first : Except ε α} {next : α → Except ε β}
    {result : β} :
    (first >>= next) = .ok result ↔ ∃ value, first = .ok value ∧ next value = .ok result := by
  cases first <;> simp [bind, Except.bind]

theorem exceptBind_eq_error_iff {ε α β : Type} {first : Except ε α} {next : α → Except ε β}
    {fault : ε} :
    (first >>= next) = .error fault ↔
      first = .error fault ∨ ∃ value, first = .ok value ∧ next value = .error fault := by
  cases first <;> simp [bind, Except.bind]

theorem exceptMap_eq_error_iff {ε α β : Type} {result : Except ε α} {change : α → β} {fault : ε} :
    result.map change = .error fault ↔ result = .error fault := by
  cases result <;> simp [Except.map]

theorem exceptMap_eq_ok_iff {ε α β : Type} {result : Except ε α} {change : α → β} {value : β} :
    result.map change = .ok value ↔ ∃ value', result = .ok value' ∧ change value' = value := by
  cases result <;> simp [Except.map]

theorem mapError_eq_error_iff {ε ε' α : Type} {result : Except ε α} {change : ε → ε'}
    {fault : ε'} :
    result.mapError change = .error fault ↔
      ∃ fault', result = .error fault' ∧ change fault' = fault := by
  cases result <;> simp [Except.mapError]

theorem mapError_eq_ok_iff {ε ε' α : Type} {result : Except ε α} {change : ε → ε'} {value : α} :
    result.mapError change = .ok value ↔ result = .ok value := by
  cases result <;> simp [Except.mapError]

end WatLink
