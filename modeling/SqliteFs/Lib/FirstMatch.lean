import Mathlib.Tactic

/-!
Searching a list with a test that accepts too much. The search finds what the
exact test would find unless an entry that only the coarse test accepts comes
first.
-/

namespace SqliteFs.Lib

variable {α : Type*} (coarse exact : α → Bool)

/-- Before the first entry that passes `exact`, or anywhere if there is none,
the list has one that passes `coarse`. -/
def Hidden : List α → Prop
  | [] => False
  | a :: l => exact a = false ∧ (coarse a = true ∨ Hidden l)

instance decidableHidden : (l : List α) → Decidable (Hidden coarse exact l)
  | [] => inferInstanceAs (Decidable False)
  | a :: l =>
    have : Decidable (Hidden coarse exact l) := decidableHidden l
    inferInstanceAs (Decidable (exact a = false ∧ (coarse a = true ∨ Hidden coarse exact l)))

variable {coarse exact}

theorem find?_coarse_iff (himp : ∀ a, exact a = true → coarse a = true) (l : List α) :
    l.find? coarse = l.find? exact ↔ ¬Hidden coarse exact l := by
  induction l with
  | nil => simp [Hidden]
  | cons a l ih =>
      cases hexact : exact a with
      | true => simp [Hidden, hexact, himp a hexact]
      | false =>
          cases hcoarse : coarse a with
          | true =>
              have hne : some a ≠ l.find? exact := by
                intro hfind
                have ha := List.find?_some hfind.symm
                rw [hexact] at ha
                cases ha
              simp [Hidden, hexact, hcoarse, hne]
          | false => simp [Hidden, hexact, hcoarse, ih]

end SqliteFs.Lib
