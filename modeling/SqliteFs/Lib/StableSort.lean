import Mathlib.Data.List.Sort
import Mathlib.Tactic

/-!
Stable sorting by a relation that is total and transitive but may leave ties.
`List.insertionSort` is the reference: merging two sorted halves gives what it
gives on both together, inserting one element after another into a sorted
sequence gives what it gives on the reversed elements in front of it, and it
keeps the order among elements that tie.
-/

namespace SqliteFs.Lib

variable {α : Type*} {r : α → α → Prop} [DecidableRel r]

section

variable [Std.Total r] [IsTrans α r]

/-- An element inserted into the first of two sequences to be merged stands
before all those of the second that it ties with. -/
theorem merge_orderedInsert (a : α) (l m : List α) :
    (l.orderedInsert r a).merge m (fun x y => r x y) =
      (l.merge m fun x y => r x y).orderedInsert r a := by
  induction m generalizing l with
  | nil => rw [List.merge_right, List.merge_right]
  | cons c m ihm =>
      induction l with
      | nil =>
          rw [List.orderedInsert_nil, List.nil_merge, List.orderedInsert_cons,
            List.cons_merge_cons, List.nil_merge]
          have hrest := ihm []
          rw [List.orderedInsert_nil, List.nil_merge] at hrest
          by_cases hac : r a c
          · simp [hac]
          · simp [hac, hrest]
      | cons b l ihl =>
          rw [List.orderedInsert_cons]
          by_cases hab : r a b
          · rw [if_pos hab, List.cons_merge_cons, List.cons_merge_cons]
            by_cases hbc : r b c
            · simp [hab, hbc, trans_of r hab hbc]
            · have hrest := ihm (b :: l)
              rw [List.orderedInsert_cons, if_pos hab] at hrest
              by_cases hac : r a c
              · simp [hbc, hac]
              · simp [hbc, hac, hrest]
          · rw [if_neg hab, List.cons_merge_cons, List.cons_merge_cons]
            by_cases hbc : r b c
            · simp [hab, hbc, ihl]
            · -- `c` comes before `b`, and so before `a`
              have hcb : r c b := (total_of r b c).resolve_left hbc
              have hac : ¬r a c := fun hac => hab (trans_of r hac hcb)
              have hrest := ihm (b :: l)
              rw [List.orderedInsert_cons, if_neg hab] at hrest
              simp [hbc, hac, hrest]

theorem merge_insertionSort (l m : List α) :
    (l.insertionSort r).merge (m.insertionSort r) (fun x y => r x y) =
      (l ++ m).insertionSort r := by
  induction l with
  | nil => rw [List.insertionSort_nil, List.nil_merge, List.nil_append]
  | cons a l ih =>
      rw [List.insertionSort_cons, merge_orderedInsert, ih, List.cons_append,
        List.insertionSort_cons]

end

/-- The place of an element is behind those that it does not stand in front of. -/
theorem orderedInsert_append {a : α} {l m : List α} (hl : ∀ b ∈ l, ¬r a b)
    (hm : ∀ b ∈ m.head?, r a b) : (l ++ m).orderedInsert r a = l ++ a :: m := by
  induction l with
  | nil =>
      cases m with
      | nil => rfl
      | cons c m =>
          have hac : r a c := hm c rfl
          rw [List.nil_append, List.nil_append, List.orderedInsert_cons, if_pos hac]
  | cons b l ih =>
      rw [List.cons_append, List.orderedInsert_cons, if_neg (hl b List.mem_cons_self),
        ih (fun c hc => hl c (List.mem_cons_of_mem b hc)), List.cons_append]

/-- Elements inserted one after another into a sorted sequence. -/
theorem foldl_orderedInsert {l : List α} (hl : l.Pairwise r) (xs : List α) :
    xs.foldl (fun l x => l.orderedInsert r x) l = (xs.reverse ++ l).insertionSort r := by
  rw [List.foldl_eq_foldr_reverse, List.insertionSort, List.foldr_append]
  exact congrArg (fun m => List.foldr (List.orderedInsert r) m xs.reverse)
    hl.insertionSort_eq.symm

theorem filter_orderedInsert {p : α → Bool} (hp : ∀ a b, p a → p b → r a b) (a : α)
    (l : List α) : (l.orderedInsert r a).filter p = (a :: l).filter p := by
  induction l with
  | nil => rfl
  | cons b l ih =>
      rw [List.orderedInsert_cons]
      by_cases hab : r a b
      · rw [if_pos hab]
      · rw [if_neg hab, List.filter_cons, ih, List.filter_cons, List.filter_cons,
          List.filter_cons]
        by_cases ha : p a
        · have hb : ¬p b := fun hb => hab (hp a b ha hb)
          simp [ha, hb]
        · simp [ha]

/-- Stability: elements that all tie stay in order. -/
theorem filter_insertionSort {p : α → Bool} (hp : ∀ a b, p a → p b → r a b) (l : List α) :
    (l.insertionSort r).filter p = l.filter p := by
  induction l with
  | nil => rfl
  | cons a l ih =>
      rw [List.insertionSort_cons, filter_orderedInsert hp, List.filter_cons, List.filter_cons, ih]

end SqliteFs.Lib
