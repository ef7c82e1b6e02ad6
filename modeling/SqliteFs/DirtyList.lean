import SqliteFs.PagerState
import SqliteFs.Lib.Buckets

/-!
The sort that puts the dirty pages into the order in which they are written
(pcache.c). A list is its page numbers from the pointer on; a null pointer is
the empty list. Merging reads a page of either list first, so it must not be
given a null pointer, and the code relies on the number of pages for that.
-/

namespace SqliteFs

open Lib

def N_SORT_BUCKET : Nat := 32

/-- The loop of `pcacheMergeDirtyList`, with `a` and `b` the pages that `pA` and
`pB` point to. -/
def mergeDirtyLoop (a : Int) (pA : List Int) (b : Int) (pB : List Int) : List Int :=
  if a < b then
    match pA with
    | [] => a :: b :: pB
    | a' :: pA => a :: mergeDirtyLoop a' pA b pB
  else
    match pB with
    | [] => b :: a :: pA
    | b' :: pB => b :: mergeDirtyLoop a pA b' pB
termination_by pA.length + pB.length

def pcacheMergeDirtyList : List Int → List Int → Option (List Int)
  | a :: pA, b :: pB => some (mergeDirtyLoop a pA b pB)
  | _, _ => none

def pcacheSortDirtyList (pIn : List Int) : Option (List Int) :=
  Buckets.sort pcacheMergeDirtyList N_SORT_BUCKET pIn

theorem mergeDirtyLoop_perm (a : Int) (pA : List Int) (b : Int) (pB : List Int) :
    (mergeDirtyLoop a pA b pB).Perm (a :: pA ++ b :: pB) := by
  induction a, pA, b, pB using mergeDirtyLoop.induct with
  | case1 a b pB hlt =>
      rw [mergeDirtyLoop.eq_def, if_pos hlt]
      exact List.Perm.refl _
  | case2 a b pB hlt a' pA ih =>
      rw [mergeDirtyLoop.eq_def, if_pos hlt]
      exact ih.cons a
  | case3 a pA b hle =>
      rw [mergeDirtyLoop.eq_def, if_neg hle]
      exact (List.perm_append_singleton b (a :: pA)).symm
  | case4 a pA b hle b' pB ih =>
      rw [mergeDirtyLoop.eq_def, if_neg hle]
      exact (ih.cons b).trans List.perm_middle.symm

/-- The first page of the result is the smaller one, so the result ascends. -/
theorem mergeDirtyLoop_sorted (a : Int) (pA : List Int) (b : Int) (pB : List Int)
    (ha : (a :: pA).Pairwise (· ≤ ·)) (hb : (b :: pB).Pairwise (· ≤ ·)) :
    (mergeDirtyLoop a pA b pB).Pairwise (· ≤ ·) := by
  have hleast : ∀ {x : Int} {l : List Int} {y : Int} {m : List Int}, (x :: l).Pairwise (· ≤ ·) →
      (y :: m).Pairwise (· ≤ ·) → x ≤ y → ∀ z ∈ l ++ y :: m, x ≤ z := by
    intro x l y m hl hm hxy z hz
    rcases List.mem_append.mp hz with hz | hz
    · exact List.rel_of_pairwise_cons hl hz
    · rcases List.mem_cons.mp hz with rfl | hz
      · exact hxy
      · exact hxy.trans (List.rel_of_pairwise_cons hm hz)
  induction a, pA, b, pB using mergeDirtyLoop.induct with
  | case1 a b pB hlt =>
      rw [mergeDirtyLoop.eq_def, if_pos hlt]
      exact List.pairwise_cons.mpr ⟨hleast ha hb hlt.le, hb⟩
  | case2 a b pB hlt a' pA ih =>
      rw [mergeDirtyLoop.eq_def, if_pos hlt]
      refine List.pairwise_cons.mpr ⟨?_, ih ha.of_cons hb⟩
      exact fun z hz => hleast ha hb hlt.le z ((mergeDirtyLoop_perm a' pA b pB).mem_iff.mp hz)
  | case3 a pA b hle =>
      rw [mergeDirtyLoop.eq_def, if_neg hle]
      exact List.pairwise_cons.mpr ⟨hleast hb ha (not_lt.mp hle), ha⟩
  | case4 a pA b hle b' pB ih =>
      rw [mergeDirtyLoop.eq_def, if_neg hle]
      refine List.pairwise_cons.mpr ⟨?_, ih ha hb.of_cons⟩
      intro z hz
      apply hleast hb ha (not_lt.mp hle)
      exact (List.perm_append_comm.mem_iff).mp ((mergeDirtyLoop_perm a pA b' pB).mem_iff.mp hz)

theorem pcacheMergeDirtyList_merges :
    Buckets.Merges pcacheMergeDirtyList (List.Pairwise (· ≤ ·)) := by
  intro pA pB hneA hneB hA hB
  obtain ⟨a, pA, rfl⟩ := List.exists_cons_of_ne_nil hneA
  obtain ⟨b, pB, rfl⟩ := List.exists_cons_of_ne_nil hneB
  exact ⟨_, rfl, mergeDirtyLoop_sorted a pA b pB hA hB, mergeDirtyLoop_perm a pA b pB⟩

/-- Fewer than `2 ^ 31` dirty pages never reach the last bucket: no null pointer
is merged, and the pages come out in ascending order, as the pager writes them. -/
theorem pcacheSortDirtyList_eq {c : PCache} (hlen : c.pDirty.length < 2 ^ (N_SORT_BUCKET - 1)) :
    pcacheSortDirtyList c.pDirty = some c.sqlite3PcacheDirtyList := by
  obtain ⟨q, hsort, hq, hperm⟩ := Buckets.sort_perm pcacheMergeDirtyList_merges
    (fun x => List.pairwise_singleton (· ≤ ·) x) (by decide) hlen
  have hsorted : q.Pairwise (· ≤ ·) := by
    rcases hq with rfl | hq
    · exact List.Pairwise.nil
    · exact hq
  have hmerge : (c.pDirty.mergeSort (· ≤ ·)).Pairwise (· ≤ ·) := by
    have hpairwise : (c.pDirty.mergeSort (· ≤ ·)).Pairwise fun a b => decide (a ≤ b) = true :=
      List.pairwise_mergeSort (fun a b d => by simpa using le_trans)
        (fun a b => by simpa using le_total a b) c.pDirty
    simpa using hpairwise
  rw [pcacheSortDirtyList, hsort, PCache.sqlite3PcacheDirtyList]
  congr 1
  apply List.Perm.eq_of_pairwise (fun a b _ _ => le_antisymm) hsorted hmerge
  exact hperm.trans (List.mergeSort_perm _ _).symm

theorem pcacheSortDirtyList_eq_three :
    pcacheSortDirtyList [7, 2, 5] =
      some (PCache.sqlite3PcacheDirtyList ⟨fun _ => none, [7, 2, 5]⟩) :=
  pcacheSortDirtyList_eq (c := ⟨fun _ => none, [7, 2, 5]⟩) (by decide)

end SqliteFs
