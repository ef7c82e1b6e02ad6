import SqliteFs.DListLaws
import SqliteFs.SListLaws
import SqliteFs.Lib.StableSort

/-!
The merge sorts. `n_dlist_sort_real` and `n_slist_sort_real` are the same text
but for the merge they call, and are written once with the merge as a parameter.
Each half is cut off behind its last node, and in a doubly-linked list the first
node of the second half keeps its pointer into the first; the merge sets every
pointer back, and the halves are therefore described without one in front.
-/

namespace SqliteFs

open Lib Lib.Mem Lib.ListNode

section

variable {κ δ : Type} [ListNode κ δ]

/-- `l2` goes two nodes on for each that `l1` goes, and `l1` ends at the last
node of the first half. -/
def splitLoop : Nat → Ptr → Ptr → Mem κ Ptr
  | 0, _, _ => failure
  | fuel + 1, l1, l2 => do
    let l2 := next (← load l2)
    if l2 = none then return l1
    else
      let l2 := next (← load l2)
      if l2 = none then return l1
      else
        let l1 := next (← load l1)
        splitLoop fuel l1 l2

/-- The merge loop run behind a node that is a local variable of the function: a
block of its own, like any other, until the function returns. -/
def sortMerge (al : Allocator κ) (mergeLoop : Nat → Ptr → Mem κ Unit) : Mem κ Ptr := do
  let list ← malloc al
  let fuel ← blocks
  mergeLoop fuel list
  let first := next (← load list)
  free list
  return first

def sortReal (merge : Ptr → Ptr → Mem κ Ptr) : Nat → Ptr → Mem κ Ptr
  | 0, _ => failure
  | fuel + 1, list =>
    if list = none then return none
    else do
      let second := next (← load list)
      if second = none then return list
      else
        let steps ← blocks
        let l1 ← splitLoop steps list second
        let l2 := next (← load l1)
        store l1 (setNext none)
        -- two arguments of one call; the lists have no node in common, so that
        -- it does not matter which is sorted first
        let l1 ← sortReal merge fuel list
        let l2 ← sortReal merge fuel l2
        merge l1 l2

end

section

variable {δ : Type} (al : Allocator (NDlist δ)) (compareFunc : δ → δ → δ → Int32) (userData : δ)

/-- The loop of the merge, and what follows it once a list is used up. -/
def nDlistMergeLoop : Nat → Ptr → Ptr → Ptr → Ptr → Mem (NDlist δ) Unit
  | 0, _, _, _, _ => failure
  | fuel + 1, l, lprev, l1, l2 =>
    if l1 ≠ none ∧ l2 ≠ none then do
      let node1 ← load l1
      let node2 ← load l2
      if compareFunc node1.data node2.data userData ≤ 0 then
        store l fun node => { node with next := l1 }
        let rest := (← load l1).next
        store l1 fun node => { node with prev := lprev }
        nDlistMergeLoop fuel l1 l1 rest l2
      else
        store l fun node => { node with next := l2 }
        let rest := (← load l2).next
        store l2 fun node => { node with prev := lprev }
        nDlistMergeLoop fuel l2 l2 l1 rest
    else do
      let rest := if l1 ≠ none then l1 else l2
      store l fun node => { node with next := rest }
      store rest fun node => { node with prev := l }

def nDlistSortMerge (l1 l2 : Ptr) : Mem (NDlist δ) Ptr :=
  sortMerge al fun fuel list => nDlistMergeLoop compareFunc userData fuel list none l1 l2

def nDlistSortReal (list : Ptr) : Mem (NDlist δ) Ptr := do
  let fuel ← blocks
  sortReal (nDlistSortMerge al compareFunc userData) fuel list

/-- The comparison is called with three arguments and takes the first two. -/
def nDlistSort [Zero δ] (list : Ptr) (compareFunc : δ → δ → Int32) : Mem (NDlist δ) Ptr :=
  nDlistSortReal al (fun a b _ => compareFunc a b) 0 list

def nDlistSortWithData (list : Ptr) (compareFunc : δ → δ → δ → Int32) (userData : δ) :
    Mem (NDlist δ) Ptr :=
  nDlistSortReal al compareFunc userData list

end

section

variable {δ : Type} (al : Allocator (NSlist δ)) (compareFunc : δ → δ → δ → Int32) (userData : δ)

def nSlistMergeLoop : Nat → Ptr → Ptr → Ptr → Mem (NSlist δ) Unit
  | 0, _, _, _ => failure
  | fuel + 1, l, l1, l2 =>
    if l1 ≠ none ∧ l2 ≠ none then do
      let node1 ← load l1
      let node2 ← load l2
      if compareFunc node1.data node2.data userData ≤ 0 then
        store l fun node => { node with next := l1 }
        let rest := (← load l1).next
        nSlistMergeLoop fuel l1 rest l2
      else
        store l fun node => { node with next := l2 }
        let rest := (← load l2).next
        nSlistMergeLoop fuel l2 l1 rest
    else store l fun node => { node with next := if l1 ≠ none then l1 else l2 }

def nSlistSortMerge (l1 l2 : Ptr) : Mem (NSlist δ) Ptr :=
  sortMerge al fun fuel list => nSlistMergeLoop compareFunc userData fuel list l1 l2

def nSlistSortReal (list : Ptr) : Mem (NSlist δ) Ptr := do
  let fuel ← blocks
  sortReal (nSlistSortMerge al compareFunc userData) fuel list

def nSlistSort [Zero δ] (list : Ptr) (compareFunc : δ → δ → Int32) : Mem (NSlist δ) Ptr :=
  nSlistSortReal al (fun a b _ => compareFunc a b) 0 list

def nSlistSortWithData (list : Ptr) (compareFunc : δ → δ → δ → Int32) (userData : δ) :
    Mem (NSlist δ) Ptr :=
  nSlistSortReal al compareFunc userData list

end

/-- A comparison that orders any two elements, with ties. -/
structure TotalPreorder {δ : Type} (cmp : δ → δ → Int32) : Prop where
  total : ∀ a b, cmp a b ≤ 0 ∨ cmp b a ≤ 0
  trans : ∀ a b c, cmp a b ≤ 0 → cmp b c ≤ 0 → cmp a c ≤ 0

/-- The first of two nodes may stand in front of the second. -/
def InOrder {δ : Type} (cmp : δ → δ → Int32) (y z : Nat × δ) : Prop := cmp y.2 z.2 ≤ 0

instance {δ : Type} (cmp : δ → δ → Int32) : DecidableRel (InOrder cmp) :=
  fun y z => inferInstanceAs (Decidable (cmp y.2 z.2 ≤ 0))

/-- The merge of two sequences of nodes; of two that tie the first is taken. -/
def mergeNodes {δ : Type} (cmp : δ → δ → Int32) (m1 m2 : List (Nat × δ)) : List (Nat × δ) :=
  m1.merge m2 fun y z => InOrder cmp y z

section

variable {δ : Type} {cmp : δ → δ → Int32}

theorem mergeNodes_of_le {d f : δ} (a b : Nat) (r1 r2 : List (Nat × δ)) (hle : cmp d f ≤ 0) :
    mergeNodes cmp ((a, d) :: r1) ((b, f) :: r2) =
      (a, d) :: mergeNodes cmp r1 ((b, f) :: r2) :=
  List.cons_merge_cons_pos _ _ _ (decide_eq_true hle)

theorem mergeNodes_of_gt {d f : δ} (a b : Nat) (r1 r2 : List (Nat × δ)) (hgt : ¬cmp d f ≤ 0) :
    mergeNodes cmp ((a, d) :: r1) ((b, f) :: r2) =
      (b, f) :: mergeNodes cmp ((a, d) :: r1) r2 :=
  List.cons_merge_cons_neg _ _ _ (fun hle => hgt (of_decide_eq_true hle))

theorem TotalPreorder.total_inOrder (hcmp : TotalPreorder cmp) : Std.Total (InOrder cmp) :=
  ⟨fun y z => hcmp.total y.2 z.2⟩

theorem TotalPreorder.trans_inOrder (hcmp : TotalPreorder cmp) : IsTrans _ (InOrder cmp) :=
  ⟨fun y z w => hcmp.trans y.2 z.2 w.2⟩

end

/-- The merge of two lists that are not empty, of which it does not matter what
stands in front: nothing points there from the merged list. -/
def Merges {κ δ : Type} [ListNode κ δ] (cmp : δ → δ → Int32) (merge : Ptr → Ptr → Mem κ Ptr) :
    Prop :=
  ∀ ⦃h : Heap κ⦄ ⦃p1 p2 : Ptr⦄ ⦃m1 m2 : List (Nat × δ)⦄, Seg h p1 m1 none → Seg h p2 m2 none →
    (addrs (m1 ++ m2)).Nodup → m1 ≠ [] → m2 ≠ [] →
    ∃ h', (merge (firstPtr m1 none) (firstPtr m2 none)).run h =
        some (firstPtr (mergeNodes cmp m1 m2) none, h') ∧
      Seg h' none (mergeNodes cmp m1 m2) none ∧
      Exchanges h (addrs (m1 ++ m2)) h' (addrs (m1 ++ m2))

section

variable {κ δ : Type} [ListNode κ δ] {h h₁ h' : Heap κ} {e a : Nat} {c : κ} {d : δ} {p q : Ptr}
  {l m m1 m2 : List (Nat × δ)} {S : List Nat} {cmp : δ → δ → Int32}

/-- What is merged behind `a` is merged behind `e`, with `a` in front. -/
theorem merged_behind (hnot : e ∉ a :: S) (he : h₁.lookup e = some c)
    (hstep : Exchanges h (e :: a :: S) h₁ (e :: a :: S))
    (hlast : h'.lookup a = some (node d (firstPtr m none) q)) (hseg : Seg h' (some a) m none)
    (hex : Exchanges h₁ (a :: S) h' (a :: S)) :
    h'.lookup e = some c ∧ Seg h' q ((a, d) :: m) none ∧
      Exchanges h (e :: a :: S) h' (e :: a :: S) := by
  refine ⟨hex.lookup_eq hnot he, ⟨hlast, hseg⟩, hstep.trans ((hex.weaken [e]).congr ?_ ?_)⟩
  · exact fun b => (List.perm_append_singleton e _).mem_iff
  · exact fun b => (List.perm_append_singleton e _).mem_iff

/-- Two lists are merged behind the local node, whose block is gone at the end. -/
theorem sortMerge_run {al : Allocator κ} {mergeLoop : Nat → Ptr → Mem κ Unit} {p1 p2 : Ptr}
    (h1 : Seg h p1 m1 none) (h2 : Seg h p2 m2 none) (hnodup : (addrs (m1 ++ m2)).Nodup)
    (hloop : ∀ ⦃h : Heap κ⦄ ⦃e : Nat⦄ ⦃c : κ⦄ ⦃fuel : Nat⦄, h.lookup e = some c →
      Seg h p1 m1 none → Seg h p2 m2 none → (e :: addrs (m1 ++ m2)).Nodup →
      (m1 ++ m2).length < fuel →
      ∃ h' c', (mergeLoop fuel (some e)).run h = some ((), h') ∧ h'.lookup e = some c' ∧
        next c' = firstPtr (mergeNodes cmp m1 m2) none ∧
        Seg h' none (mergeNodes cmp m1 m2) none ∧
        Exchanges h (e :: addrs (m1 ++ m2)) h' (e :: addrs (m1 ++ m2))) :
    ∃ h', (sortMerge al mergeLoop).run h = some (firstPtr (mergeNodes cmp m1 m2) none, h') ∧
      Seg h' none (mergeNodes cmp m1 m2) none ∧
      Exchanges h (addrs (m1 ++ m2)) h' (addrs (m1 ++ m2)) := by
  have hdead := al.lookup_place h
  have hnot1 := h1.not_mem_of_dead hdead
  have hnot2 := h2.not_mem_of_dead hdead
  have hnot : al.place h ∉ addrs (m1 ++ m2) := by
    rw [addrs_append, List.mem_append, not_or]
    exact ⟨hnot1, hnot2⟩
  have h1' := h1.insert hnot1 (al.junk h)
  have h2' := h2.insert hnot2 (al.junk h)
  obtain ⟨h', c', hrun, hlast, hfirst, hseg, hex⟩ := hloop (Finmap.lookup_insert h) h1' h2'
    (List.nodup_cons.mpr ⟨hnot, hnodup⟩) (Nat.lt_succ_of_le (length_append_le h1' h2' hnodup))
  have hmnot : al.place h ∉ addrs (mergeNodes cmp m1 m2) := by
    intro hmem
    apply hnot
    rw [addrs, List.mem_map] at hmem ⊢
    obtain ⟨y, hy, hya⟩ := hmem
    exact ⟨y, List.mem_append.mpr (List.mem_merge.mp hy), hya⟩
  refine ⟨h'.erase (al.place h), ?_, hseg.erase hmnot, ?_⟩
  · rw [sortMerge, run_bind (malloc_run al h), run_bind (blocks_run _), run_bind hrun,
      run_bind (load_run hlast), run_bind (free_run (Finmap.mem_of_lookup_eq_some hlast)), hfirst]
    rfl
  · exact ((Exchanges.alloc hdead _).trans hex).trans (Exchanges.erase hnot)

theorem splitLoop_run {fuel : Nat} {rest : List (Nat × δ)} (hfront : Seg h p l none)
    (hrest : Seg h q ((a, d) :: rest) none) (hlength : rest.length / 2 ≤ l.length)
    (hfuel : rest.length < fuel) :
    (splitLoop fuel (firstPtr l none) (some a)).run h =
      some (firstPtr (l.drop (rest.length / 2)) none, h) := by
  induction fuel generalizing p q a d l rest with
  | zero => cases hfuel
  | succ fuel ih =>
      rw [splitLoop, run_bind (load_run hrest.1), next_node]
      rcases rest with _ | ⟨⟨b, e⟩, _ | ⟨⟨a', d'⟩, rest⟩⟩
      · simp
      · rw [firstPtr_cons, if_neg (Option.some_ne_none b), run_bind (load_run hrest.2.1),
          next_node]
        simp
      · have hhalf : ((b, e) :: (a', d') :: rest).length / 2 = rest.length / 2 + 1 := by
          rw [List.length_cons, List.length_cons]
          omega
        rw [hhalf] at hlength ⊢
        rcases l with _ | ⟨⟨z, f⟩, l⟩
        · cases hlength
        · rw [firstPtr_cons, if_neg (Option.some_ne_none b), run_bind (load_run hrest.2.1),
            next_node, firstPtr_cons, if_neg (Option.some_ne_none a'), firstPtr_cons,
            run_bind (load_run hfront.1), next_node, List.drop_succ_cons]
          exact ih hfront.2 hrest.2.2 (Nat.le_of_succ_le_succ hlength)
            (Nat.lt_of_succ_lt_succ (Nat.lt_of_succ_lt hfuel))

/-- A list of two nodes or more is cut behind a node that is not the last. -/
theorem splitLoop_halves {x y : Nat} {e : δ} {rest : List (Nat × δ)}
    (hseg : Seg h p ((x, d) :: (y, e) :: rest) none)
    (hnodup : (addrs ((x, d) :: (y, e) :: rest)).Nodup) :
    ∃ front b f back, (x, d) :: (y, e) :: rest = front ++ (b, f) :: back ∧ back ≠ [] ∧
      (splitLoop (h.keys.card + 1) (some x) (some y)).run h = some (some b, h) := by
  have hlength := hseg.length_le hnodup
  rw [List.length_cons, List.length_cons] at hlength
  have hwalk := splitLoop_run hseg hseg.2
    (by rw [List.length_cons, List.length_cons]; omega) (by omega : rest.length < h.keys.card + 1)
  have htotal : ((x, d) :: (y, e) :: rest).length = rest.length + 2 := rfl
  rw [firstPtr_cons] at hwalk
  generalize (x, d) :: (y, e) :: rest = l at hwalk htotal ⊢
  obtain ⟨⟨b, f⟩, back, hdrop⟩ := List.exists_cons_of_ne_nil
    (List.drop_eq_nil_iff.not.mpr (not_le.mpr (by omega : rest.length / 2 < l.length)))
  rw [hdrop, firstPtr_cons] at hwalk
  refine ⟨l.take (rest.length / 2), b, f, back, ?_, ?_, hwalk⟩
  · rw [← hdrop, List.take_append_drop]
  · rintro rfl
    have hone := congrArg List.length hdrop
    rw [List.length_drop, List.length_singleton] at hone
    omega

/-- The list cut behind the node `a`; the second part keeps what stood in front. -/
theorem cut_behind {b : Nat} {f : δ} (hseg : Seg h p (l ++ (b, f) :: m) none)
    (hnodup : (addrs (l ++ (b, f) :: m)).Nodup) :
    ∃ c, h.lookup b = some c ∧ next c = firstPtr m none ∧
      Seg (h.insert b (setNext none c)) p (l ++ [(b, f)]) none ∧
      Seg (h.insert b (setNext none c)) (some b) m none ∧
      Exchanges h (addrs (l ++ (b, f) :: m)) (h.insert b (setNext none c))
        (addrs (l ++ (b, f) :: m)) := by
  obtain ⟨hl, hb, hm⟩ := seg_append.mp hseg
  have hperm : (addrs (l ++ (b, f) :: m)).Perm (b :: addrs (l ++ m)) := perm_addrs_middle
  have hnot := (List.nodup_cons.mp (hperm.nodup_iff.mp hnodup)).1
  rw [addrs_append, List.mem_append, not_or] at hnot
  refine ⟨_, hb, next_node _ _ _, ?_, hm.insert hnot.2 _, ?_⟩
  · rw [seg_append, setNext_node]
    exact ⟨hl.insert hnot.1 _, Finmap.lookup_insert h, trivial⟩
  · exact Exchanges.insert (hperm.mem_iff.mpr List.mem_cons_self) _

theorem mem_addrs_insertionSort {b : Nat} :
    b ∈ addrs (l.insertionSort (InOrder cmp)) ↔ b ∈ addrs l :=
  ((l.perm_insertionSort (InOrder cmp)).map Prod.fst).mem_iff

/-- Two halves that are sorted one after the other and then merged. -/
theorem merge_sorted {merge : Ptr → Ptr → Mem κ Ptr} (hcmp : TotalPreorder cmp)
    (hmerge : Merges cmp merge) {p1 p2 : Ptr} (h1 : Seg h p1 (m1.insertionSort (InOrder cmp)) none)
    (h2 : Seg h p2 (m2.insertionSort (InOrder cmp)) none) (hnodup : (addrs (m1 ++ m2)).Nodup)
    (hm1 : m1 ≠ []) (hm2 : m2 ≠ []) :
    ∃ h', (merge (firstPtr (m1.insertionSort (InOrder cmp)) none)
        (firstPtr (m2.insertionSort (InOrder cmp)) none)).run h =
        some (firstPtr ((m1 ++ m2).insertionSort (InOrder cmp)) none, h') ∧
      Seg h' none ((m1 ++ m2).insertionSort (InOrder cmp)) none ∧
      Exchanges h (addrs (m1 ++ m2)) h' (addrs (m1 ++ m2)) := by
  have htotal := hcmp.total_inOrder
  have htrans := hcmp.trans_inOrder
  have hperm : (m1.insertionSort (InOrder cmp) ++ m2.insertionSort (InOrder cmp)).Perm
      (m1 ++ m2) :=
    (List.perm_insertionSort _ m1).append (List.perm_insertionSort _ m2)
  have haddrs := hperm.map Prod.fst
  have hne : ∀ m : List (Nat × δ), m ≠ [] → m.insertionSort (InOrder cmp) ≠ [] := by
    intro m hm hnil
    exact hm (List.perm_nil.mp (hnil ▸ List.perm_insertionSort (InOrder cmp) m).symm)
  obtain ⟨h', hrun, hseg, hex⟩ := hmerge h1 h2 (haddrs.nodup_iff.mpr hnodup) (hne m1 hm1)
    (hne m2 hm2)
  rw [mergeNodes, merge_insertionSort] at hrun hseg
  exact ⟨h', hrun, hseg, hex.congr (fun _ => haddrs.mem_iff) (fun _ => haddrs.mem_iff)⟩

/-- The sort needs nothing in front of the list, and leaves either what was
there, if there is nothing to sort, or nothing. -/
theorem sortReal_run {merge : Ptr → Ptr → Mem κ Ptr} (hcmp : TotalPreorder cmp)
    (hmerge : Merges cmp merge) {fuel : Nat} (hseg : Seg h p l none) (hnodup : (addrs l).Nodup)
    (hfuel : l.length < fuel) :
    ∃ q h', (sortReal merge fuel (firstPtr l none)).run h =
        some (firstPtr (l.insertionSort (InOrder cmp)) none, h') ∧
      (q = p ∨ q = none) ∧ Seg h' q (l.insertionSort (InOrder cmp)) none ∧
      Exchanges h (addrs l) h' (addrs l) := by
  induction fuel generalizing h p l with
  | zero => cases hfuel
  | succ fuel ih =>
      rcases l with _ | ⟨⟨x, d⟩, _ | ⟨⟨y, e⟩, rest⟩⟩
      · exact ⟨p, h, rfl, Or.inl rfl, trivial, Exchanges.refl h _⟩
      · refine ⟨p, h, ?_, Or.inl rfl, hseg, Exchanges.refl h _⟩
        rw [sortReal, firstPtr_cons, if_neg (Option.some_ne_none x), run_bind (load_run hseg.1)]
        simp
      -- the first half ends at the node `b`
      obtain ⟨front, b, f, back, hsplit, hbackne, hwalk⟩ := splitLoop_halves hseg hnodup
      have hsecond := hseg.1
      have hfirst : firstPtr ((x, d) :: (y, e) :: rest) none = some x := rfl
      generalize (x, d) :: (y, e) :: rest = l at hseg hnodup hfuel hsplit hfirst ⊢
      subst hsplit
      obtain ⟨c, hb, hnext, hfront, hback, hcut⟩ := cut_behind hseg hnodup
      have hhead : firstPtr (front ++ [(b, f)]) none = some x := by
        rw [← hfirst, firstPtr_append, firstPtr_append, firstPtr_cons, firstPtr_cons]
      rw [List.append_cons] at hfirst hnodup hfuel hcut ⊢
      generalize hhalf : front ++ [(b, f)] = half at *
      have hhalfne : half ≠ [] := by simp [← hhalf]
      rw [List.length_append] at hfuel
      have hbackpos := List.length_pos_iff.mpr hbackne
      have hhalfpos := List.length_pos_iff.mpr hhalfne
      rw [addrs_append] at hnodup
      have hdisj := List.disjoint_of_nodup_append hnodup
      obtain ⟨q1, h₂, hrun1, _, hseg1, hex1⟩ := ih hfront hnodup.of_append_left (by omega)
      obtain ⟨q2, h₃, hrun2, _, hseg2, hex2⟩ :=
        ih (hback.exchange hex1 (fun z hz hz' => hdisj hz' hz)) hnodup.of_append_right (by omega)
      have hseg1' := hseg1.exchange hex2
        (fun z hz hz' => hdisj (mem_addrs_insertionSort.mp hz) hz')
      rw [← addrs_append] at hnodup
      obtain ⟨h₄, hrun3, hseg3, hex3⟩ := merge_sorted hcmp hmerge hseg1' hseg2 hnodup hhalfne
        hbackne
      refine ⟨none, h₄, ?_, Or.inr rfl, hseg3, ?_⟩
      · rw [hhead] at hrun1
        rw [hfirst, sortReal, if_neg (Option.some_ne_none x), run_bind (load_run hsecond),
          next_node, firstPtr_cons, if_neg (Option.some_ne_none y), run_bind (blocks_run h),
          run_bind hwalk, run_bind (load_run hb), hnext, run_bind (store_run hb _),
          run_bind hrun1, run_bind hrun2, hrun3]
      · have hex2' := (hex2.weaken (addrs half)).congr
          (fun z => (List.perm_append_comm).mem_iff) (fun z => (List.perm_append_comm).mem_iff)
        rw [addrs_append] at hcut hex3 ⊢
        exact hcut.trans ((hex1.weaken (addrs back)).trans (hex2'.trans hex3))

theorem sortReal_yields {merge : Ptr → Ptr → Mem κ Ptr} {head : Ptr} (hcmp : TotalPreorder cmp)
    (hmerge : Merges cmp merge) (hl : IsList h head l) :
    Yields (do
      let fuel ← blocks
      sortReal merge fuel head) h (addrs l) (l.insertionSort (InOrder cmp)) := by
  obtain ⟨q, h', hrun, hq, hseg, hex⟩ := sortReal_run hcmp hmerge hl.seg hl.nodup
    (Nat.lt_succ_of_le hl.length_le)
  obtain rfl : q = none := or_self_iff.mp hq
  have hnodup := ((List.perm_insertionSort (InOrder cmp) l).map Prod.fst).nodup_iff.mpr hl.nodup
  refine ⟨h', ?_, ⟨rfl, hseg, hnodup⟩, ?_⟩
  · rw [run_bind (blocks_run h), hl.head_eq, hrun]
  · exact hex.congr (fun _ => Iff.rfl) (fun _ => mem_addrs_insertionSort.symm)

end

section

variable {δ : Type} {h h' : Heap (NDlist δ)} {e a : Nat} {c : NDlist δ} {d : δ}
  {n p q p1 p2 : Ptr} {m m1 m2 : List (Nat × δ)} {S : List Nat}

/-- The heap with the node `a` linked behind `e`, and `q` in front of it. -/
def linkedBehind (e a : Nat) (c : NDlist δ) (d : δ) (n q : Ptr) (h : Heap (NDlist δ)) :
    Heap (NDlist δ) :=
  (h.insert e { c with next := some a }).insert a ⟨d, n, q⟩

theorem seg_linkedBehind (hseg : Seg h p m none) (he : e ∉ addrs m) (ha : a ∉ addrs m) :
    Seg (linkedBehind e a c d n q h) p m none :=
  (hseg.insert he _).insert ha _

theorem lookup_linkedBehind (hea : e ≠ a) :
    (linkedBehind e a c d n q h).lookup e = some { c with next := some a } := by
  rw [linkedBehind, Finmap.lookup_insert_of_ne _ hea, Finmap.lookup_insert]

theorem exchanges_linkedBehind :
    Exchanges h (e :: a :: S) (linkedBehind e a c d n q h) (e :: a :: S) :=
  (Exchanges.insert List.mem_cons_self _).trans
    (Exchanges.insert (List.mem_cons_of_mem e List.mem_cons_self) _)

variable (compareFunc : δ → δ → δ → Int32) (userData : δ)

/-- The merge behind `e`: of each node that is taken, `prev` becomes the node
taken before, and of the first one `q`. -/
theorem nDlistMergeLoop_run {fuel : Nat} (he : h.lookup e = some c) (h1 : Seg h p1 m1 none)
    (h2 : Seg h p2 m2 none) (hnodup : (e :: addrs (m1 ++ m2)).Nodup) (hne : m1 ++ m2 ≠ [])
    (hq : q = some e ∨ m1 ≠ [] ∧ m2 ≠ []) (hfuel : (m1 ++ m2).length < fuel) :
    ∃ h', (nDlistMergeLoop compareFunc userData fuel (some e) q (firstPtr m1 none)
        (firstPtr m2 none)).run h = some ((), h') ∧
      h'.lookup e = some { c with
        next := firstPtr (mergeNodes (compareFunc · · userData) m1 m2) none } ∧
      Seg h' q (mergeNodes (compareFunc · · userData) m1 m2) none ∧
      Exchanges h (e :: addrs (m1 ++ m2)) h' (e :: addrs (m1 ++ m2)) := by
  induction fuel generalizing h e c q p1 p2 m1 m2 with
  | zero => cases hfuel
  | succ fuel ih =>
      obtain ⟨hnot, hnodup'⟩ := List.nodup_cons.mp hnodup
      rcases m1 with _ | ⟨⟨a, d⟩, r1⟩
      · rcases m2 with _ | ⟨⟨b, f⟩, r2⟩
        · exact absurd rfl hne
        -- the first list is used up
        obtain rfl := hq.resolve_right (fun hboth => hboth.1 rfl)
        have hb := h2.1
        rw [List.nil_append, addrs_cons] at hnot hnodup' ⊢
        rw [mergeNodes, List.nil_merge]
        obtain ⟨heb, her⟩ := not_or.mp (mt List.mem_cons.mpr hnot)
        have hrest := seg_linkedBehind (a := b) (c := c) (d := f) (n := firstPtr r2 none)
          (q := some e) h2.2 her (List.nodup_cons.mp hnodup').1
        refine ⟨linkedBehind e b c f (firstPtr r2 none) (some e) h, ?_,
          merged_behind hnot (lookup_linkedBehind heb) exchanges_linkedBehind
            (Finmap.lookup_insert _) hrest (Exchanges.refl _ _)⟩
        simp [nDlistMergeLoop, he, hb, Ne.symm heb, linkedBehind, Finmap.lookup_insert_of_ne]
      rcases m2 with _ | ⟨⟨b, f⟩, r2⟩
      · -- the second list is used up
        obtain rfl := hq.resolve_right (fun hboth => hboth.2 rfl)
        have ha := h1.1
        rw [List.append_nil, addrs_cons] at hnot hnodup' ⊢
        rw [mergeNodes, List.merge_right]
        obtain ⟨hea, her⟩ := not_or.mp (mt List.mem_cons.mpr hnot)
        have hrest := seg_linkedBehind (a := a) (c := c) (d := d) (n := firstPtr r1 none)
          (q := some e) h1.2 her (List.nodup_cons.mp hnodup').1
        refine ⟨linkedBehind e a c d (firstPtr r1 none) (some e) h, ?_,
          merged_behind hnot (lookup_linkedBehind hea) exchanges_linkedBehind
            (Finmap.lookup_insert _) hrest (Exchanges.refl _ _)⟩
        simp [nDlistMergeLoop, he, ha, Ne.symm hea, linkedBehind, Finmap.lookup_insert_of_ne]
      have ha := h1.1
      have hb := h2.1
      by_cases hle : compareFunc d f userData ≤ 0
      · have hmerge := @mergeNodes_of_le _ (compareFunc · · userData) d f a b r1 r2 hle
        rw [List.cons_append, addrs_cons] at hnot hnodup' ⊢
        have hanot := (List.nodup_cons.mp hnodup').1
        obtain ⟨hea, her⟩ := not_or.mp (mt List.mem_cons.mpr hnot)
        rw [addrs_append, List.mem_append, not_or] at her hanot
        let h₁ := linkedBehind e a c d (firstPtr r1 none) q h
        have hnew : h₁.lookup a = some ⟨d, firstPtr r1 none, q⟩ := Finmap.lookup_insert _
        have hr1 : Seg h₁ (some a) r1 none := seg_linkedBehind h1.2 her.1 hanot.1
        have hr2 : Seg h₁ p2 ((b, f) :: r2) none := seg_linkedBehind h2 her.2 hanot.2
        obtain ⟨h', hrun, hlast, hseg, hex⟩ := ih hnew hr1 hr2 hnodup' (by simp) (Or.inl rfl)
          (Nat.lt_of_succ_lt_succ hfuel)
        rw [hmerge]
        refine ⟨h', ?_, merged_behind hnot (lookup_linkedBehind hea) exchanges_linkedBehind
          hlast hseg hex⟩
        rw [← hrun, nDlistMergeLoop]
        simp [ha, hb, he, Ne.symm hea, hle, h₁, linkedBehind, Finmap.lookup_insert_of_ne]
      · have hmerge := @mergeNodes_of_gt _ (compareFunc · · userData) d f a b r1 r2 hle
        have hperm : (addrs ((a, d) :: r1 ++ (b, f) :: r2)).Perm
            (b :: addrs ((a, d) :: r1 ++ r2)) := perm_addrs_middle
        have hnodupB := hperm.nodup_iff.mp hnodup'
        have hnotB := mt hperm.mem_iff.mpr hnot
        have hbnot := (List.nodup_cons.mp hnodupB).1
        obtain ⟨heb, her⟩ := not_or.mp (mt List.mem_cons.mpr hnotB)
        rw [addrs_append, List.mem_append, not_or] at her hbnot
        let h₁ := linkedBehind e b c f (firstPtr r2 none) q h
        have hnew : h₁.lookup b = some ⟨f, firstPtr r2 none, q⟩ := Finmap.lookup_insert _
        have hr1 : Seg h₁ p1 ((a, d) :: r1) none := seg_linkedBehind h1 her.1 hbnot.1
        have hr2 : Seg h₁ (some b) r2 none := seg_linkedBehind h2.2 her.2 hbnot.2
        obtain ⟨h', hrun, hlast, hseg, hex⟩ := ih hnew hr1 hr2 hnodupB (by simp) (Or.inl rfl)
          (Nat.lt_of_succ_lt_succ (by simpa [Nat.add_assoc] using hfuel))
        obtain ⟨hbehind, hmerged, hall⟩ := merged_behind hnotB (lookup_linkedBehind heb)
          exchanges_linkedBehind hlast hseg hex
        rw [hmerge]
        refine ⟨h', ?_, hbehind, hmerged, hall.congr (fun x => ?_) (fun x => ?_)⟩
        · rw [← hrun, nDlistMergeLoop]
          simp [ha, hb, he, Ne.symm heb, hle, h₁, linkedBehind, Finmap.lookup_insert_of_ne]
        · exact ((hperm.cons e).mem_iff).symm
        · exact ((hperm.cons e).mem_iff).symm

theorem nDlistSortMerge_merges (al : Allocator (NDlist δ)) :
    Merges (compareFunc · · userData) (nDlistSortMerge al compareFunc userData) := by
  intro h p1 p2 m1 m2 h1 h2 hnodup hm1 hm2
  apply sortMerge_run h1 h2 hnodup
  intro h e c fuel he h1 h2 hnodup hfuel
  obtain ⟨h', hrun, hlast, hseg, hex⟩ := nDlistMergeLoop_run compareFunc userData he h1 h2 hnodup
    (by simp [hm1]) (Or.inr ⟨hm1, hm2⟩) hfuel
  exact ⟨h', _, hrun, hlast, rfl, hseg, hex⟩

end

section

variable {δ : Type} {h h' : Heap (NSlist δ)} {e a : Nat} {c : NSlist δ} {d : δ}
  {p p1 p2 : Ptr} {m m1 m2 : List (Nat × δ)} {S : List Nat}
  (compareFunc : δ → δ → δ → Int32) (userData : δ)

/-- The merge behind `e`. -/
theorem nSlistMergeLoop_run {fuel : Nat} (he : h.lookup e = some c) (h1 : Seg h p1 m1 none)
    (h2 : Seg h p2 m2 none) (hnodup : (e :: addrs (m1 ++ m2)).Nodup)
    (hfuel : (m1 ++ m2).length < fuel) :
    ∃ h', (nSlistMergeLoop compareFunc userData fuel (some e) (firstPtr m1 none)
        (firstPtr m2 none)).run h = some ((), h') ∧
      h'.lookup e = some { c with
        next := firstPtr (mergeNodes (compareFunc · · userData) m1 m2) none } ∧
      Seg h' none (mergeNodes (compareFunc · · userData) m1 m2) none ∧
      Exchanges h (e :: addrs (m1 ++ m2)) h' (e :: addrs (m1 ++ m2)) := by
  induction fuel generalizing h e c p1 p2 m1 m2 with
  | zero => cases hfuel
  | succ fuel ih =>
      obtain ⟨hnot, hnodup'⟩ := List.nodup_cons.mp hnodup
      have hnot12 := hnot
      rw [addrs_append, List.mem_append, not_or] at hnot12
      rcases m1 with _ | ⟨⟨a, d⟩, r1⟩
      · refine ⟨h.insert e { c with next := firstPtr m2 none }, ?_, ?_, ?_,
          Exchanges.insert List.mem_cons_self _⟩
        · simp [nSlistMergeLoop, he]
        · rw [mergeNodes, List.nil_merge, Finmap.lookup_insert]
        · rw [mergeNodes, List.nil_merge]
          exact slist_seg_prev (h2.insert hnot12.2 _) none
      rcases m2 with _ | ⟨⟨b, f⟩, r2⟩
      · refine ⟨h.insert e { c with next := some a }, ?_, ?_, ?_,
          Exchanges.insert List.mem_cons_self _⟩
        · simp [nSlistMergeLoop, he]
        · rw [mergeNodes, List.merge_right, Finmap.lookup_insert, firstPtr_cons]
        · rw [mergeNodes, List.merge_right]
          exact slist_seg_prev (h1.insert hnot12.1 _) none
      have ha := h1.1
      have hb := h2.1
      by_cases hle : compareFunc d f userData ≤ 0
      · have hmerge := @mergeNodes_of_le _ (compareFunc · · userData) d f a b r1 r2 hle
        have hea : e ≠ a := List.ne_of_not_mem_cons hnot12.1
        let h₁ := h.insert e { c with next := some a }
        have hnew : h₁.lookup a = some ⟨d, firstPtr r1 none⟩ :=
          (Finmap.lookup_insert_of_ne h hea.symm).trans ha
        have hr1 : Seg h₁ (some a) r1 none := (h1.insert hnot12.1 _).2
        have hr2 : Seg h₁ p2 ((b, f) :: r2) none := h2.insert hnot12.2 _
        obtain ⟨h', hrun, hlast, hseg, hex⟩ := ih hnew hr1 hr2 hnodup'
          (Nat.lt_of_succ_lt_succ hfuel)
        rw [hmerge]
        refine ⟨h', ?_, merged_behind hnot (Finmap.lookup_insert h)
          (Exchanges.insert List.mem_cons_self _) hlast (slist_seg_prev hseg (some a)) hex⟩
        rw [← hrun, nSlistMergeLoop]
        simp [ha, hb, he, hea.symm, hle, h₁, Finmap.lookup_insert_of_ne]
      · have hmerge := @mergeNodes_of_gt _ (compareFunc · · userData) d f a b r1 r2 hle
        have hperm : (addrs ((a, d) :: r1 ++ (b, f) :: r2)).Perm
            (b :: addrs ((a, d) :: r1 ++ r2)) := perm_addrs_middle
        have heb : e ≠ b := List.ne_of_not_mem_cons hnot12.2
        let h₁ := h.insert e { c with next := some b }
        have hnew : h₁.lookup b = some ⟨f, firstPtr r2 none⟩ :=
          (Finmap.lookup_insert_of_ne h heb.symm).trans hb
        have hr1 : Seg h₁ p1 ((a, d) :: r1) none := h1.insert hnot12.1 _
        have hr2 : Seg h₁ (some b) r2 none := (h2.insert hnot12.2 _).2
        obtain ⟨h', hrun, hlast, hseg, hex⟩ := ih hnew hr1 hr2 (hperm.nodup_iff.mp hnodup')
          (Nat.lt_of_succ_lt_succ (by simpa [Nat.add_assoc] using hfuel))
        obtain ⟨hbehind, hmerged, hall⟩ := merged_behind (mt hperm.mem_iff.mpr hnot)
          (Finmap.lookup_insert h) (Exchanges.insert List.mem_cons_self _) hlast
          (slist_seg_prev hseg (some b)) hex
        rw [hmerge]
        refine ⟨h', ?_, hbehind, hmerged, hall.congr (fun x => ?_) (fun x => ?_)⟩
        · rw [← hrun, nSlistMergeLoop]
          simp [ha, hb, he, heb.symm, hle, h₁, Finmap.lookup_insert_of_ne]
        · exact ((hperm.cons e).mem_iff).symm
        · exact ((hperm.cons e).mem_iff).symm

theorem nSlistSortMerge_merges (al : Allocator (NSlist δ)) :
    Merges (compareFunc · · userData) (nSlistSortMerge al compareFunc userData) := by
  intro h p1 p2 m1 m2 h1 h2 hnodup _ _
  apply sortMerge_run h1 h2 hnodup
  intro h e c fuel he h1 h2 hnodup hfuel
  obtain ⟨h', hrun, hlast, hseg, hex⟩ := nSlistMergeLoop_run compareFunc userData he h1 h2 hnodup
    hfuel
  exact ⟨h', _, hrun, hlast, rfl, hseg, hex⟩

end

section

variable {δ : Type} {list : Ptr} {l : List (Nat × δ)}

theorem nDlistSortReal_yields (al : Allocator (NDlist δ)) {h : Heap (NDlist δ)}
    (hl : IsList h list l) (compareFunc : δ → δ → δ → Int32) (userData : δ)
    (hcmp : TotalPreorder (compareFunc · · userData)) :
    Yields (nDlistSortReal al compareFunc userData list) h (addrs l)
      (l.insertionSort (InOrder (compareFunc · · userData))) :=
  sortReal_yields hcmp (nDlistSortMerge_merges compareFunc userData al) hl

theorem nSlistSortReal_yields (al : Allocator (NSlist δ)) {h : Heap (NSlist δ)}
    (hl : IsList h list l) (compareFunc : δ → δ → δ → Int32) (userData : δ)
    (hcmp : TotalPreorder (compareFunc · · userData)) :
    Yields (nSlistSortReal al compareFunc userData list) h (addrs l)
      (l.insertionSort (InOrder (compareFunc · · userData))) :=
  sortReal_yields hcmp (nSlistSortMerge_merges compareFunc userData al) hl

theorem nDlistSort_yields [Zero δ] (al : Allocator (NDlist δ)) {h : Heap (NDlist δ)}
    (hl : IsList h list l) {cmp : δ → δ → Int32} (hcmp : TotalPreorder cmp) :
    Yields (nDlistSort al list cmp) h (addrs l) (l.insertionSort (InOrder cmp)) :=
  nDlistSortReal_yields al hl (fun a b _ => cmp a b) 0 hcmp

theorem nSlistSort_yields [Zero δ] (al : Allocator (NSlist δ)) {h : Heap (NSlist δ)}
    (hl : IsList h list l) {cmp : δ → δ → Int32} (hcmp : TotalPreorder cmp) :
    Yields (nSlistSort al list cmp) h (addrs l) (l.insertionSort (InOrder cmp)) :=
  nSlistSortReal_yields al hl (fun a b _ => cmp a b) 0 hcmp

end

/-- The nodes `l'` are the nodes `l` in order, and those that compare equal to an
element stand as they stood. -/
structure SortedStably {δ : Type} (cmp : δ → δ → Int32) (l l' : List (Nat × δ)) : Prop where
  same : l'.Perm l
  inOrder : l'.Pairwise (InOrder cmp)
  stable : ∀ x, l'.filter (fun y => cmp x y.2 ≤ 0 ∧ cmp y.2 x ≤ 0) =
    l.filter (fun y => cmp x y.2 ≤ 0 ∧ cmp y.2 x ≤ 0)

/-- The program returns the start of a well-formed list, which has the nodes `l`
sorted stably, and it leaves every other node alone. -/
def SortsStably {δ : Type} (prog : Mem (NDlist δ) Ptr) (h : Heap (NDlist δ))
    (cmp : δ → δ → Int32) (l : List (Nat × δ)) : Prop :=
  ∃ l' h', prog.run h = some (firstPtr l' none, h') ∧ IsList h' (firstPtr l' none) l' ∧
    Linked h' l' ∧ SortedStably cmp l l' ∧ ∀ b, b ∉ addrs l → h'.lookup b = h.lookup b

section

variable {δ : Type} {cmp : δ → δ → Int32} {l : List (Nat × δ)}

theorem sortedStably_insertionSort (hcmp : TotalPreorder cmp) (l : List (Nat × δ)) :
    SortedStably cmp l (l.insertionSort (InOrder cmp)) := by
  have htotal := hcmp.total_inOrder
  have htrans := hcmp.trans_inOrder
  constructor
  case same => exact List.perm_insertionSort _ l
  case inOrder => exact List.pairwise_insertionSort _ l
  case stable =>
    intro x
    apply filter_insertionSort
    intro y z hy hz
    exact hcmp.trans y.2 x z.2 (of_decide_eq_true hy).2 (of_decide_eq_true hz).1

theorem sortsStably_of_yields {prog : Mem (NDlist δ) Ptr} {h : Heap (NDlist δ)}
    (hcmp : TotalPreorder cmp)
    (hprog : Yields prog h (addrs l) (l.insertionSort (InOrder cmp))) :
    SortsStably prog h cmp l := by
  obtain ⟨h', hrun, hlist, hex⟩ := hprog
  refine ⟨_, h', hrun, hlist, IsList.linked hlist, sortedStably_insertionSort hcmp l, ?_⟩
  intro b hb
  exact hex.frame b hb (mt mem_addrs_insertionSort.mp hb)

/-- Both sorts of the doubly-linked list end, are stable, and set every pointer
back to what now stands in front. -/
theorem dlist_sort_stable [Zero δ] (al : Allocator (NDlist δ)) {h : Heap (NDlist δ)} {list : Ptr}
    (hl : IsList h list l) :
    (∀ compareFunc : δ → δ → Int32, TotalPreorder compareFunc →
      SortsStably (nDlistSort al list compareFunc) h compareFunc l) ∧
    ∀ (compareFunc : δ → δ → δ → Int32) (userData : δ),
      TotalPreorder (compareFunc · · userData) →
      SortsStably (nDlistSortWithData al list compareFunc userData) h
        (compareFunc · · userData) l := by
  constructor
  · intro compareFunc hcmp
    exact sortsStably_of_yields hcmp (nDlistSort_yields al hl hcmp)
  · intro compareFunc userData hcmp
    exact sortsStably_of_yields hcmp (nDlistSortReal_yields al hl compareFunc userData hcmp)

end

/-- Numbers by their tens. -/
def compareTens (a b : Nat) : Int32 :=
  if a / 10 < b / 10 then -1 else if a / 10 = b / 10 then 0 else 1

theorem compareTens_le {a b : Nat} : compareTens a b ≤ 0 ↔ a / 10 ≤ b / 10 := by
  rw [compareTens]
  rcases Nat.lt_trichotomy (a / 10) (b / 10) with hlt | heq | hgt
  · simp [hlt, hlt.le]
  · simp [heq]
  · simp [hgt.not_gt, hgt.ne', hgt]

theorem compareTens_preorder : TotalPreorder compareTens := by
  constructor
  · intro a b
    rw [compareTens_le, compareTens_le]
    exact Nat.le_total _ _
  · intro a b c
    rw [compareTens_le, compareTens_le, compareTens_le]
    exact Nat.le_trans

/-- A list of two nodes that tie behind one that is larger. -/
def threeNodes : Heap (NDlist Nat) :=
  ((Finmap.insert 1 ⟨25, some 2, none⟩ (∅ : Heap (NDlist Nat))).insert
    2 ⟨12, some 3, some 1⟩).insert 3 ⟨11, none, some 2⟩

theorem threeNodes_isList : IsList threeNodes (some 1) [(1, 25), (2, 12), (3, 11)] := by
  constructor
  · rfl
  · simp [threeNodes, Finmap.lookup_insert_of_ne]
  · decide

theorem dlist_sort_stable_three :
    TotalPreorder compareTens ∧ IsList threeNodes (some 1) [(1, 25), (2, 12), (3, 11)] ∧
      SortsStably (nDlistSort (Allocator.above ⟨0, none, none⟩) (some 1) compareTens) threeNodes
        compareTens [(1, 25), (2, 12), (3, 11)] :=
  ⟨compareTens_preorder, threeNodes_isList,
    (dlist_sort_stable (Allocator.above ⟨0, none, none⟩) threeNodes_isList).1 compareTens
      compareTens_preorder⟩

end SqliteFs
