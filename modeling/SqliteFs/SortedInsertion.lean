import SqliteFs.ListSort

/-!
Insertion into a sorted list. `n_dlist_insert_sorted` and `n_slist_insert_sorted`
stop at the first element that the new one does not come behind, or at the last
one; only in the doubly-linked list is the node in front of it found through
`prev`. Inserting one element after another gives what prepending them all and
sorting gives.
-/

namespace SqliteFs

open Lib Lib.Mem Lib.ListNode

section

variable {δ : Type} [Zero δ] (al : Allocator (NDlist δ)) (func : δ → δ → δ → Int32)
  (userData x : δ)

def nDlistInsertSortedLoop : Nat → Ptr → Int32 → Mem (NDlist δ) (Ptr × Int32)
  | 0, _, _ => failure
  | fuel + 1, tmpList, cmp => do
    let tmp ← load tmpList
    if tmp.next ≠ none ∧ cmp > 0 then
      let node ← load tmp.next
      nDlistInsertSortedLoop fuel tmp.next (func x node.data userData)
    else return (tmpList, cmp)

def nDlistInsertSortedReal (list : Ptr) : Mem (NDlist δ) Ptr := do
  if list = none then
    let newList ← nDlistAlloc0 al
    store newList fun node => { node with data := x }
    return newList
  else
    let first ← load list
    let fuel ← blocks
    let (tmpList, cmp) ←
      nDlistInsertSortedLoop func userData x fuel list (func x first.data userData)
    let newList ← nDlistAlloc0 al
    store newList fun node => { node with data := x }
    let tmp ← load tmpList
    if tmp.next = none ∧ cmp > 0 then
      store tmpList fun node => { node with next := newList }
      store newList fun node => { node with prev := tmpList }
      return list
    else
      if tmp.prev ≠ none then
        store tmp.prev fun prev => { prev with next := newList }
        store newList fun node => { node with prev := tmp.prev }
      store newList fun node => { node with next := tmpList }
      store tmpList fun node => { node with prev := newList }
      return if tmpList = list then newList else list

/-- The comparison is called with three arguments and takes the first two. -/
def nDlistInsertSorted (list : Ptr) (x : δ) (func : δ → δ → Int32) : Mem (NDlist δ) Ptr :=
  nDlistInsertSortedReal al (fun a b _ => func a b) 0 x list

end

section

variable {δ : Type} [Zero δ] (al : Allocator (NSlist δ)) (func : δ → δ → δ → Int32)
  (userData x : δ)

def nSlistInsertSortedLoop :
    Nat → Ptr → Ptr → Int32 → Mem (NSlist δ) (Ptr × Ptr × Int32)
  | 0, _, _, _ => failure
  | fuel + 1, prevList, tmpList, cmp => do
    let tmp ← load tmpList
    if tmp.next ≠ none ∧ cmp > 0 then
      let node ← load tmp.next
      nSlistInsertSortedLoop fuel tmpList tmp.next (func x node.data userData)
    else return (prevList, tmpList, cmp)

def nSlistInsertSortedReal (list : Ptr) : Mem (NSlist δ) Ptr := do
  if list = none then
    let newList ← malloc al
    store newList fun node => { node with data := x }
    store newList fun node => { node with next := none }
    return newList
  else
    let first ← load list
    let fuel ← blocks
    let (prevList, tmpList, cmp) ←
      nSlistInsertSortedLoop func userData x fuel none list (func x first.data userData)
    let newList ← malloc al
    store newList fun node => { node with data := x }
    let tmp ← load tmpList
    if tmp.next = none ∧ cmp > 0 then
      store tmpList fun node => { node with next := newList }
      store newList fun node => { node with next := none }
      return list
    else if prevList ≠ none then
      store prevList fun prev => { prev with next := newList }
      store newList fun node => { node with next := tmpList }
      return list
    else
      store newList fun node => { node with next := list }
      return newList

def nSlistInsertSorted (list : Ptr) (x : δ) (func : δ → δ → Int32) : Mem (NSlist δ) Ptr :=
  nSlistInsertSortedReal al (fun a b _ => func a b) 0 x list

end

/-- The search for the place of `x` in `l` ends at the node `y`, behind the nodes
`pre`: at the first one that `x` may stand in front of, or at the last one. -/
structure StopsAt {δ : Type} (cmp : δ → δ → Int32) (x : δ) (l pre : List (Nat × δ)) (y : Nat × δ)
    (post : List (Nat × δ)) : Prop where
  split : l = pre ++ y :: post
  behind : ∀ z ∈ pre, ¬cmp x z.2 ≤ 0
  stop : cmp x y.2 ≤ 0 ∨ post = []

section

variable {δ : Type} {cmp : δ → δ → Int32} {l pre post : List (Nat × δ)} {a : Nat} {x : δ}
  {y z : Nat × δ}

theorem StopsAt.cons (hgt : ¬cmp x z.2 ≤ 0) (hstop : StopsAt cmp x l pre y post) :
    StopsAt cmp x (z :: l) (z :: pre) y post :=
  ⟨by rw [hstop.split, List.cons_append], List.forall_mem_cons.mpr ⟨hgt, hstop.behind⟩,
    hstop.stop⟩

theorem StopsAt.firstPtr_eq (hstop : StopsAt cmp x l pre y post) :
    firstPtr l none = firstPtr pre (some y.1) := by
  rw [hstop.split, firstPtr_append, firstPtr_cons]

/-- The new node goes in front of the one where the search ends. -/
theorem StopsAt.orderedInsert_of_le (hstop : StopsAt cmp x l pre y post) (hle : cmp x y.2 ≤ 0) :
    l.orderedInsert (InOrder cmp) (a, x) = pre ++ (a, x) :: y :: post := by
  rw [hstop.split]
  apply orderedInsert_append hstop.behind
  rintro z ⟨⟩
  exact hle

/-- The new node goes behind the last one. -/
theorem StopsAt.orderedInsert_of_gt (hstop : StopsAt cmp x l pre y post) (hgt : ¬cmp x y.2 ≤ 0) :
    post = [] ∧ l.orderedInsert (InOrder cmp) (a, x) = pre ++ [y] ++ [(a, x)] := by
  have hpost := hstop.stop.resolve_left hgt
  refine ⟨hpost, ?_⟩
  have hinsert : (pre ++ [y] ++ []).orderedInsert (InOrder cmp) (a, x) =
      pre ++ [y] ++ [(a, x)] := by
    apply orderedInsert_append
    · exact List.forall_mem_append.mpr ⟨hstop.behind, List.forall_mem_singleton.mpr hgt⟩
    · exact fun z hz => absurd hz (Option.not_mem_none z)
  rw [hstop.split, hpost, ← hinsert, List.append_nil]

end

section

variable {δ : Type} {al : Allocator (NDlist δ)} {h : Heap (NDlist δ)} {list p : Ptr}
  {l : List (Nat × δ)} {b : Nat} {d : δ} (func : δ → δ → δ → Int32) (userData x : δ)

theorem nDlistInsertSortedLoop_run {fuel : Nat} (hseg : Seg h p ((b, d) :: l) none)
    (hfuel : l.length < fuel) :
    ∃ pre y post, StopsAt (func · · userData) x ((b, d) :: l) pre y post ∧
      (nDlistInsertSortedLoop func userData x fuel (some b) (func x d userData)).run h =
        some ((some y.1, func x y.2 userData), h) := by
  induction fuel generalizing p b d l with
  | zero => cases hfuel
  | succ fuel ih =>
      rw [nDlistInsertSortedLoop, run_bind (load_run hseg.1), dlist_node]
      by_cases hle : func x d userData ≤ 0
      · refine ⟨[], (b, d), l, ⟨rfl, List.forall_mem_nil _, Or.inl hle⟩, ?_⟩
        rw [if_neg (fun hgo => absurd hle (Int32.not_le.mpr hgo.2))]
        rfl
      · rcases l with _ | ⟨⟨t, e⟩, l⟩
        · refine ⟨[], (b, d), [], ⟨rfl, List.forall_mem_nil _, Or.inr rfl⟩, ?_⟩
          rw [if_neg (fun hgo => hgo.1 rfl)]
          rfl
        · obtain ⟨pre, y, post, hstop, hrun⟩ := ih hseg.2 (Nat.lt_of_succ_lt_succ hfuel)
          refine ⟨(b, d) :: pre, y, post, hstop.cons hle, ?_⟩
          rw [firstPtr_cons, if_pos ⟨Option.some_ne_none t, Int32.not_le.mp hle⟩,
            run_bind (load_run hseg.2.1), dlist_node, hrun]

theorem nDlistInsertSortedReal_yields [Zero δ] (hl : IsList h list l) :
    Yields (nDlistInsertSortedReal al func userData x list) h (addrs l)
      (l.orderedInsert (InOrder (func · · userData)) (al.place h, x)) := by
  have hdead := al.lookup_place h
  rcases l with _ | ⟨⟨b, d⟩, l⟩
  · have hnil : IsList h list ([] ++ []) := hl
    rw [List.orderedInsert_nil]
    apply Yields.of_linkedIn hnil hdead
    obtain rfl := hl.head_eq
    simp [nDlistInsertSortedReal, nDlistAlloc0, linkedIn, relink]
  have hfuel : l.length < h.keys.card + 1 :=
    Nat.lt_of_succ_le (Nat.le_succ_of_le hl.length_le)
  obtain ⟨pre, ⟨t, e⟩, post, hstop, hwalk⟩ :=
    nDlistInsertSortedLoop_run func userData x hl.seg hfuel
  have hfirst : h.lookup b = some ⟨d, firstPtr l none, none⟩ := hl.seg.1
  have hhead : some b = firstPtr pre (some t) := hstop.firstPtr_eq
  obtain rfl := hl.head_eq
  rw [firstPtr_cons] at hl ⊢
  rw [hstop.split] at hl
  have ht : h.lookup t = some ⟨e, firstPtr post none, lastPtr none pre⟩ :=
    (seg_append.mp hl.seg).2.1
  have htne := ne_of_dead hdead ht
  by_cases hle : func x e userData ≤ 0
  · have hngt : ¬0 < func x e userData := Int32.not_lt.mpr hle
    rw [hstop.orderedInsert_of_le hle, hstop.split]
    apply Yields.of_linkedIn hl hdead
    rcases List.eq_nil_or_concat pre with rfl | ⟨pre, ⟨c, f⟩, rfl⟩
    · obtain rfl := Option.some.inj hhead
      simp [nDlistInsertSortedReal, nDlistAlloc0, hfirst, hwalk, hngt, htne, linkedIn, relink,
        alter, Finmap.lookup_insert_of_ne]
    · rw [List.concat_eq_append] at *
      have hc := (seg_append.mp (seg_append.mp hl.seg).1).2.1
      have hcne := ne_of_dead hdead hc
      have hct : c ≠ t := hl.ne_of_split rfl (by simp) (by simp)
      rw [firstPtr_append, firstPtr_cons] at hhead
      have hbt : t ≠ b := by
        rintro rfl
        exact firstPtr_ne hl hhead.symm
      simp [nDlistInsertSortedReal, nDlistAlloc0, hfirst, hwalk, hngt, htne, ht, hc, hcne,
        hcne.symm, hct.symm, hbt, ← hhead, linkedIn, relink, alter, Finmap.lookup_insert_of_ne,
        Finmap.insert_insert_of_ne _ hcne]
  · obtain ⟨rfl, hinsert⟩ := @StopsAt.orderedInsert_of_gt _ _ _ _ _ (al.place h) _ _ hstop hle
    have hl' : IsList h (some b) (pre ++ [(t, e)] ++ []) := by rwa [List.append_nil]
    have hgt := Int32.not_le.mp hle
    have hyields : Yields (nDlistInsertSortedReal al func userData x (some b)) h
        (addrs (pre ++ [(t, e)] ++ [])) (pre ++ [(t, e)] ++ [(al.place h, x)]) := by
      apply Yields.of_linkedIn hl' hdead
      simp [nDlistInsertSortedReal, nDlistAlloc0, hfirst, hwalk, hgt, htne, htne.symm, ht, ← hhead,
        linkedIn, relink, alter, Finmap.lookup_insert_of_ne, Finmap.insert_insert_of_ne _ htne]
    rw [hinsert, hstop.split]
    rwa [List.append_nil] at hyields

end

section

variable {δ : Type} {al : Allocator (NSlist δ)} {h : Heap (NSlist δ)} {list p : Ptr}
  {l : List (Nat × δ)} {b : Nat} {d : δ} (func : δ → δ → δ → Int32) (userData x : δ)

/-- The walk keeps the node in front of the one where it ends. -/
theorem nSlistInsertSortedLoop_run {fuel : Nat} (hseg : Seg h p ((b, d) :: l) none)
    (hfuel : l.length < fuel) :
    ∃ pre y post, StopsAt (func · · userData) x ((b, d) :: l) pre y post ∧
      (nSlistInsertSortedLoop func userData x fuel p (some b) (func x d userData)).run h =
        some ((lastPtr p pre, some y.1, func x y.2 userData), h) := by
  induction fuel generalizing p b d l with
  | zero => cases hfuel
  | succ fuel ih =>
      rw [nSlistInsertSortedLoop, run_bind (load_run hseg.1), slist_node]
      by_cases hle : func x d userData ≤ 0
      · refine ⟨[], (b, d), l, ⟨rfl, List.forall_mem_nil _, Or.inl hle⟩, ?_⟩
        rw [if_neg (fun hgo => absurd hle (Int32.not_le.mpr hgo.2))]
        rfl
      · rcases l with _ | ⟨⟨t, e⟩, l⟩
        · refine ⟨[], (b, d), [], ⟨rfl, List.forall_mem_nil _, Or.inr rfl⟩, ?_⟩
          rw [if_neg (fun hgo => hgo.1 rfl)]
          rfl
        · obtain ⟨pre, y, post, hstop, hrun⟩ := ih hseg.2 (Nat.lt_of_succ_lt_succ hfuel)
          refine ⟨(b, d) :: pre, y, post, hstop.cons hle, ?_⟩
          rw [firstPtr_cons, if_pos ⟨Option.some_ne_none t, Int32.not_le.mp hle⟩,
            run_bind (load_run hseg.2.1), slist_node, hrun, lastPtr_cons]

theorem nSlistInsertSortedReal_yields (hl : IsList h list l) :
    Yields (nSlistInsertSortedReal al func userData x list) h (addrs l)
      (l.orderedInsert (InOrder (func · · userData)) (al.place h, x)) := by
  have hdead := al.lookup_place h
  rcases l with _ | ⟨⟨b, d⟩, l⟩
  · have hnil : IsList h list ([] ++ []) := hl
    rw [List.orderedInsert_nil]
    apply Yields.of_linkedIn hnil hdead
    obtain rfl := hl.head_eq
    simp [nSlistInsertSortedReal, linkedIn]
  have hfuel : l.length < h.keys.card + 1 :=
    Nat.lt_of_succ_le (Nat.le_succ_of_le hl.length_le)
  obtain ⟨pre, ⟨t, e⟩, post, hstop, hwalk⟩ :=
    nSlistInsertSortedLoop_run func userData x hl.seg hfuel
  have hfirst : h.lookup b = some ⟨d, firstPtr l none⟩ := hl.seg.1
  have hhead : some b = firstPtr pre (some t) := hstop.firstPtr_eq
  obtain rfl := hl.head_eq
  rw [firstPtr_cons] at hl ⊢
  rw [hstop.split] at hl
  have ht : h.lookup t = some ⟨e, firstPtr post none⟩ := (seg_append.mp hl.seg).2.1
  have htne := ne_of_dead hdead ht
  by_cases hle : func x e userData ≤ 0
  · have hngt : ¬0 < func x e userData := Int32.not_lt.mpr hle
    rw [hstop.orderedInsert_of_le hle, hstop.split]
    apply Yields.of_linkedIn hl hdead
    rcases List.eq_nil_or_concat pre with rfl | ⟨pre, ⟨c, f⟩, rfl⟩
    · obtain rfl := Option.some.inj hhead
      simp [nSlistInsertSortedReal, hfirst, hwalk, hngt, htne, linkedIn, alter,
        Finmap.lookup_insert_of_ne]
    · rw [List.concat_eq_append] at *
      have hc := (seg_append.mp (seg_append.mp hl.seg).1).2.1
      have hcne := ne_of_dead hdead hc
      rw [firstPtr_append, firstPtr_cons] at hhead
      simp [nSlistInsertSortedReal, hfirst, hwalk, hngt, htne, ht, hc, hcne, hcne.symm, ← hhead,
        linkedIn, alter, Finmap.lookup_insert_of_ne, Finmap.insert_insert_of_ne _ hcne]
  · obtain ⟨rfl, hinsert⟩ := @StopsAt.orderedInsert_of_gt _ _ _ _ _ (al.place h) _ _ hstop hle
    have hl' : IsList h (some b) (pre ++ [(t, e)] ++ []) := by rwa [List.append_nil]
    have hgt := Int32.not_le.mp hle
    have hyields : Yields (nSlistInsertSortedReal al func userData x (some b)) h
        (addrs (pre ++ [(t, e)] ++ [])) (pre ++ [(t, e)] ++ [(al.place h, x)]) := by
      apply Yields.of_linkedIn hl' hdead
      simp [nSlistInsertSortedReal, hfirst, hwalk, hgt, htne, htne.symm, ht, ← hhead,
        linkedIn, alter, Finmap.lookup_insert_of_ne, Finmap.insert_insert_of_ne _ htne]
    rw [hinsert, hstop.split]
    rwa [List.append_nil] at hyields

end

section

variable {δ : Type} [Zero δ] {list : Ptr} {l : List (Nat × δ)} {x : δ} {cmp : δ → δ → Int32}

theorem nDlistInsertSorted_yields {al : Allocator (NDlist δ)} {h : Heap (NDlist δ)}
    (hl : IsList h list l) : Yields (nDlistInsertSorted al list x cmp) h (addrs l)
      (l.orderedInsert (InOrder cmp) (al.place h, x)) :=
  nDlistInsertSortedReal_yields (fun a b _ => cmp a b) 0 x hl

theorem nSlistInsertSorted_yields {al : Allocator (NSlist δ)} {h : Heap (NSlist δ)}
    (hl : IsList h list l) : Yields (nSlistInsertSorted al list x cmp) h (addrs l)
      (l.orderedInsert (InOrder cmp) (al.place h, x)) :=
  nSlistInsertSortedReal_yields (fun a b _ => cmp a b) 0 x hl

end

/-- Both programs return the start of a well-formed list, and the two lists hold
the same data in the same order. -/
def SameData {κ δ : Type} [ListNode κ δ] (prog prog' : Mem κ Ptr) (h : Heap κ) : Prop :=
  ∃ l₁ h₁ l₂ h₂, prog.run h = some (firstPtr l₁ none, h₁) ∧ IsList h₁ (firstPtr l₁ none) l₁ ∧
    prog'.run h = some (firstPtr l₂ none, h₂) ∧ IsList h₂ (firstPtr l₂ none) l₂ ∧
    l₁.map Prod.snd = l₂.map Prod.snd

section

variable {κ δ : Type} [ListNode κ δ] {h : Heap κ} {list : Ptr} {l : List (Nat × δ)}
  {cmp : δ → δ → Int32}

/-- One element after another, each of which changes the data by `f`. -/
theorem foldlM_yields {step : Ptr → δ → Mem κ Ptr} {f : List δ → δ → List δ}
    (hstep : ∀ ⦃h : Heap κ⦄ ⦃list : Ptr⦄ ⦃l : List (Nat × δ)⦄ (x : δ), IsList h list l →
      ∃ l', Yields (step list x) h (addrs l) l' ∧ l'.map Prod.snd = f (l.map Prod.snd) x)
    (hl : IsList h list l) (xs : List δ) :
    ∃ l', Yields (xs.foldlM step list) h (addrs l) l' ∧
      l'.map Prod.snd = xs.foldl f (l.map Prod.snd) := by
  induction xs generalizing h list l with
  | nil =>
      obtain rfl := hl.head_eq
      exact ⟨l, ⟨h, rfl, hl, Exchanges.refl h _⟩, rfl⟩
  | cons x xs ih =>
      obtain ⟨m, ⟨h₁, hrun, hm, hex⟩, hdata⟩ := hstep x hl
      obtain ⟨l', hyields, hdata'⟩ := ih hm
      refine ⟨l', hyields.after hex ?_, ?_⟩
      · rw [List.foldlM_cons, run_bind hrun]
      · rw [hdata', hdata, List.foldl_cons]

theorem map_orderedInsert_inOrder (a : Nat) (x : δ) (l : List (Nat × δ)) :
    (l.orderedInsert (InOrder cmp) (a, x)).map Prod.snd =
      (l.map Prod.snd).orderedInsert (fun x y => cmp x y ≤ 0) x :=
  List.map_orderedInsert (InOrder cmp) (fun x y => cmp x y ≤ 0) Prod.snd l (a, x)
    (fun _ _ => Iff.rfl) (fun _ _ => Iff.rfl)

theorem map_insertionSort_inOrder (l : List (Nat × δ)) :
    (l.insertionSort (InOrder cmp)).map Prod.snd =
      (l.map Prod.snd).insertionSort (fun x y => cmp x y ≤ 0) :=
  List.map_insertionSort (InOrder cmp) (fun x y => cmp x y ≤ 0) Prod.snd l
    (fun _ _ _ _ => Iff.rfl)

/-- What the three functions do to the nodes is enough. -/
theorem sameData_of_yields {insertSorted prepend : Ptr → δ → Mem κ Ptr} {sort : Ptr → Mem κ Ptr}
    (hinsert : ∀ ⦃h : Heap κ⦄ ⦃list : Ptr⦄ ⦃l : List (Nat × δ)⦄ (x : δ), IsList h list l →
      ∃ a, Yields (insertSorted list x) h (addrs l) (l.orderedInsert (InOrder cmp) (a, x)))
    (hprepend : ∀ ⦃h : Heap κ⦄ ⦃list : Ptr⦄ ⦃l : List (Nat × δ)⦄ (x : δ), IsList h list l →
      ∃ a, Yields (prepend list x) h (addrs l) ((a, x) :: l))
    (hsort : ∀ ⦃h : Heap κ⦄ ⦃list : Ptr⦄ ⦃l : List (Nat × δ)⦄, IsList h list l →
      Yields (sort list) h (addrs l) (l.insertionSort (InOrder cmp)))
    (hl : IsList h list l) (hsorted : (l.map Prod.snd).Pairwise fun x y => cmp x y ≤ 0)
    (xs : List δ) :
    SameData (xs.foldlM insertSorted list) (xs.foldlM prepend list >>= sort) h := by
  have hinsertAll : ∃ l₁, Yields (xs.foldlM insertSorted list) h (addrs l) l₁ ∧
      l₁.map Prod.snd =
        xs.foldl (fun l x => l.orderedInsert (fun x y => cmp x y ≤ 0) x) (l.map Prod.snd) := by
    apply foldlM_yields _ hl
    intro h list l x hl
    obtain ⟨a, hyields⟩ := hinsert x hl
    exact ⟨_, hyields, map_orderedInsert_inOrder a x l⟩
  have hprependAll : ∃ l₂, Yields (xs.foldlM prepend list) h (addrs l) l₂ ∧
      l₂.map Prod.snd = xs.foldl (fun l x => x :: l) (l.map Prod.snd) := by
    apply foldlM_yields _ hl
    intro h list l x hl
    obtain ⟨a, hyields⟩ := hprepend x hl
    exact ⟨_, hyields, rfl⟩
  obtain ⟨l₁, ⟨h₁, hrun₁, hl₁, _⟩, hdata₁⟩ := hinsertAll
  obtain ⟨l₂, ⟨h₂, hrun₂, hl₂, _⟩, hdata₂⟩ := hprependAll
  obtain ⟨h₃, hrun₃, hl₃, _⟩ := hsort hl₂
  refine ⟨l₁, h₁, _, h₃, hrun₁, hl₁, ?_, hl₃, ?_⟩
  · rw [run_bind hrun₂, hrun₃]
  · rw [hdata₁, foldl_orderedInsert hsorted, map_insertionSort_inOrder, hdata₂,
      List.foldl_flip_cons_eq_append']

end

/-- Inserting elements in order into a sorted list, and prepending them and then
sorting, leave the same data, those that tie in the same order. -/
theorem insert_sorted_eq_prepend_sort {δ : Type} [Zero δ] {cmp : δ → δ → Int32}
    (hcmp : TotalPreorder cmp) :
    (∀ (al al' : Allocator (NDlist δ)) (h : Heap (NDlist δ)) (list : Ptr) (l : List (Nat × δ)),
      IsList h list l → ((l.map Prod.snd).Pairwise fun x y => cmp x y ≤ 0) → ∀ xs : List δ,
      SameData (xs.foldlM (fun list x => nDlistInsertSorted al list x cmp) list) (do
        let list ← xs.foldlM (fun list x => nDlistPrepend al' list x) list
        nDlistSort al' list cmp) h) ∧
    ∀ (al al' : Allocator (NSlist δ)) (h : Heap (NSlist δ)) (list : Ptr) (l : List (Nat × δ)),
      IsList h list l → ((l.map Prod.snd).Pairwise fun x y => cmp x y ≤ 0) → ∀ xs : List δ,
      SameData (xs.foldlM (fun list x => nSlistInsertSorted al list x cmp) list) (do
        let list ← xs.foldlM (fun list x => nSlistPrepend al' list x) list
        nSlistSort al' list cmp) h := by
  constructor
  · intro al al' h list l hl hsorted xs
    apply sameData_of_yields _ _ _ hl hsorted
    · exact fun h list l x hl => ⟨_, nDlistInsertSorted_yields hl⟩
    · exact fun h list l x hl => ⟨_, nDlistPrepend_yields hl x⟩
    · exact fun h list l hl => nDlistSort_yields al' hl hcmp
  · intro al al' h list l hl hsorted xs
    apply sameData_of_yields _ _ _ hl hsorted
    · exact fun h list l x hl => ⟨_, nSlistInsertSorted_yields hl⟩
    · exact fun h list l x hl => ⟨_, nSlistPrepend_yields hl x⟩
    · exact fun h list l hl => nSlistSort_yields al' hl hcmp

theorem insert_sorted_eq_prepend_sort_tens :
    TotalPreorder compareTens ∧
      IsList (Finmap.insert 1 ⟨12, none, none⟩ (∅ : Heap (NDlist Nat))) (some 1) [(1, 12)] ∧
      SameData ([25, 11, 4].foldlM (fun list x =>
          nDlistInsertSorted (Allocator.above ⟨0, none, none⟩) list x compareTens) (some 1)) (do
        let list ← [25, 11, 4].foldlM (fun list x =>
          nDlistPrepend (Allocator.above ⟨0, none, none⟩) list x) (some 1)
        nDlistSort (Allocator.above ⟨0, none, none⟩) list compareTens)
        (Finmap.insert 1 ⟨12, none, none⟩ (∅ : Heap (NDlist Nat))) :=
  have hl := IsList.alone (Finmap.lookup_insert _)
  ⟨compareTens_preorder, hl, (insert_sorted_eq_prepend_sort compareTens_preorder).1 _ _ _ _ _ hl
    (List.pairwise_singleton _ _) _⟩

end SqliteFs
