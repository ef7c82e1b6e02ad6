import SqliteFs.SortedInsertion
import SqliteFs.Lib.ListFamily
import SqliteFs.Lib.Run

/-!
Runs of the list functions. A program keeps lists in variables, applies the
functions to them, always with the start that the last one returned, and may copy
one variable's list into another, join two, or move a node out of one into
another. Both kinds of list offer the same functions, `ListOps`; what is shown of
a run is shown once, for any such functions that do to the nodes what those of
the two kinds do.
-/

namespace SqliteFs

open Lib Lib.Mem Lib.ListNode

/-- The functions of a kind of list. -/
structure ListOps (κ δ : Type) where
  append : Ptr → δ → Mem κ Ptr
  prepend : Ptr → δ → Mem κ Ptr
  insert : Ptr → δ → Int32 → Mem κ Ptr
  insertBefore : Ptr → Ptr → δ → Mem κ Ptr
  insertSorted : Ptr → δ → (δ → δ → Int32) → Mem κ Ptr
  remove : Ptr → δ → Mem κ Ptr
  removeAll : Ptr → δ → Mem κ Ptr
  removeLink : Ptr → Ptr → Mem κ Ptr
  deleteLink : Ptr → Ptr → Mem κ Ptr
  concat : Ptr → Ptr → Mem κ Ptr
  reverse : Ptr → Mem κ Ptr
  copy : Ptr → Mem κ Ptr
  sort : Ptr → (δ → δ → Int32) → Mem κ Ptr

section

variable {δ : Type} [DecidableEq δ] [Zero δ]

def dlistOps (al : Allocator (NDlist δ)) : ListOps (NDlist δ) δ where
  append := nDlistAppend al
  prepend := nDlistPrepend al
  insert := nDlistInsert al
  insertBefore := nDlistInsertBefore al
  insertSorted := nDlistInsertSorted al
  remove := nDlistRemove
  removeAll := nDlistRemoveAll
  removeLink := nDlistRemoveLink
  deleteLink := nDlistDeleteLink
  concat := nDlistConcat
  reverse := nDlistReverse
  copy := nDlistCopy al
  sort := nDlistSort al

def slistOps (al : Allocator (NSlist δ)) : ListOps (NSlist δ) δ where
  append := nSlistAppend al
  prepend := nSlistPrepend al
  insert := nSlistInsert al
  insertBefore := nSlistInsertBefore al
  insertSorted := nSlistInsertSorted al
  remove := nSlistRemove
  removeAll := nSlistRemoveAll
  removeLink := nSlistRemoveLink
  deleteLink := nSlistDeleteLink
  concat := nSlistConcat
  reverse := nSlistReverse
  copy := nSlistCopy al
  sort := nSlistSort al

end

/-- What a function is to do to the nodes of the list it is given. -/
structure ListOps.Correct {κ δ : Type} [ListNode κ δ] [DecidableEq δ] (ops : ListOps κ δ) :
    Prop where
  append : ∀ ⦃h list l⦄ (x : δ), IsList h list l →
    ∃ a, Yields (ops.append list x) h (addrs l) (l ++ [(a, x)])
  prepend : ∀ ⦃h list l⦄ (x : δ), IsList h list l →
    ∃ a, Yields (ops.prepend list x) h (addrs l) ((a, x) :: l)
  insert : ∀ ⦃h list l⦄ (x : δ) (position : Int32), IsList h list l →
    ∃ a, Yields (ops.insert list x position) h (addrs l) (insertAt position (a, x) l)
  insertBefore : ∀ ⦃h list pre post⦄ (x : δ), IsList h list (pre ++ post) →
    ∃ a, Yields (ops.insertBefore list (firstPtr post none) x) h (addrs (pre ++ post))
      (pre ++ (a, x) :: post)
  insertSorted : ∀ ⦃h list l⦄ (x : δ) (cmp : δ → δ → Int32), IsList h list l →
    ∃ a, Yields (ops.insertSorted list x cmp) h (addrs l)
      (l.orderedInsert (InOrder cmp) (a, x))
  remove : ∀ ⦃h list l⦄ (x : δ), IsList h list l →
    Yields (ops.remove list x) h (addrs l) (l.eraseP fun y => y.2 = x)
  removeAll : ∀ ⦃h list l⦄ (x : δ), IsList h list l →
    Yields (ops.removeAll list x) h (addrs l) (l.filter fun y => y.2 ≠ x)
  removeLink : ∀ ⦃h list pre a d post⦄, IsList h list (pre ++ (a, d) :: post) →
    ∃ h', (ops.removeLink list (some a)).run h = some (firstPtr (pre ++ post) none, h') ∧
      IsList h' (firstPtr (pre ++ post) none) (pre ++ post) ∧ IsList h' (some a) [(a, d)] ∧
      Exchanges h (addrs (pre ++ (a, d) :: post)) h' (a :: addrs (pre ++ post))
  removeLink_none : ∀ ⦃h list l⦄, IsList h list l →
    (ops.removeLink list none).run h = some (list, h)
  deleteLink : ∀ ⦃h list pre a d post⦄, IsList h list (pre ++ (a, d) :: post) →
    Yields (ops.deleteLink list (some a)) h (addrs (pre ++ (a, d) :: post)) (pre ++ post)
  deleteLink_none : ∀ ⦃h list l⦄, IsList h list l →
    Yields (ops.deleteLink list none) h (addrs l) l
  concat : ∀ ⦃h list₁ list₂ l m⦄, IsList h list₁ l → IsList h list₂ m →
    (addrs l).Disjoint (addrs m) →
    Yields (ops.concat list₁ list₂) h (addrs l ++ addrs m) (l ++ m)
  reverse : ∀ ⦃h list l⦄, IsList h list l →
    Yields (ops.reverse list) h (addrs l) l.reverse
  copy : ∀ ⦃h list l⦄, IsList h list l →
    ∃ m, m.map Prod.snd = l.map Prod.snd ∧ Yields (ops.copy list) h [] m
  sort : ∀ ⦃h list l⦄ (cmp : δ → δ → Int32), TotalPreorder cmp → IsList h list l →
    Yields (ops.sort list cmp) h (addrs l) (l.insertionSort (InOrder cmp))

section

variable {δ : Type} [DecidableEq δ] [Zero δ]

theorem dlistOps_correct (al : Allocator (NDlist δ)) : (dlistOps al).Correct where
  append _ _ _ x hl := ⟨_, nDlistAppend_yields hl x⟩
  prepend _ _ _ x hl := ⟨_, nDlistPrepend_yields hl x⟩
  insert _ _ _ x position hl := ⟨_, nDlistInsert_yields hl x position⟩
  insertBefore _ _ _ _ x hl := ⟨_, nDlistInsertBefore_yields hl x⟩
  insertSorted _ _ _ _ _ hl := ⟨_, nDlistInsertSorted_yields hl⟩
  remove _ _ _ x hl := nDlistRemove_yields hl x
  removeAll _ _ _ x hl := nDlistRemoveAll_yields hl x
  removeLink _ _ _ _ _ _ hl := by
    obtain ⟨h', hrun, hlist, ha, hex⟩ := nDlistUnlink_spec hl
    exact ⟨h', hrun, hlist, IsList.alone ha, hex⟩
  removeLink_none _ _ _ _ := rfl
  deleteLink _ _ _ _ _ _ hl := nDlistDeleteLink_yields hl
  deleteLink_none _ _ _ hl := nDlistDeleteLink_none hl
  concat _ _ _ _ _ hl hm hdisj := nDlistConcat_yields hl hm hdisj
  reverse _ _ _ hl := nDlistReverse_yields hl
  copy _ _ _ hl := nDlistCopyDeep_yields hl none 0
  sort _ _ _ _ hcmp hl := nDlistSort_yields al hl hcmp

theorem slistOps_correct (al : Allocator (NSlist δ)) : (slistOps al).Correct where
  append _ _ _ x hl := ⟨_, nSlistAppend_yields hl x⟩
  prepend _ _ _ x hl := ⟨_, nSlistPrepend_yields hl x⟩
  insert _ _ _ x position hl := ⟨_, nSlistInsert_yields hl x position⟩
  insertBefore _ _ _ _ x hl := ⟨_, nSlistInsertBefore_yields hl x⟩
  insertSorted _ _ _ _ _ hl := ⟨_, nSlistInsertSorted_yields hl⟩
  remove _ _ _ x hl := nSlistRemove_yields hl x
  removeAll _ _ _ x hl := nSlistRemoveAll_yields hl x
  removeLink _ _ _ _ _ _ hl := by
    obtain ⟨h', hrun, hlist, ha, hex⟩ := nSlistUnlink_spec hl
    exact ⟨h', hrun, hlist, IsList.alone ha, hex⟩
  removeLink_none _ _ _ hl := nSlistUnlink_none hl
  deleteLink _ _ _ _ _ _ hl := nSlistDeleteLink_yields hl
  deleteLink_none _ _ _ hl := nSlistDeleteLink_none hl
  concat _ _ _ _ _ hl hm hdisj := nSlistConcat_yields hl hm hdisj
  reverse _ _ _ hl := nSlistReverse_yields hl
  copy _ _ _ hl := nSlistCopyDeep_yields hl none 0
  sort _ _ _ _ hcmp hl := nSlistSort_yields al hl hcmp

end

/-- A comparison that is a total preorder. -/
structure Comparator (δ : Type) where
  compare : δ → δ → Int32
  preorder : TotalPreorder compare

/-- A change of one list. A node of the list is given by its place, and a place
behind the last node stands for the null pointer. -/
inductive Edit (δ : Type) where
  | append (x : δ)
  | prepend (x : δ)
  | insert (x : δ) (position : Int32)
  | insertBefore (k : Nat) (x : δ)
  | insertSorted (x : δ) (func : Comparator δ)
  | remove (x : δ)
  | removeAll (x : δ)
  | deleteLink (k : Nat)
  | reverse
  | sort (func : Comparator δ)

/-- A step of a program, whose lists are in variables with numbers. A node that is
taken out of `i` is kept in `j`; of two lists that are joined the second is used
no more. -/
inductive Op (δ : Type) where
  | edit (i : Nat) (e : Edit δ)
  | removeLink (i k j : Nat) (hij : i ≠ j)
  | concat (i j : Nat) (hij : i ≠ j)
  | copy (i j : Nat)

section

variable {κ δ : Type} [ListNode κ δ]

def Edit.exec (ops : ListOps κ δ) (list : Ptr) : Edit δ → Mem κ Ptr
  | .append x => ops.append list x
  | .prepend x => ops.prepend list x
  | .insert x position => ops.insert list x position
  | .insertBefore k x => do
    let sibling ← listNth k list
    ops.insertBefore list sibling x
  | .insertSorted x func => ops.insertSorted list x func.compare
  | .remove x => ops.remove list x
  | .removeAll x => ops.removeAll list x
  | .deleteLink k => do
    let link ← listNth k list
    ops.deleteLink list link
  | .reverse => ops.reverse list
  | .sort func => ops.sort list func.compare

def Op.exec (ops : ListOps κ δ) (heads : Nat → Ptr) : Op δ → Mem κ (Nat → Ptr)
  | .edit i e => do
    let list ← e.exec ops (heads i)
    return Function.update heads i list
  | .removeLink i k j _ => do
    let link ← listNth k (heads i)
    let list ← ops.removeLink (heads i) link
    return Function.update (Function.update heads i list) j link
  | .concat i j _ => do
    let list ← ops.concat (heads i) (heads j)
    return Function.update (Function.update heads i list) j none
  | .copy i j => do
    let new ← ops.copy (heads i)
    return Function.update heads j new

/-- The heap and the variables of a program. -/
structure Lists (κ : Type) where
  heap : Heap κ
  heads : Nat → Ptr

/-- No variable holds a list yet. -/
def Lists.start (h : Heap κ) : Lists κ := ⟨h, fun _ => none⟩

def Lists.step (ops : ListOps κ δ) (s : Lists κ) (op : Op δ) : Option (Lists κ) :=
  ((op.exec ops s.heads).run s.heap).map fun out => ⟨out.2, out.1⟩

end

section

variable {δ : Type} [DecidableEq δ]

/-- The change on a plain sequence. -/
def Edit.apply (l : List δ) : Edit δ → List δ
  | .append x => l ++ [x]
  | .prepend x => x :: l
  | .insert x position => insertAt position x l
  | .insertBefore k x => l.take k ++ x :: l.drop k
  | .insertSorted x func => l.orderedInsert (fun x y => func.compare x y ≤ 0) x
  | .remove x => l.erase x
  | .removeAll x => l.filter fun y => y ≠ x
  | .deleteLink k => l.eraseIdx k
  | .reverse => l.reverse
  | .sort func => l.insertionSort fun x y => func.compare x y ≤ 0

/-- The step on plain sequences. -/
def Op.apply (data : Nat → List δ) : Op δ → Nat → List δ
  | .edit i e => Function.update data i (e.apply (data i))
  | .removeLink i k j _ =>
    Function.update (Function.update data i ((data i).eraseIdx k)) j (data i)[k]?.toList
  | .concat i j _ => Function.update (Function.update data i (data i ++ data j)) j []
  | .copy i j => Function.update data j (data i)

/-- The nodes that the change takes out of the list. -/
def Edit.removed (l : List (Nat × δ)) : Edit δ → List (Nat × δ)
  | .remove x => (l.find? fun y => y.2 = x).toList
  | .removeAll x => l.filter fun y => y.2 = x
  | .deleteLink k => l[k]?.toList
  | _ => []

def Op.removed (nodes : Nat → List (Nat × δ)) : Op δ → List (Nat × δ)
  | .edit i e => e.removed (nodes i)
  | .removeLink i k _ _ => (nodes i)[k]?.toList
  | _ => []

/-- Where the nodes that are taken out are kept; otherwise they are freed. -/
def Op.keeps : Op δ → Option Nat
  | .removeLink _ _ j _ => some j
  | _ => none

/-- The variable whose list gets nodes that another one had. -/
def Op.movesTo : Op δ → Option Nat
  | .removeLink _ _ j _ => some j
  | .concat i _ _ => some i
  | _ => none

/-- What a step does to the nodes: to their data, what it does to plain
sequences; a node that it takes out is left in no list but the one that keeps it,
and a node that is new in a list was allocated or was moved there. -/
structure Op.Follows {κ : Type} (op : Op δ) (h : Heap κ) (nodes nodes' : Nat → List (Nat × δ)) :
    Prop where
  data : List.map Prod.snd ∘ nodes' = op.apply (List.map Prod.snd ∘ nodes)
  removed : ∀ y ∈ op.removed nodes, ∀ i, y.1 ∈ addrs (nodes' i) → op.keeps = some i
  entered : ∀ i, ∀ a ∈ addrs (nodes' i),
    a ∈ addrs (nodes i) ∨ h.lookup a = none ∨ op.movesTo = some i

end

section

variable {κ δ : Type} [ListNode κ δ] {h : Heap κ} {list : Ptr} {l : List (Nat × δ)}

theorem find?_append_eraseP {α : Type} (p : α → Bool) (l : List α) :
    ((l.find? p).toList ++ l.eraseP p).Perm l := by
  induction l with
  | nil => exact List.Perm.refl []
  | cons a l ih =>
      by_cases ha : p a
      · rw [List.find?_cons_of_pos ha, List.eraseP_cons_of_pos ha]
        exact List.Perm.refl (a :: l)
      · rw [List.find?_cons_of_neg ha, List.eraseP_cons_of_neg ha]
        exact List.perm_middle.trans (ih.cons a)

theorem getElem?_append_eraseIdx {α : Type} (l : List α) (k : Nat) :
    (l[k]?.toList ++ l.eraseIdx k).Perm l := by
  by_cases hk : k < l.length
  · rw [List.getElem?_eq_getElem hk]
    exact List.getElem_cons_eraseIdx_perm hk
  · rw [List.getElem?_eq_none (not_lt.mp hk), List.eraseIdx_of_length_le (not_lt.mp hk)]
    exact List.Perm.refl l

/-- What is taken out of a list is in it no more. -/
theorem apart_of_perm {out l' : List (Nat × δ)} (hl : IsList h list l)
    (hperm : (out ++ l').Perm l) : ∀ y ∈ out, y.1 ∈ addrs l ∧ y.1 ∉ addrs l' := by
  intro y hy
  have haddrs := hperm.map Prod.fst
  have hnodup := haddrs.nodup_iff.mpr hl.nodup
  rw [List.map_append] at hnodup
  have hmem : y.1 ∈ addrs out := List.mem_map_of_mem hy
  constructor
  · exact haddrs.subset (List.mem_map_of_mem (List.mem_append_left l' hy))
  · exact List.disjoint_of_nodup_append hnodup hmem

/-- The node at a place, and the list without it; or there is no such node. -/
theorem listNth_cases (hl : IsList h list l) (k : Nat) :
    ((listNth k list).run h = some (none, h) ∧ l[k]? = none ∧ l.eraseIdx k = l) ∨
      ∃ pre a d post, l = pre ++ (a, d) :: post ∧ (listNth k list).run h = some (some a, h) ∧
        l[k]? = some (a, d) ∧ l.eraseIdx k = pre ++ post := by
  have hnth := listNth_run hl.seg k
  rw [← hl.head_eq] at hnth
  rcases Nat.lt_or_ge k l.length with hk | hk
  · right
    rw [List.drop_eq_getElem_cons hk] at hnth
    refine ⟨l.take k, l[k].1, l[k].2, l.drop (k + 1), ?_, hnth, List.getElem?_eq_getElem hk,
      List.eraseIdx_eq_take_drop_succ l k⟩
    exact (List.take_append_drop k l).symm.trans (by rw [List.drop_eq_getElem_cons hk])
  · left
    rw [List.drop_eq_nil_of_le hk] at hnth
    exact ⟨hnth, List.getElem?_eq_none hk, List.eraseIdx_of_length_le hk⟩

end

section

variable {κ δ : Type} [ListNode κ δ] [DecidableEq δ] {ops : ListOps κ δ} {h : Heap κ}
  {heads : Nat → Ptr} {nodes : Nat → List (Nat × δ)} {list : Ptr} {l : List (Nat × δ)}

theorem map_insertAt {α β : Type} (f : α → β) (position : Int32) (x : α) (l : List α) :
    (insertAt position x l).map f = insertAt position (f x) (l.map f) := by
  simp [insertAt]

theorem map_eraseP_data (l : List (Nat × δ)) (x : δ) :
    (l.eraseP fun y => y.2 = x).map Prod.snd = (l.map Prod.snd).erase x := by
  rw [List.erase_eq_eraseP', List.eraseP_map]
  congr 1

theorem map_filter_data (l : List (Nat × δ)) (x : δ) :
    (l.filter fun y => y.2 ≠ x).map Prod.snd = (l.map Prod.snd).filter fun y => y ≠ x := by
  rw [List.filter_map]
  congr 1

/-- What a change does to the nodes of a list, it does to their data. -/
theorem Edit.exec_yields (hops : ops.Correct) (e : Edit δ) (hl : IsList h list l) :
    ∃ l', Yields (e.exec ops list) h (addrs l) l' ∧ l'.map Prod.snd = e.apply (l.map Prod.snd) ∧
      ∀ y ∈ e.removed l, y.1 ∈ addrs l ∧ y.1 ∉ addrs l' := by
  have hnone : ∀ l' : List (Nat × δ), ∀ y ∈ ([] : List (Nat × δ)), y.1 ∈ addrs l ∧ y.1 ∉ addrs l' :=
    fun l' y hy => absurd hy List.not_mem_nil
  cases e with
  | append x =>
      obtain ⟨a, hyields⟩ := hops.append x hl
      exact ⟨_, hyields, List.map_append, hnone _⟩
  | prepend x =>
      obtain ⟨a, hyields⟩ := hops.prepend x hl
      exact ⟨_, hyields, rfl, hnone _⟩
  | insert x position =>
      obtain ⟨a, hyields⟩ := hops.insert x position hl
      exact ⟨_, hyields, map_insertAt Prod.snd position (a, x) l, hnone _⟩
  | insertBefore k x =>
      have hnth := listNth_run hl.seg k
      rw [← hl.head_eq] at hnth
      rw [← List.take_append_drop k l] at hl
      obtain ⟨a, hyields⟩ := hops.insertBefore x hl
      rw [List.take_append_drop] at hyields
      refine ⟨_, hyields.after (Exchanges.refl h _) (run_bind hnth _), ?_, hnone _⟩
      rw [List.map_append, List.map_cons, List.map_take, List.map_drop]
      rfl
  | insertSorted x func =>
      obtain ⟨a, hyields⟩ := hops.insertSorted x func.compare hl
      exact ⟨_, hyields, map_orderedInsert_inOrder a x l, hnone _⟩
  | remove x =>
      refine ⟨_, hops.remove x hl, map_eraseP_data l x, apart_of_perm hl ?_⟩
      exact find?_append_eraseP _ l
  | removeAll x =>
      refine ⟨_, hops.removeAll x hl, map_filter_data l x, apart_of_perm hl ?_⟩
      have hsplit := List.filter_append_perm (fun y : Nat × δ => y.2 = x) l
      simp only [← decide_not] at hsplit
      exact hsplit
  | deleteLink k =>
      refine ⟨l.eraseIdx k, ?_, (List.eraseIdx_map Prod.snd l k).symm,
        apart_of_perm hl (getElem?_append_eraseIdx l k)⟩
      rcases listNth_cases hl k with ⟨hnth, _, hrest⟩ | ⟨pre, a, d, post, rfl, hnth, _, hrest⟩
      · rw [hrest]
        exact (hops.deleteLink_none hl).after (Exchanges.refl h _) (run_bind hnth _)
      · rw [hrest]
        exact (hops.deleteLink hl).after (Exchanges.refl h _) (run_bind hnth _)
  | reverse =>
      exact ⟨_, hops.reverse hl, List.map_reverse, hnone _⟩
  | sort func =>
      exact ⟨_, hops.sort _ func.preorder hl, map_insertionSort_inOrder l, hnone _⟩

/-- The step can be taken, and leaves well-formed lists. -/
def Op.Succeeds (ops : ListOps κ δ) (h : Heap κ) (heads : Nat → Ptr)
    (nodes : Nat → List (Nat × δ)) (op : Op δ) : Prop :=
  ∃ heads' h' nodes', (op.exec ops heads).run h = some (heads', h') ∧
    HoldLists h' heads' nodes' ∧ op.Follows h nodes nodes'

theorem Op.edit_succeeds (hops : ops.Correct) (hold : HoldLists h heads nodes) (i : Nat)
    (e : Edit δ) : (Op.edit i e).Succeeds ops h heads nodes := by
  obtain ⟨l', ⟨h', hrun, hl', hex⟩, hdata, hgone⟩ := e.exec_yields hops (hold.isList i)
  refine ⟨_, h', Function.update nodes i l', ?_, hold.update hex hl' ?_, ?_, ?_, ?_⟩
  · rw [Op.exec, run_bind hrun]
    rfl
  · exact fun j hj => hold.disjoint j i hj
  · rw [Function.comp_update, hdata]
    rfl
  · intro y hy j hmem
    obtain ⟨hbefore, hafter⟩ := hgone y hy
    by_cases hji : j = i
    · subst hji
      rw [Function.update_self] at hmem
      exact absurd hmem hafter
    · rw [Function.update_of_ne hji] at hmem
      exact absurd hmem (hold.disjoint i j (Ne.symm hji) hbefore)
  · intro j a hmem
    by_cases hji : j = i
    · subst hji
      rw [Function.update_self] at hmem
      exact or_iff_not_imp_left.mpr (fun hnot => Or.inl (hex.fresh a hmem hnot))
    · rw [Function.update_of_ne hji] at hmem
      exact Or.inl hmem

theorem Op.removeLink_succeeds (hops : ops.Correct) (hold : HoldLists h heads nodes)
    (i k j : Nat) (hij : i ≠ j) : (Op.removeLink i k j hij).Succeeds ops h heads nodes := by
  have hi := hold.isList i
  have hdata : List.map Prod.snd ∘ Function.update
      (Function.update nodes i ((nodes i).eraseIdx k)) j (nodes i)[k]?.toList =
      (Op.removeLink i k j hij).apply (List.map Prod.snd ∘ nodes) := by
    rw [Function.comp_update, Function.comp_update, ← List.eraseIdx_map, ← Option.toList_map,
      ← List.getElem?_map]
    rfl
  have hentered : ∀ m, ∀ a ∈ addrs (Function.update
      (Function.update nodes i ((nodes i).eraseIdx k)) j (nodes i)[k]?.toList m),
      a ∈ addrs (nodes m) ∨ h.lookup a = none ∨ some j = some m := by
    intro m a hmem
    by_cases hmj : m = j
    · exact Or.inr (Or.inr (congrArg some hmj.symm))
    · rw [Function.update_of_ne hmj] at hmem
      by_cases hmi : m = i
      · subst hmi
        rw [Function.update_self] at hmem
        exact Or.inl (((List.eraseIdx_sublist _ k).map Prod.fst).subset hmem)
      · rw [Function.update_of_ne hmi] at hmem
        exact Or.inl hmem
  have hothers : ∀ m, m ≠ i → m ≠ j → (addrs (nodes m)).Disjoint (addrs (nodes i)) :=
    fun m hmi _ => hold.disjoint m i hmi
  rcases listNth_cases hi k with ⟨hnth, hget, hrest⟩ | ⟨pre, a, d, post, hsplit, hnth, hget, hrest⟩
  · rw [hget, hrest] at hdata hentered
    refine ⟨_, h, _, ?_, hold.update₂ hij (Exchanges.refl h _) hi (IsList.nil h) ?_
      (List.disjoint_nil_right _) hothers, hdata, ?_, hentered⟩
    · rw [Op.exec, run_bind hnth, run_bind (hops.removeLink_none hi)]
      rfl
    · rintro a (ha | ha)
      · exact ha
      · cases ha
    · intro y hy
      rw [Op.removed, hget] at hy
      cases hy
  · rw [hsplit] at hi hothers
    obtain ⟨h', hrun, hl', ha, hex⟩ := hops.removeLink hi
    rw [hget, hrest] at hdata hentered
    have hnot := hi.not_mem_of_middle
    refine ⟨_, h', _, ?_, hold.update₂ hij hex hl' ha ?_ (List.disjoint_singleton.mpr hnot)
      hothers, hdata, ?_, hentered⟩
    · rw [Op.exec, run_bind hnth, run_bind hrun]
      rfl
    · rintro b (hb | hb)
      · exact List.mem_cons_of_mem a hb
      · exact List.mem_cons.mpr (Or.inl (List.mem_singleton.mp hb))
    · intro y hy m hmem
      rw [Op.removed, hget] at hy
      obtain rfl := List.mem_singleton.mp hy
      by_cases hmj : m = j
      · rw [hmj]
        rfl
      · rw [Function.update_of_ne hmj] at hmem
        by_cases hmi : m = i
        · rw [hmi, Function.update_self] at hmem
          exact absurd hmem hnot
        · rw [Function.update_of_ne hmi] at hmem
          exact absurd (by simp) (hothers m hmi hmj hmem)

theorem Op.concat_succeeds (hops : ops.Correct) (hold : HoldLists h heads nodes) (i j : Nat)
    (hij : i ≠ j) : (Op.concat i j hij).Succeeds ops h heads nodes := by
  obtain ⟨h', hrun, hl', hex⟩ :=
    hops.concat (hold.isList i) (hold.isList j) (hold.disjoint i j hij)
  refine ⟨_, h', Function.update (Function.update nodes i (nodes i ++ nodes j)) j [], ?_,
    hold.update₂ hij hex hl' (IsList.nil h') ?_ (List.disjoint_nil_right _) ?_, ?_, ?_, ?_⟩
  · rw [Op.exec, run_bind hrun]
    rfl
  · rintro a (ha | ha)
    · exact ha
    · cases ha
  · intro m hmi hmj
    exact List.disjoint_append_right.mpr ⟨hold.disjoint m i hmi, hold.disjoint m j hmj⟩
  · rw [Function.comp_update, Function.comp_update, List.map_append]
    rfl
  · exact fun y hy => absurd hy List.not_mem_nil
  · intro m a hmem
    by_cases hmj : m = j
    · rw [hmj, Function.update_self] at hmem
      cases hmem
    · rw [Function.update_of_ne hmj] at hmem
      by_cases hmi : m = i
      · exact Or.inr (Or.inr (congrArg some hmi.symm))
      · rw [Function.update_of_ne hmi] at hmem
        exact Or.inl hmem

theorem Op.copy_succeeds (hops : ops.Correct) (hold : HoldLists h heads nodes) (i j : Nat) :
    (Op.copy i j).Succeeds ops h heads nodes := by
  obtain ⟨m, hdata, h', hrun, hm, hex⟩ := hops.copy (hold.isList i)
  refine ⟨_, h', Function.update nodes j m, ?_, hold.update hex hm ?_, ?_, ?_, ?_⟩
  · rw [Op.exec, run_bind hrun]
    rfl
  · exact fun _ _ => List.disjoint_nil_right _
  · rw [Function.comp_update, hdata]
    rfl
  · exact fun y hy => absurd hy List.not_mem_nil
  · intro n a hmem
    by_cases hnj : n = j
    · rw [hnj, Function.update_self] at hmem
      exact Or.inr (Or.inl (hex.fresh a hmem List.not_mem_nil))
    · rw [Function.update_of_ne hnj] at hmem
      exact Or.inl hmem

/-- Every step can be taken from well-formed lists. -/
theorem Op.succeeds (hops : ops.Correct) (hold : HoldLists h heads nodes) (op : Op δ) :
    op.Succeeds ops h heads nodes := by
  cases op with
  | edit i e => exact Op.edit_succeeds hops hold i e
  | removeLink i k j hij => exact Op.removeLink_succeeds hops hold i k j hij
  | concat i j hij => exact Op.concat_succeeds hops hold i j hij
  | copy i j => exact Op.copy_succeeds hops hold i j

variable {s t : Lists κ}

theorem Lists.step_succeeds (hops : ops.Correct) (hold : HoldLists s.heap s.heads nodes)
    (op : Op δ) :
    ∃ t nodes', s.step ops op = some t ∧ HoldLists t.heap t.heads nodes' ∧
      op.Follows s.heap nodes nodes' := by
  obtain ⟨heads', h', nodes', hrun, hold', hfollows⟩ := op.succeeds hops hold
  refine ⟨⟨h', heads'⟩, nodes', ?_, hold', hfollows⟩
  rw [Lists.step, hrun]
  rfl

/-- Every run succeeds, and does to the data what it does to plain sequences. -/
theorem Lists.steps_succeed (hops : ops.Correct) (hold : HoldLists s.heap s.heads nodes)
    (es : List (Op δ)) :
    ∃ t nodes', steps (Lists.step ops) s es = some t ∧ HoldLists t.heap t.heads nodes' ∧
      List.map Prod.snd ∘ nodes' = es.foldl Op.apply (List.map Prod.snd ∘ nodes) := by
  induction es generalizing s nodes with
  | nil => exact ⟨s, nodes, rfl, hold, rfl⟩
  | cons op es ih =>
      obtain ⟨u, nodes₁, hstep, hold₁, hfollows⟩ := Lists.step_succeeds hops hold op
      obtain ⟨t, nodes₂, hsteps, hold₂, hdata⟩ := ih hold₁
      refine ⟨t, nodes₂, ?_, hold₂, ?_⟩
      · rw [steps, hstep, Option.bind_some, hsteps]
      · rw [hdata, hfollows.data, List.foldl_cons]

/-- One of the operations links the block `a` into the list `i`: it allocates the
block, or it moves it there from another list. -/
def LinksIn (ops : ListOps κ δ) (s : Lists κ) (es : List (Op δ)) (i a : Nat) : Prop :=
  ∃ es₁ op es₂ u v, es = es₁ ++ op :: es₂ ∧ steps (Lists.step ops) s es₁ = some u ∧
    u.step ops op = some v ∧ ¬Reachable u.heap (u.heads i) a ∧ Reachable v.heap (v.heads i) a ∧
    (u.heap.lookup a = none ∨ op.movesTo = some i)

theorem linksIn_of_reachable (hops : ops.Correct) (hold : HoldLists s.heap s.heads nodes)
    {es : List (Op δ)} {i a : Nat} (hsteps : steps (Lists.step ops) s es = some t)
    (hbefore : ¬Reachable s.heap (s.heads i) a) (hafter : Reachable t.heap (t.heads i) a) :
    LinksIn ops s es i a := by
  obtain ⟨es₁, op, es₂, u, v, hes, hsteps₁, hstep, hu, hv⟩ :=
    steps_becomes (p := fun s => Reachable s.heap (s.heads i) a) hsteps hbefore hafter
  refine ⟨es₁, op, es₂, u, v, hes, hsteps₁, hstep, hu, hv, ?_⟩
  obtain ⟨u', nodes₁, hsteps', hold₁, _⟩ := Lists.steps_succeed hops hold es₁
  obtain rfl := Option.some.inj (hsteps'.symm.trans hsteps₁)
  obtain ⟨v', nodes₂, hstep', hold₂, hfollows⟩ := Lists.step_succeeds hops hold₁ op
  obtain rfl := Option.some.inj (hstep'.symm.trans hstep)
  rw [(hold₁.isList i).reachable_iff] at hu
  rw [(hold₂.isList i).reachable_iff] at hv
  exact (hfollows.entered i a hv).resolve_left hu

end

/-- Each variable has a list that ends, and no two have a node in common; nothing
points out of a list, `next` and `prev` are inverse to each other, and following
the pointers leads to the nodes of the list and to no other. -/
structure WellFormed {δ : Type} (s : Lists (NDlist δ)) (nodes : Nat → List (Nat × δ)) : Prop where
  lists : HoldLists s.heap s.heads nodes
  linked : ∀ i, Linked s.heap (nodes i)
  reachable : ∀ i a, Reachable s.heap (s.heads i) a ↔ a ∈ addrs (nodes i)

section

variable {δ : Type}

theorem HoldLists.wellFormed {s : Lists (NDlist δ)} {nodes : Nat → List (Nat × δ)}
    (hold : HoldLists s.heap s.heads nodes) : WellFormed s nodes :=
  ⟨hold, fun i => IsList.linked (hold.isList i), fun i _ => (hold.isList i).reachable_iff⟩

variable [DecidableEq δ] [Zero δ]

/-- The doubly-linked list implements plain sequences. From empty variables every
run succeeds and leaves well-formed lists with the data of the sequences; and of
what any operation then takes out of a list, nothing is reachable at the end of
any run that goes on from there, but from the list that keeps it, or where a later
operation links its block in. -/
theorem dlist_runs_refine_sequences (al : Allocator (NDlist δ)) (h : Heap (NDlist δ))
    (es : List (Op δ)) :
    ∃ s nodes, steps (Lists.step (dlistOps al)) (Lists.start h) es = some s ∧
      WellFormed s nodes ∧ (∀ i, (nodes i).map Prod.snd = es.foldl Op.apply (fun _ => []) i) ∧
      ∀ op es', ∃ s' t, s.step (dlistOps al) op = some s' ∧
        steps (Lists.step (dlistOps al)) s' es' = some t ∧
        ∀ y ∈ op.removed nodes, ∀ i, Reachable t.heap (t.heads i) y.1 →
          op.keeps = some i ∨ LinksIn (dlistOps al) s' es' i y.1 := by
  have hops := dlistOps_correct al
  obtain ⟨s, nodes, hsteps, hold, hdata⟩ := Lists.steps_succeed hops
    (HoldLists.empty (Lists.start h).heap) es
  refine ⟨s, nodes, hsteps, HoldLists.wellFormed hold, fun i => congrFun hdata i, ?_⟩
  intro op es'
  obtain ⟨s', nodes', hstep, hold', hfollows⟩ := Lists.step_succeeds hops hold op
  obtain ⟨t, nodes'', hsteps', _⟩ := Lists.steps_succeed hops hold' es'
  refine ⟨s', t, hstep, hsteps', ?_⟩
  intro y hy i hreach
  by_cases hlinked : Reachable s'.heap (s'.heads i) y.1
  · left
    exact hfollows.removed y hy i ((hold'.isList i).reachable_iff.mp hlinked)
  · right
    exact linksIn_of_reachable hops hold' hsteps' hlinked hreach

end

end SqliteFs
