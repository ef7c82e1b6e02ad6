import SqliteFs.ListRuns

/-!
The singly- and the doubly-linked list side by side. Both are taken through the
same operations, each in a heap of its own, and hold the same data in the same
order, so that what is asked of one list is answered as it is of the other.
-/

namespace SqliteFs

open Lib Lib.Mem Lib.ListNode

section

variable {κ δ : Type} [ListNode κ δ] {h : Heap κ} {l : List (Nat × δ)} {p : Ptr}

/-- The data of the node behind a pointer, if there is one. -/
def dataAt (h : Heap κ) (p : Ptr) : Option δ :=
  p.bind fun a => (h.lookup a).map data

theorem dataAt_drop (hseg : Seg h p l none) (n : Nat) :
    dataAt h (firstPtr (l.drop n) none) = (l.map Prod.snd)[n]? := by
  have hget : l[n]? = (l.drop n).head? := List.head?_drop.symm
  rw [List.getElem?_map, hget]
  cases hdrop : l.drop n with
  | nil => rfl
  | cons y rest =>
      obtain ⟨a, d⟩ := y
      rw [← List.take_append_drop n l, seg_append, hdrop] at hseg
      rw [dataAt, firstPtr_cons, Option.bind_some, hseg.2.1, Option.map_some, data_node]
      rfl

end

/-- Two lists that both answer as the sequence `data`: `nth` gives a node with
the element there, or the null pointer behind the end, and `nth_data`, `index`
and `length` the element or `0`, its first position or -1, and the length, cut
to the widths of the C types. -/
structure SameAnswers {δ : Type} [DecidableEq δ] [Zero δ] (data : List δ) (h : Heap (NDlist δ))
    (dlist : Ptr) (h' : Heap (NSlist δ)) (slist : Ptr) : Prop where
  nth : ∀ n : UInt32, ∃ p q, (nDlistNth dlist n).run h = some (p, h) ∧
    (nSlistNth slist n).run h' = some (q, h') ∧ (p = none ↔ q = none) ∧
    dataAt h p = data[n.toNat]? ∧ dataAt h' q = data[n.toNat]?
  nthData : ∀ n : UInt32,
    (nDlistNthData dlist n).run h = some ((data[n.toNat]?).getD 0, h) ∧
    (nSlistNthData slist n).run h' = some ((data[n.toNat]?).getD 0, h')
  index : ∀ x, (nDlistIndex dlist x).run h = some ((data.idxOf? x).elim (-1) Int32.ofNat, h) ∧
    (nSlistIndex slist x).run h' = some ((data.idxOf? x).elim (-1) Int32.ofNat, h')
  length : (nDlistLength dlist).run h = some (UInt32.ofNat data.length, h) ∧
    (nSlistLength slist).run h' = some (UInt32.ofNat data.length, h')

section

variable {δ : Type} [DecidableEq δ] [Zero δ] {h : Heap (NDlist δ)} {h' : Heap (NSlist δ)}
  {dlist slist : Ptr} {l m : List (Nat × δ)}

/-- The walks see nothing of a list but its data. -/
theorem sameAnswers_of_data (hl : IsList h dlist l) (hm : IsList h' slist m)
    (hdata : l.map Prod.snd = m.map Prod.snd) :
    SameAnswers (l.map Prod.snd) h dlist h' slist := by
  have hlength : l.length = m.length := by
    rw [← List.length_map Prod.snd, hdata, List.length_map]
  obtain rfl := hl.head_eq
  obtain rfl := hm.head_eq
  constructor
  case nth =>
    intro n
    refine ⟨_, _, listNth_run hl.seg n.toNat, listNth_run hm.seg n.toNat, ?_,
      dataAt_drop hl.seg n.toNat, ?_⟩
    · rw [firstPtr_eq_none, firstPtr_eq_none, List.drop_eq_nil_iff, List.drop_eq_nil_iff, hlength]
    · rw [hdata]
      exact dataAt_drop hm.seg n.toNat
  case nthData =>
    intro n
    refine ⟨listNthData_run hl.seg n.toNat, ?_⟩
    rw [hdata]
    exact listNthData_run hm.seg n.toNat
  case index =>
    intro x
    refine ⟨listIndex_run hl.seg hl.nodup x, ?_⟩
    rw [hdata]
    exact listIndex_run hm.seg hm.nodup x
  case length =>
    rw [List.length_map]
    refine ⟨listLength_run hl.seg hl.nodup, ?_⟩
    rw [hlength]
    exact listLength_run hm.seg hm.nodup

/-- A run of the same operations on both kinds of list, from empty variables,
succeeds on both, and leaves them with the same data and the answers of the data. -/
theorem slist_runs_agree_with_dlist (al : Allocator (NDlist δ)) (al' : Allocator (NSlist δ))
    (h : Heap (NDlist δ)) (h' : Heap (NSlist δ)) (es : List (Op δ)) :
    ∃ s t nodes nodes', steps (Lists.step (dlistOps al)) (Lists.start h) es = some s ∧
      steps (Lists.step (slistOps al')) (Lists.start h') es = some t ∧
      HoldLists s.heap s.heads nodes ∧ HoldLists t.heap t.heads nodes' ∧
      ∀ i, (nodes i).map Prod.snd = (nodes' i).map Prod.snd ∧
        SameAnswers ((nodes i).map Prod.snd) s.heap (s.heads i) t.heap (t.heads i) := by
  obtain ⟨s, nodes, hsteps, hold, hdata⟩ := Lists.steps_succeed (dlistOps_correct al)
    (HoldLists.empty (Lists.start h).heap) es
  obtain ⟨t, nodes', hsteps', hold', hdata'⟩ := Lists.steps_succeed (slistOps_correct al')
    (HoldLists.empty (Lists.start h').heap) es
  refine ⟨s, t, nodes, nodes', hsteps, hsteps', hold, hold', ?_⟩
  intro i
  have hsame : (nodes i).map Prod.snd = (nodes' i).map Prod.snd :=
    congrFun (hdata.trans hdata'.symm) i
  exact ⟨hsame, sameAnswers_of_data (hold.isList i) (hold'.isList i) hsame⟩

end

end SqliteFs
