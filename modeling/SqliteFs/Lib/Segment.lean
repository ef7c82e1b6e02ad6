import SqliteFs.Lib.Heap

/-!
Linked lists in a heap, with or without pointers back. A list is described by
the addresses of its nodes and the data they hold; `Seg` says that a heap holds
such a list between two pointers, and `IsList` that it holds a whole one. A node
type without a `prev` field ignores that pointer, so that both kinds of list
share what is proved here.
-/

namespace SqliteFs.Lib

/-- The nodes of a linked list: `node` lays out the data, the next and the
previous pointer. -/
class ListNode (κ : Type) (δ : outParam Type) where
  node : δ → Ptr → Ptr → κ
  data : κ → δ
  next : κ → Ptr
  setNext : Ptr → κ → κ
  setPrev : Ptr → κ → κ
  data_node : ∀ d n p, data (node d n p) = d
  next_node : ∀ d n p, next (node d n p) = n
  setNext_node : ∀ d n p n', setNext n' (node d n p) = node d n' p
  setPrev_node : ∀ d n p p', setPrev p' (node d n p) = node d n p'

attribute [simp] ListNode.data_node ListNode.next_node ListNode.setNext_node
  ListNode.setPrev_node

open ListNode

section

variable {δ : Type}

/-- The address of the first node, or what stands behind the list. -/
def firstPtr : List (Nat × δ) → Ptr → Ptr
  | [], n => n
  | (a, _) :: _, _ => some a

/-- The address of the last node, or what stands in front of the list. -/
def lastPtr : Ptr → List (Nat × δ) → Ptr
  | p, [] => p
  | _, (a, _) :: l => lastPtr (some a) l

def addrs (l : List (Nat × δ)) : List Nat := l.map Prod.fst

variable {l m : List (Nat × δ)} {n p : Ptr} {a : Nat} {d : δ}

@[simp] theorem firstPtr_nil : firstPtr ([] : List (Nat × δ)) n = n := rfl

@[simp] theorem firstPtr_cons : firstPtr ((a, d) :: l) n = some a := rfl

@[simp] theorem firstPtr_append : firstPtr (l ++ m) n = firstPtr l (firstPtr m n) := by
  cases l with
  | nil => rfl
  | cons x l => rfl

@[simp] theorem lastPtr_nil : lastPtr p ([] : List (Nat × δ)) = p := rfl

@[simp] theorem lastPtr_cons : lastPtr p ((a, d) :: l) = lastPtr (some a) l := rfl

@[simp] theorem lastPtr_append : lastPtr p (l ++ m) = lastPtr (lastPtr p l) m := by
  induction l generalizing p with
  | nil => rfl
  | cons x l ih => exact ih

@[simp] theorem addrs_nil : addrs ([] : List (Nat × δ)) = [] := rfl

@[simp] theorem addrs_cons : addrs ((a, d) :: l) = a :: addrs l := rfl

@[simp] theorem addrs_append : addrs (l ++ m) = addrs l ++ addrs m := List.map_append

theorem perm_addrs_middle : (addrs (l ++ (a, d) :: m)).Perm (a :: addrs (l ++ m)) := by
  simp [List.perm_middle]

@[simp] theorem length_addrs : (addrs l).length = l.length := List.length_map _

@[simp] theorem firstPtr_some_ne_none : firstPtr l (some a) ≠ none := by
  cases l with
  | nil => exact Option.some_ne_none a
  | cons x l => exact Option.some_ne_none x.1

theorem firstPtr_eq_none : firstPtr l none = none ↔ l = [] := by
  cases l with
  | nil => simp
  | cons x l => simp [firstPtr]

end

section

variable {κ δ : Type} [ListNode κ δ]

/-- The heap holds the nodes `l`, entered from `p` and left to `n`. -/
def Seg (h : Heap κ) : Ptr → List (Nat × δ) → Ptr → Prop
  | _, [], _ => True
  | p, (a, d) :: l, n => h.lookup a = some (node d (firstPtr l n) p) ∧ Seg h (some a) l n

/-- The heap holds the list `l`, which starts at `head` and ends in the null
pointer, and no node occurs in it twice. -/
structure IsList (h : Heap κ) (head : Ptr) (l : List (Nat × δ)) : Prop where
  head_eq : head = firstPtr l none
  seg : Seg h none l none
  nodup : (addrs l).Nodup

/-- The nodes that following the `next` pointers leads to. -/
inductive Reachable (h : Heap κ) : Ptr → Nat → Prop
  | head (a : Nat) : Reachable h (some a) a
  | next {a b : Nat} {c : κ} : h.lookup a = some c → Reachable h (ListNode.next c) b →
      Reachable h (some a) b

variable {h h' : Heap κ} {l m pre post : List (Nat × δ)} {n n' p p' head : Ptr} {a : Nat}
  {d : δ} {c : κ} {S S' : List Nat}

@[simp] theorem seg_nil : Seg h p ([] : List (Nat × δ)) n := trivial

@[simp] theorem seg_cons : Seg h p ((a, d) :: l) n ↔
    h.lookup a = some (node d (firstPtr l n) p) ∧ Seg h (some a) l n := Iff.rfl

@[simp] theorem seg_append :
    Seg h p (l ++ m) n ↔ Seg h p l (firstPtr m n) ∧ Seg h (lastPtr p l) m n := by
  induction l generalizing p with
  | nil => simp
  | cons x l ih =>
      obtain ⟨a, d⟩ := x
      simp only [List.cons_append, seg_cons, firstPtr_append, ih, lastPtr_cons, and_assoc]

theorem Seg.frame (hseg : Seg h p l n) (hsame : ∀ b ∈ addrs l, h'.lookup b = h.lookup b) :
    Seg h' p l n := by
  induction l generalizing p with
  | nil => trivial
  | cons x l ih =>
      obtain ⟨a, d⟩ := x
      constructor
      · exact (hsame a List.mem_cons_self).trans hseg.1
      · exact ih hseg.2 (fun b hb => hsame b (List.mem_cons_of_mem a hb))

theorem Seg.insert (hseg : Seg h p l n) (ha : a ∉ addrs l) (c : κ) :
    Seg (Finmap.insert a c h) p l n :=
  hseg.frame fun _ hb => Finmap.lookup_insert_of_ne h (ne_of_mem_of_not_mem hb ha)

theorem Seg.erase (hseg : Seg h p l n) (ha : a ∉ addrs l) : Seg (Finmap.erase a h) p l n :=
  hseg.frame fun _ hb => Finmap.lookup_erase_ne (ne_of_mem_of_not_mem hb ha)

theorem Seg.lookup_mem (hseg : Seg h p l n) (ha : a ∈ addrs l) : ∃ c, h.lookup a = some c := by
  induction l generalizing p with
  | nil => cases ha
  | cons x l ih =>
      obtain ⟨b, d⟩ := x
      rcases List.mem_cons.mp ha with rfl | ha
      · exact ⟨_, hseg.1⟩
      · exact ih hseg.2 ha

theorem Seg.live (hseg : Seg h p l n) (ha : a ∈ addrs l) : a ∈ h :=
  Finmap.mem_iff.mpr (hseg.lookup_mem ha)

/-- A block that is not live is in no list. -/
theorem Seg.not_mem_of_dead (hseg : Seg h p l n) (ha : h.lookup a = none) : a ∉ addrs l :=
  fun hmem => Finmap.lookup_eq_none.mp ha (hseg.live hmem)

/-- Nodes that a program was not handed stay where they are. -/
theorem Seg.exchange (hseg : Seg h p l n) (hex : Exchanges h S h' S')
    (hdisj : ∀ b ∈ addrs l, b ∉ S) : Seg h' p l n := by
  apply hseg.frame
  intro b hb
  obtain ⟨c, hc⟩ := hseg.lookup_mem hb
  rw [hc]
  exact hex.lookup_eq (hdisj b hb) hc

/-- The last node may be linked to what else stands behind. -/
theorem Seg.relinkNext (hseg : Seg h p l n) (hnodup : (addrs l).Nodup)
    (hlast : ∀ front b d, l = front ++ [(b, d)] →
      h'.lookup b = some (node d n' (lastPtr p front)))
    (hsame : ∀ b ∈ addrs l, lastPtr none l ≠ some b → h'.lookup b = h.lookup b) :
    Seg h' p l n' := by
  rcases List.eq_nil_or_concat l with rfl | ⟨l, ⟨a, d⟩, rfl⟩
  · trivial
  · rw [List.concat_eq_append] at *
    rw [seg_append] at hseg ⊢
    rw [addrs_append, List.nodup_append] at hnodup
    simp only [lastPtr_append, lastPtr_cons, lastPtr_nil, addrs_append] at hsame
    constructor
    · apply hseg.1.frame
      intro b hb
      have hne : b ≠ a := hnodup.2.2 b hb a List.mem_cons_self
      apply hsame b (List.mem_append_left _ hb)
      exact fun heq => hne (Option.some.inj heq).symm
    · exact ⟨hlast l a d rfl, trivial⟩

/-- The first node may be linked to what else stands in front. -/
theorem Seg.relinkPrev (hseg : Seg h p l n) (hnodup : (addrs l).Nodup)
    (hfirst : ∀ b d rest, l = (b, d) :: rest →
      h'.lookup b = some (node d (firstPtr rest n) p'))
    (hsame : ∀ b ∈ addrs l, firstPtr l none ≠ some b → h'.lookup b = h.lookup b) :
    Seg h' p' l n := by
  cases l with
  | nil => trivial
  | cons x l =>
      obtain ⟨a, d⟩ := x
      rw [addrs_cons, List.nodup_cons] at hnodup
      constructor
      · exact hfirst a d l rfl
      · apply hseg.2.frame
        intro b hb
        apply hsame b (List.mem_cons_of_mem a hb)
        exact fun heq => hnodup.1 (Option.some.inj heq ▸ hb)

theorem Seg.length_le (hseg : Seg h p l n) (hnodup : (addrs l).Nodup) :
    l.length ≤ h.keys.card := by
  rw [← length_addrs]
  exact length_le_card hnodup (fun _ ha => hseg.live ha)

theorem length_append_le (hl : Seg h p l n) (hm : Seg h p' m n')
    (hnodup : (addrs (l ++ m)).Nodup) : (l ++ m).length ≤ h.keys.card := by
  rw [← length_addrs]
  apply length_le_card hnodup
  intro b hb
  rw [addrs_append] at hb
  rcases List.mem_append.mp hb with hb | hb
  · exact hl.live hb
  · exact hm.live hb

namespace IsList

theorem nil (h : Heap κ) : IsList h none ([] : List (Nat × δ)) :=
  ⟨rfl, trivial, List.nodup_nil⟩

/-- A node that stands alone. -/
theorem alone (ha : h.lookup a = some (node d none none)) : IsList h (some a) [(a, d)] :=
  ⟨rfl, ⟨ha, trivial⟩, List.nodup_singleton a⟩

theorem live (hl : IsList h head l) (ha : a ∈ addrs l) : a ∈ h := hl.seg.live ha

theorem length_le (hl : IsList h head l) : l.length ≤ h.keys.card := hl.seg.length_le hl.nodup

/-- A walk that has passed the whole list has steps left. -/
theorem exists_fuel (hl : IsList h head l) :
    ∃ fuel, h.keys.card + 1 = l.length + (fuel + 1) := by
  obtain ⟨fuel, hfuel⟩ := Nat.exists_eq_add_of_le hl.length_le
  exact ⟨fuel, by rw [hfuel, Nat.add_assoc]⟩

/-- A walk that has passed the nodes `pre` has steps left. -/
theorem exists_fuel_front (hl : IsList h head (pre ++ post)) :
    ∃ fuel, h.keys.card + 1 = pre.length + (fuel + 1) := by
  obtain ⟨fuel, hfuel⟩ := hl.exists_fuel
  refine ⟨post.length + fuel, ?_⟩
  rw [hfuel, List.length_append]
  omega

theorem exchange (hl : IsList h head l) (hex : Exchanges h S h' S')
    (hdisj : ∀ b ∈ addrs l, b ∉ S) : IsList h' head l :=
  ⟨hl.head_eq, hl.seg.exchange hex hdisj, hl.nodup⟩

theorem insert (hl : IsList h head l) (ha : a ∉ addrs l) (c : κ) :
    IsList (Finmap.insert a c h) head l :=
  ⟨hl.head_eq, hl.seg.insert ha c, hl.nodup⟩

theorem erase (hl : IsList h head l) (ha : a ∉ addrs l) : IsList (Finmap.erase a h) head l :=
  ⟨hl.head_eq, hl.seg.erase ha, hl.nodup⟩

theorem not_mem_of_middle (hl : IsList h head (pre ++ (a, d) :: post)) :
    a ∉ addrs (pre ++ post) := by
  exact (List.nodup_cons.mp (perm_addrs_middle.nodup_iff.mp hl.nodup)).1

/-- The two sides of a place have no node in common. -/
theorem ne_of_split (hl : IsList h head l) (hsplit : l = pre ++ post) {b : Nat}
    (ha : a ∈ addrs pre) (hb : b ∈ addrs post) : a ≠ b := by
  have hnodup := hl.nodup
  rw [hsplit, addrs_append, List.nodup_append] at hnodup
  exact hnodup.2.2 a ha b hb

end IsList

theorem lastPtr_mem {b : Nat} (hb : lastPtr none l = some b) : b ∈ addrs l := by
  rcases List.eq_nil_or_concat l with rfl | ⟨l, ⟨a, d⟩, rfl⟩
  · cases hb
  · simp only [List.concat_eq_append, lastPtr_append, lastPtr_cons, lastPtr_nil,
      Option.some.injEq] at hb
    simp [hb]

theorem firstPtr_mem {b : Nat} (hb : firstPtr l none = some b) : b ∈ addrs l := by
  cases l with
  | nil => cases hb
  | cons x l =>
      obtain rfl := Option.some.inj hb
      exact List.mem_cons_self

/-- A list does not start at a node that has another one in front. -/
theorem firstPtr_ne {b : Nat} {e : δ} (hl : IsList h head (pre ++ [(b, e)] ++ (a, d) :: post)) :
    firstPtr pre (some b) ≠ some a := by
  intro heq
  have hmem : a ∈ addrs (pre ++ [(b, e)]) := by
    apply firstPtr_mem
    rw [firstPtr_append, firstPtr_cons, heq]
  exact hl.ne_of_split rfl hmem List.mem_cons_self rfl

/-- Link the node `last` to what follows it now and the node `first` to what
precedes it. -/
def relink (last first n p : Ptr) (h : Heap κ) : Heap κ :=
  alter first (setPrev p) (alter last (setNext n) h)

theorem lookup_relink {last first n p : Ptr} {b : Nat} (hlast : last ≠ some b)
    (hfirst : first ≠ some b) : (relink last first n p h).lookup b = h.lookup b := by
  rw [relink, lookup_alter_of_ne hfirst, lookup_alter_of_ne hlast]

theorem Seg.relink (hpre : Seg h none pre n') (hpost : Seg h p' post none)
    (hnodup : (addrs (pre ++ post)).Nodup) (n p : Ptr) :
    Seg (relink (lastPtr none pre) (firstPtr post none) n p h) none pre n ∧
      Seg (relink (lastPtr none pre) (firstPtr post none) n p h) p post none := by
  rw [addrs_append] at hnodup
  have hdisj := List.disjoint_of_nodup_append hnodup
  constructor
  · apply hpre.relinkNext hnodup.of_append_left
    · rintro front b d rfl
      have hb := (seg_append.mp hpre).2.1
      have hfirst : firstPtr post none ≠ some b := by
        intro hfirst
        refine hdisj ?_ (firstPtr_mem hfirst)
        simp
      rw [Lib.relink, lookup_alter_of_ne hfirst, lastPtr_append, lastPtr_cons, lastPtr_nil,
        lookup_alter hb, setNext_node]
    · intro b hb hlast
      exact lookup_relink hlast (fun hfirst => hdisj hb (firstPtr_mem hfirst))
  · apply hpost.relinkPrev hnodup.of_append_right
    · rintro b d rest rfl
      have hlast : lastPtr none pre ≠ some b :=
        fun hlast => hdisj (lastPtr_mem hlast) List.mem_cons_self
      have hb := (lookup_alter_of_ne hlast (setNext n)).trans hpost.1
      rw [Lib.relink, firstPtr_cons, lookup_alter hb, setPrev_node]
    · intro b hb hfirst
      exact lookup_relink (fun hlast => hdisj (lastPtr_mem hlast) hb) hfirst

/-- The heap with a node at `a` linked in between `last` and `first`. -/
def linkedIn (a : Nat) (d : δ) (last first : Ptr) (h : Heap κ) : Heap κ :=
  relink last first (some a) (some a) (Finmap.insert a (node d first last) h)

/-- The first node behind `pre` may be moved in front of it. -/
theorem nodup_movedFront (hnodup : (addrs (pre ++ (a, d) :: post)).Nodup) :
    (addrs ((a, d) :: pre ++ post)).Nodup ∧ a ∉ addrs pre ∧ a ∉ addrs post := by
  have hcons := perm_addrs_middle.nodup_iff.mp hnodup
  have hnot := (List.nodup_cons.mp hcons).1
  rw [addrs_append, List.mem_append, not_or] at hnot
  exact ⟨hcons, hnot⟩

omit [ListNode κ δ] in
/-- That only writes to the node. -/
theorem exchanges_movedFront (c : κ) : Exchanges h (addrs (pre ++ (a, d) :: post))
    (h.insert a c) (addrs ((a, d) :: pre ++ post)) :=
  (Exchanges.insert (perm_addrs_middle.mem_iff.mpr List.mem_cons_self) c).congr
    (fun _ => Iff.rfl) (fun _ => perm_addrs_middle.mem_iff)

/-- A node linked in between `pre` and `post`. -/
theorem IsList.linkedIn (hl : IsList h head (pre ++ post)) (ha : h.lookup a = none) (d : δ) :
    IsList (linkedIn a d (lastPtr none pre) (firstPtr post none) h) (firstPtr pre (some a))
        (pre ++ (a, d) :: post) ∧
      Exchanges h (addrs (pre ++ post)) (linkedIn a d (lastPtr none pre) (firstPtr post none) h)
        (addrs (pre ++ (a, d) :: post)) := by
  have hnot := hl.seg.not_mem_of_dead ha
  have hseg := seg_append.mp hl.seg
  rw [addrs_append, List.mem_append, not_or] at hnot
  have hlink := fun c => (hseg.1.insert hnot.1 c).relink (hseg.2.insert hnot.2 c) hl.nodup
    (some a) (some a)
  have hlast : lastPtr none pre ≠ some a := fun hlast => hnot.1 (lastPtr_mem hlast)
  have hfirst : firstPtr post none ≠ some a := fun hfirst => hnot.2 (firstPtr_mem hfirst)
  constructor
  · constructor
    · rw [firstPtr_append, firstPtr_cons]
    · rw [seg_append]
      refine ⟨(hlink _).1, ?_, (hlink _).2⟩
      rw [Lib.linkedIn, lookup_relink hlast hfirst, Finmap.lookup_insert]
    · rw [perm_addrs_middle.nodup_iff, List.nodup_cons, addrs_append, List.mem_append, not_or,
        ← addrs_append]
      exact ⟨hnot, hl.nodup⟩
  · have hshape : ∀ b, b ∉ addrs (pre ++ post) → b ≠ a →
        (Lib.linkedIn a d (lastPtr none pre) (firstPtr post none) h).lookup b = h.lookup b := by
      intro b hb hne
      rw [addrs_append, List.mem_append, not_or] at hb
      rw [Lib.linkedIn, lookup_relink (fun hlast => hb.1 (lastPtr_mem hlast))
        (fun hfirst => hb.2 (firstPtr_mem hfirst)), Finmap.lookup_insert_of_ne h hne]
    constructor
    case frame =>
      intro b hb hb'
      rw [perm_addrs_middle.mem_iff, List.mem_cons, not_or] at hb'
      exact hshape b hb hb'.1
    case fresh =>
      intro b hb' hb
      rcases List.mem_cons.mp (perm_addrs_middle.mem_iff.mp hb') with rfl | hb'
      · exact ha
      · exact absurd hb' hb
    case freed =>
      intro b hb hb'
      exact absurd (perm_addrs_middle.mem_iff.mpr (List.mem_cons_of_mem a hb)) hb'

/-- The heap with what stands between `last` and `first` taken out of the list. -/
def takenOut (last first : Ptr) (h : Heap κ) : Heap κ := relink last first first last h

/-- A node taken out from between `pre` and `post`; its block is not touched. -/
theorem IsList.takenOut (hl : IsList h head (pre ++ (a, d) :: post)) :
    IsList (takenOut (lastPtr none pre) (firstPtr post none) h)
        (firstPtr pre (firstPtr post none)) (pre ++ post) ∧
      Exchanges h (addrs (pre ++ (a, d) :: post))
        (takenOut (lastPtr none pre) (firstPtr post none) h) (a :: addrs (pre ++ post)) ∧
      (takenOut (lastPtr none pre) (firstPtr post none) h).lookup a = h.lookup a := by
  have hnodup := List.nodup_cons.mp (perm_addrs_middle.nodup_iff.mp hl.nodup)
  have hnot := hnodup.1
  rw [addrs_append, List.mem_append, not_or] at hnot
  have hseg := seg_append.mp hl.seg
  have hlink := hseg.1.relink hseg.2.2 hnodup.2 (firstPtr post none) (lastPtr none pre)
  refine ⟨⟨firstPtr_append.symm, seg_append.mpr hlink, hnodup.2⟩, ?_, ?_⟩
  · constructor
    case frame =>
      intro b _ hb
      rw [List.mem_cons, not_or, addrs_append, List.mem_append, not_or] at hb
      exact lookup_relink (fun hlast => hb.2.1 (lastPtr_mem hlast))
        (fun hfirst => hb.2.2 (firstPtr_mem hfirst))
    case fresh =>
      intro b hb' hb
      exact absurd (perm_addrs_middle.mem_iff.mpr hb') hb
    case freed =>
      intro b hb hb'
      exact absurd (perm_addrs_middle.mem_iff.mp hb) hb'
  · exact lookup_relink (fun hlast => hnot.1 (lastPtr_mem hlast))
      (fun hfirst => hnot.2 (firstPtr_mem hfirst))

/-- The node is freed besides. -/
theorem IsList.deleted (hl : IsList h head (pre ++ (a, d) :: post)) :
    IsList (Finmap.erase a (Lib.takenOut (lastPtr none pre) (firstPtr post none) h))
        (firstPtr (pre ++ post) none) (pre ++ post) ∧
      Exchanges h (addrs (pre ++ (a, d) :: post))
        (Finmap.erase a (Lib.takenOut (lastPtr none pre) (firstPtr post none) h))
        (addrs (pre ++ post)) := by
  obtain ⟨hlist, hex, -⟩ := hl.takenOut
  have hnot := hl.not_mem_of_middle
  rw [firstPtr_append]
  exact ⟨hlist.erase hnot, hex.trans (Exchanges.erase hnot)⟩

/-- The heap with a second list linked to the end of a first one. -/
def joined (last first : Ptr) (h : Heap κ) : Heap κ := relink last first first last h

theorem IsList.joined {head' : Ptr} (hl : IsList h head l) (hm : IsList h head' m)
    (hdisj : (addrs l).Disjoint (addrs m)) :
    IsList (joined (lastPtr none l) (firstPtr m none) h) (firstPtr (l ++ m) none) (l ++ m) ∧
      Exchanges h (addrs l ++ addrs m) (joined (lastPtr none l) (firstPtr m none) h)
        (addrs (l ++ m)) := by
  have hnodup : (addrs (l ++ m)).Nodup := by
    rw [addrs_append]
    exact hl.nodup.append hm.nodup hdisj
  constructor
  · exact ⟨rfl, seg_append.mpr (hl.seg.relink hm.seg hnodup _ _), hnodup⟩
  · rw [← addrs_append]
    constructor
    case frame =>
      intro b hb _
      rw [addrs_append, List.mem_append, not_or] at hb
      exact lookup_relink (fun hlast => hb.1 (lastPtr_mem hlast))
        (fun hfirst => hb.2 (firstPtr_mem hfirst))
    case fresh =>
      intro b hb hnot
      exact absurd hb hnot
    case freed =>
      intro b hb hnot
      exact absurd hb hnot

/-- A program that returns the start of the list `l'`, whose nodes have taken
the place of the blocks `S`. -/
def Yields (prog : Mem κ Ptr) (h : Heap κ) (S : List Nat) (l' : List (Nat × δ)) : Prop :=
  ∃ h', prog.run h = some (firstPtr l' none, h') ∧ IsList h' (firstPtr l' none) l' ∧
    Exchanges h S h' (addrs l')

/-- A program that first turns the blocks `S` into `S'` and then goes on. -/
theorem Yields.after {prog prog' : Mem κ Ptr} (hyields : Yields prog' h' S' l)
    (hex : Exchanges h S h' S') (hrun : prog.run h = prog'.run h') : Yields prog h S l := by
  obtain ⟨h'', hrun', hlist, hex'⟩ := hyields
  exact ⟨h'', hrun.trans hrun', hlist, hex.trans hex'⟩

theorem Yields.of_linkedIn {prog : Mem κ Ptr} (hl : IsList h head (pre ++ post))
    (ha : h.lookup a = none)
    (hrun : prog.run h = some (firstPtr pre (some a),
      linkedIn a d (lastPtr none pre) (firstPtr post none) h)) :
    Yields prog h (addrs (pre ++ post)) (pre ++ (a, d) :: post) := by
  obtain ⟨hlist, hex⟩ := hl.linkedIn ha d
  have hhead : firstPtr (pre ++ (a, d) :: post) none = firstPtr pre (some a) := by
    rw [firstPtr_append, firstPtr_cons]
  rw [Yields, hhead]
  exact ⟨_, hrun, hlist, hex⟩

/-- Following the pointers from the first node leads to the nodes of the list. -/
theorem Seg.reachable_iff (hseg : Seg h p l none) :
    Reachable h (firstPtr l none) a ↔ a ∈ addrs l := by
  induction l generalizing p with
  | nil =>
      constructor
      · intro hreach
        cases hreach
      · intro hmem
        cases hmem
  | cons x l ih =>
      obtain ⟨b, d⟩ := x
      constructor
      · intro hreach
        cases hreach with
        | head => exact List.mem_cons_self
        | next hc hrest =>
            rw [hseg.1, Option.some.injEq] at hc
            rw [← hc, next_node] at hrest
            exact List.mem_cons_of_mem b ((ih hseg.2).mp hrest)
      · intro hmem
        rcases List.mem_cons.mp hmem with rfl | hmem
        · exact .head a
        · apply Reachable.next hseg.1
          rw [next_node]
          exact (ih hseg.2).mpr hmem

theorem IsList.reachable_iff (hl : IsList h head l) : Reachable h head a ↔ a ∈ addrs l := by
  rw [hl.head_eq]
  exact hl.seg.reachable_iff

end

end SqliteFs.Lib
