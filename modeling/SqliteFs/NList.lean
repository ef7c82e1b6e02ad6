import SqliteFs.Lib.Segment

/-!
The nodes of the two list types and the walks over them. `n_dlist_last` and
`n_slist_last`, and so `nth`, `nth_data`, `index` and `length`, are the same text
for both types; each is written once here and keeps its two names. A walk is
given more steps than there are live blocks, so that only one that goes in
circles runs out of them, and then it fails.
-/

namespace SqliteFs

open Lib Lib.Mem Lib.ListNode

/-- An `n_dlist_t`. -/
structure NDlist (δ : Type) where
  data : δ
  next : Ptr
  prev : Ptr

/-- An `n_slist_t`. -/
structure NSlist (δ : Type) where
  data : δ
  next : Ptr

section

variable {δ : Type}

instance : ListNode (NDlist δ) δ where
  node := NDlist.mk
  data := NDlist.data
  next := NDlist.next
  setNext := fun n node => { node with next := n }
  setPrev := fun p node => { node with prev := p }
  data_node := fun _ _ _ => rfl
  next_node := fun _ _ _ => rfl
  setNext_node := fun _ _ _ _ => rfl
  setPrev_node := fun _ _ _ _ => rfl

instance : ListNode (NSlist δ) δ where
  node := fun d n _ => ⟨d, n⟩
  data := NSlist.data
  next := NSlist.next
  setNext := fun n node => { node with next := n }
  setPrev := fun _ node => node
  data_node := fun _ _ _ => rfl
  next_node := fun _ _ _ => rfl
  setNext_node := fun _ _ _ _ => rfl
  setPrev_node := fun _ _ _ _ => rfl

@[simp] theorem dlist_node (d : δ) (n p : Ptr) : (node d n p : NDlist δ) = ⟨d, n, p⟩ := rfl

@[simp] theorem dlist_setNext (n : Ptr) (c : NDlist δ) : setNext n c = { c with next := n } := rfl

@[simp] theorem dlist_setPrev (p : Ptr) (c : NDlist δ) : setPrev p c = { c with prev := p } := rfl

@[simp] theorem slist_setNext (n : Ptr) (c : NSlist δ) : setNext n c = { c with next := n } := rfl

@[simp] theorem slist_setPrev (p : Ptr) (c : NSlist δ) : setPrev p c = c := rfl

/-- There is no pointer back to set. -/
@[simp] theorem slist_relink (last first n p : Ptr) (h : Heap (NSlist δ)) :
    relink last first n p h = alter last (setNext n) h :=
  alter_id (slist_setPrev p) first _

theorem slist_seg_prev {h : Heap (NSlist δ)} {l : List (Nat × δ)} {p n : Ptr}
    (hseg : Seg h p l n) (q : Ptr) : Seg h q l n := by
  cases l with
  | nil => trivial
  | cons y l => exact hseg

@[simp] theorem slist_node (d : δ) (n p : Ptr) : (node d n p : NSlist δ) = ⟨d, n⟩ := rfl

end

section

variable {κ δ : Type} [ListNode κ δ]

def lastLoop : Nat → Ptr → Mem κ Ptr
  | 0, _ => failure
  | fuel + 1, list => do
    let node ← load list
    if next node = none then return list
    else lastLoop fuel (next node)

def listLast (list : Ptr) : Mem κ Ptr := do
  let fuel ← blocks
  if list = none then return list
  else lastLoop fuel list

/-- `n` counts down, and the walk stops at the null pointer before it reads on. -/
def listNth : Nat → Ptr → Mem κ Ptr
  | 0, list => return list
  | n + 1, list =>
    if list = none then return list
    else do
      let node ← load list
      listNth n (next node)

/-- The data behind the last node is the null pointer, `0`. -/
def listNthData [Zero δ] (list : Ptr) (n : Nat) : Mem κ δ := do
  let list ← listNth n list
  if list = none then return 0
  else
    let node ← load list
    return data node

def indexLoop [DecidableEq δ] (x : δ) : Nat → Int32 → Ptr → Mem κ Int32
  | 0, _, _ => failure
  | fuel + 1, i, list =>
    if list = none then return -1
    else do
      let node ← load list
      if data node = x then return i
      else indexLoop x fuel (i + 1) (next node)

def listIndex [DecidableEq δ] (list : Ptr) (x : δ) : Mem κ Int32 := do
  let fuel ← blocks
  indexLoop x fuel 0 list

def lengthLoop : Nat → UInt32 → Ptr → Mem κ UInt32
  | 0, _, _ => failure
  | fuel + 1, length, list =>
    if list = none then return length
    else do
      let node ← load list
      lengthLoop fuel (length + 1) (next node)

def listLength (list : Ptr) : Mem κ UInt32 := do
  let fuel ← blocks
  lengthLoop fuel 0 list

end

section

variable {δ : Type} [DecidableEq δ] [Zero δ]

def nDlistLast (list : Ptr) : Mem (NDlist δ) Ptr := listLast list

def nDlistNth (list : Ptr) (n : UInt32) : Mem (NDlist δ) Ptr := listNth n.toNat list

def nDlistNthData (list : Ptr) (n : UInt32) : Mem (NDlist δ) δ := listNthData list n.toNat

def nDlistIndex (list : Ptr) (x : δ) : Mem (NDlist δ) Int32 := listIndex list x

def nDlistLength (list : Ptr) : Mem (NDlist δ) UInt32 := listLength list

def nSlistLast (list : Ptr) : Mem (NSlist δ) Ptr := listLast list

def nSlistNth (list : Ptr) (n : UInt32) : Mem (NSlist δ) Ptr := listNth n.toNat list

def nSlistNthData (list : Ptr) (n : UInt32) : Mem (NSlist δ) δ := listNthData list n.toNat

def nSlistIndex (list : Ptr) (x : δ) : Mem (NSlist δ) Int32 := listIndex list x

def nSlistLength (list : Ptr) : Mem (NSlist δ) UInt32 := listLength list

end

/-- What the copy of an element holds: `func` may be the null pointer. -/
def copied {δ : Type} (func : Option (δ → δ → δ)) (userData d : δ) : δ :=
  match func with
  | none => d
  | some func => func d userData

/-! What the walks return on a list. -/

section

variable {κ δ : Type} [ListNode κ δ] {h : Heap κ} {l : List (Nat × δ)} {p : Ptr}

theorem lastLoop_run {fuel a : Nat} {d : δ} (hseg : Seg h p ((a, d) :: l) none)
    (hfuel : l.length < fuel) :
    (lastLoop fuel (some a)).run h = some (lastPtr (some a) l, h) := by
  induction fuel generalizing p a d l with
  | zero => cases hfuel
  | succ fuel ih =>
      rw [lastLoop, run_bind (load_run hseg.1), next_node]
      cases l with
      | nil => rfl
      | cons x l =>
          obtain ⟨b, e⟩ := x
          rw [firstPtr_cons, if_neg (Option.some_ne_none b), lastPtr_cons]
          exact ih hseg.2 (Nat.lt_of_succ_lt_succ hfuel)

theorem listLast_run (hseg : Seg h p l none) (hnodup : (addrs l).Nodup) :
    (listLast (firstPtr l none)).run h = some (lastPtr none l, h) := by
  rw [listLast, run_bind (blocks_run h)]
  have hfuel := hseg.length_le hnodup
  cases l with
  | nil => rfl
  | cons x l =>
      obtain ⟨a, d⟩ := x
      rw [List.length_cons] at hfuel
      rw [firstPtr_cons, if_neg (Option.some_ne_none a), lastPtr_cons]
      exact lastLoop_run hseg (by omega)

/-- The walk that `n_dlist_insert_before` makes to the last node by itself. -/
theorem lastLoop_blocks_run {a : Nat} {d : δ} (hseg : Seg h p (l ++ [(a, d)]) none)
    (hnodup : (addrs (l ++ [(a, d)])).Nodup) :
    (lastLoop (h.keys.card + 1) (firstPtr l (some a))).run h = some (some a, h) := by
  have hlast := listLast_run hseg hnodup
  rwa [listLast, run_bind (blocks_run h), firstPtr_append, firstPtr_cons,
    if_neg firstPtr_some_ne_none, lastPtr_append, lastPtr_cons, lastPtr_nil] at hlast

theorem listNth_run (hseg : Seg h p l none) (n : Nat) :
    (listNth n (firstPtr l none)).run h = some (firstPtr (l.drop n) none, h) := by
  induction n generalizing p l with
  | zero => rfl
  | succ n ih =>
      cases l with
      | nil => rfl
      | cons x l =>
          obtain ⟨a, d⟩ := x
          rw [listNth, firstPtr_cons, if_neg (Option.some_ne_none a), run_bind (load_run hseg.1),
            next_node, List.drop_succ_cons]
          exact ih hseg.2

theorem listNthData_run [Zero δ] (hseg : Seg h p l none) (n : Nat) :
    (listNthData (firstPtr l none) n).run h = some (((l.map Prod.snd)[n]?).getD 0, h) := by
  rw [listNthData, run_bind (listNth_run hseg n)]
  have hget : l[n]? = (l.drop n).head? := List.head?_drop.symm
  rw [List.getElem?_map, hget]
  cases hdrop : l.drop n with
  | nil => rfl
  | cons x rest =>
      obtain ⟨a, d⟩ := x
      rw [← List.take_append_drop n l, seg_append, hdrop] at hseg
      rw [firstPtr_cons, if_neg (Option.some_ne_none a), run_bind (load_run hseg.2.1), data_node]
      rfl

theorem indexLoop_run [DecidableEq δ] (x : δ) {fuel : Nat} (hseg : Seg h p l none)
    (hfuel : l.length < fuel) (i : Int32) :
    (indexLoop x fuel i (firstPtr l none)).run h =
      some (((l.map Prod.snd).idxOf? x).elim (-1) (fun k => i + Int32.ofNat k), h) := by
  induction fuel generalizing p l i with
  | zero => cases hfuel
  | succ fuel ih =>
      cases l with
      | nil => rfl
      | cons y l =>
          obtain ⟨a, d⟩ := y
          rw [indexLoop, firstPtr_cons, if_neg (Option.some_ne_none a),
            run_bind (load_run hseg.1), data_node, next_node, List.map_cons, List.idxOf?_cons]
          by_cases hd : d = x
          · subst hd
            simp
          · have hrest := ih hseg.2 (Nat.lt_of_succ_lt_succ hfuel) (i + 1)
            have hbeq : (d == x) = false := by simp [hd]
            rw [if_neg hd, hrest, hbeq]
            cases (l.map Prod.snd).idxOf? x with
            | none => rfl
            | some k =>
                simp only [Option.elim_some, Option.map_some, Bool.false_eq_true, if_false]
                rw [Int32.ofNat_add, Int32.add_assoc, Int32.add_comm (Int32.ofNat k)]
                rfl

theorem listIndex_run [DecidableEq δ] (hseg : Seg h p l none) (hnodup : (addrs l).Nodup) (x : δ) :
    (listIndex (firstPtr l none) x).run h =
      some (((l.map Prod.snd).idxOf? x).elim (-1) Int32.ofNat, h) := by
  rw [listIndex, run_bind (blocks_run h),
    indexLoop_run x hseg (Nat.lt_succ_of_le (hseg.length_le hnodup))]
  simp only [Int32.zero_add]

theorem lengthLoop_run {fuel : Nat} (hseg : Seg h p l none) (hfuel : l.length < fuel)
    (length : UInt32) :
    (lengthLoop fuel length (firstPtr l none)).run h =
      some (length + UInt32.ofNat l.length, h) := by
  induction fuel generalizing p l length with
  | zero => cases hfuel
  | succ fuel ih =>
      cases l with
      | nil => simp [lengthLoop]
      | cons x l =>
          obtain ⟨a, d⟩ := x
          rw [lengthLoop, firstPtr_cons, if_neg (Option.some_ne_none a),
            run_bind (load_run hseg.1), next_node, ih hseg.2 (Nat.lt_of_succ_lt_succ hfuel),
            List.length_cons, UInt32.ofNat_add, UInt32.add_assoc,
            UInt32.add_comm (UInt32.ofNat l.length)]
          rfl

theorem listLength_run (hseg : Seg h p l none) (hnodup : (addrs l).Nodup) :
    (listLength (firstPtr l none)).run h = some (UInt32.ofNat l.length, h) := by
  rw [listLength, run_bind (blocks_run h),
    lengthLoop_run hseg (Nat.lt_succ_of_le (hseg.length_le hnodup)), UInt32.zero_add]

end

/-! What the operations do to a sequence. -/

/-- How many elements stay in front of a new one, of `n`: all of them if the
position is negative, and as many as there are if it is larger. -/
def insertPlace (position : Int32) (n : Nat) : Nat :=
  if position < 0 then n else position.toNatClampNeg

theorem toNatClampNeg_ne_zero {position : Int32} (hneg : ¬position < 0) (hzero : position ≠ 0) :
    position.toNatClampNeg ≠ 0 := by
  intro hclamp
  exact hzero (Int32.le_antisymm (Int32.toNatClampNeg_eq_zero_iff.mp hclamp) (Int32.not_lt.mp hneg))

def insertAt {α : Type} (position : Int32) (x : α) (l : List α) : List α :=
  l.take (insertPlace position l.length) ++ x :: l.drop (insertPlace position l.length)

/-- What the copies of the nodes `l` hold. -/
def copies {δ : Type} (func : Option (δ → δ → δ)) (userData : δ) (l : List (Nat × δ)) : List δ :=
  l.map fun y => copied func userData y.2

end SqliteFs
