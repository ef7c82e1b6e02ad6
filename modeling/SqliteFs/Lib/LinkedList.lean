import Mathlib.Tactic

/-!
Lists threaded through memory. Every node holds a pointer to the next one and
the address of the very link that points to it, which is the head of the list
or the `next` field of its predecessor. `Spells` says which nodes a walk from a
link meets, and that each of them points back at the link it is met through;
that alone excludes a cycle. Pushing and unlinking are given as the pointer
assignments that carry them out.
-/

namespace SqliteFs.Lib

/-- A place that holds a pointer to a node: the head, or a field of a node. -/
inductive Link (α : Type*) where
  | head
  | next (a : α)
  deriving DecidableEq

/-- The head of a list, and the two fields of every node. -/
structure Links (α : Type*) where
  head : Option α
  next : α → Option α
  prev : α → Link α

namespace Links

variable {α : Type*}

/-- The pointer that a link holds. -/
def read (k : Links α) : Link α → Option α
  | .head => k.head
  | .next a => k.next a

/-- A walk from the link `at_` meets the nodes `l` and then a null pointer. -/
def Spells (k : Links α) : Link α → List α → Prop
  | at_, [] => k.read at_ = none
  | at_, a :: l => k.read at_ = some a ∧ k.prev a = at_ ∧ k.Spells (.next a) l

section

variable [DecidableEq α]

/-- Store a pointer in a link. -/
def write (k : Links α) : Link α → Option α → Links α
  | .head, p => { k with head := p }
  | .next a, p => { k with next := Function.update k.next a p }

/-- Put a node at the head. -/
def push (k : Links α) (a : α) : Links α :=
  let k := { k with next := Function.update k.next a k.head }
  let k := match k.next a with
    | none => k
    | some b => { k with prev := Function.update k.prev b (.next a) }
  { k with head := some a, prev := Function.update k.prev a .head }

/-- Take a node out, through the link that points to it. -/
def unlink (k : Links α) (a : α) : Links α :=
  let k := k.write (k.prev a) (k.next a)
  match k.next a with
  | none => k
  | some b => { k with prev := Function.update k.prev b (k.prev a) }

end

/-- Follow the list from a pointer to the first node with `p`. Only nodes that
are `live` can be looked at, and at most `fuel` pointers are followed. -/
def search (k : Links α) (live p : α → Bool) : Nat → Option α → Option (Option α)
  | 0, _ => none
  | _ + 1, none => some none
  | fuel + 1, some a =>
    if live a = false then none
    else if p a then some (some a)
    else k.search live p fuel (k.next a)

section

variable {k k' : Links α} {at_ : Link α} {l : List α}

/-- A walk reads the link it starts from and the fields of the nodes it meets. -/
theorem Spells.congr (h : k.Spells at_ l) (hread : k'.read at_ = k.read at_)
    (hnext : ∀ a ∈ l, k'.next a = k.next a) (hprev : ∀ a ∈ l, k'.prev a = k.prev a) :
    k'.Spells at_ l := by
  induction l generalizing at_ with
  | nil => exact hread.trans h
  | cons a l ih =>
      obtain ⟨hfirst, hback, hrest⟩ := h
      refine ⟨hread.trans hfirst, (hprev a List.mem_cons_self).trans hback, ?_⟩
      exact ih hrest (hnext a List.mem_cons_self)
        (fun b hb => hnext b (List.mem_cons_of_mem a hb))
        (fun b hb => hprev b (List.mem_cons_of_mem a hb))

/-- A node that a walk meets points back at the link it started from, or at
the field of a node that the walk meets too. -/
theorem Spells.prev_mem (h : k.Spells at_ l) {a : α} (ha : a ∈ l) :
    k.prev a = at_ ∨ ∃ b ∈ l, k.prev a = .next b := by
  induction l generalizing at_ with
  | nil => cases ha
  | cons b l ih =>
      rcases List.mem_cons.mp ha with rfl | ha
      · exact Or.inl h.2.1
      · right
        rcases ih h.2.2 ha with hback | ⟨c, hc, hback⟩
        · exact ⟨b, List.mem_cons_self, hback⟩
        · exact ⟨c, List.mem_cons_of_mem b hc, hback⟩

/-- The successor of a node that a walk meets is met too, behind the first. -/
theorem Spells.next_mem (h : k.Spells at_ l) {a b : α} (ha : a ∈ l) (hb : k.next a = some b) :
    b ∈ l.tail := by
  induction l generalizing at_ with
  | nil => cases ha
  | cons c l ih =>
      rcases List.mem_cons.mp ha with rfl | ha
      · cases l with
        | nil => exact absurd (hb.symm.trans h.2.2) nofun
        | cons d l =>
            obtain rfl := Option.some.inj (hb.symm.trans h.2.2.1)
            exact List.mem_cons_self
      · exact List.mem_of_mem_tail (ih h.2.2 ha)

/-- A search with fuel for the whole list finds what `List.find?` finds. -/
theorem Spells.search_eq (h : k.Spells at_ l) {live : α → Bool} (hlive : ∀ a ∈ l, live a)
    (p : α → Bool) {fuel : Nat} (hfuel : l.length < fuel) :
    k.search live p fuel (k.read at_) = some (l.find? p) := by
  induction l generalizing at_ fuel with
  | nil =>
      obtain ⟨n, rfl⟩ := Nat.exists_eq_add_of_lt hfuel
      rw [h]
      rfl
  | cons a l ih =>
      obtain ⟨n, rfl⟩ : ∃ n, fuel = n + 1 := ⟨fuel - 1, by omega⟩
      have ha := hlive a List.mem_cons_self
      have hrest : k.search live p n (k.read (.next a)) = some (l.find? p) :=
        ih h.2.2 (fun b hb => hlive b (List.mem_cons_of_mem a hb)) (Nat.lt_of_succ_lt_succ hfuel)
      rw [h.1, search, if_neg (by simp [ha]), List.find?_cons]
      cases hp : p a with
      | true => rfl
      | false => exact hrest

/-- A walk from a link outside the nodes it meets does not meet a node twice. -/
theorem Spells.nodup (h : k.Spells at_ l) (hat : ∀ a ∈ l, at_ ≠ .next a) : l.Nodup := by
  induction l generalizing at_ with
  | nil => exact List.nodup_nil
  | cons a l ih =>
      have hnew : a ∉ l := by
        intro ha
        have hback := h.2.1
        rcases h.2.2.prev_mem ha with heq | ⟨b, hb, heq⟩
        · exact hat a List.mem_cons_self (hback.symm.trans heq)
        · exact hat b (List.mem_cons_of_mem a hb) (hback.symm.trans heq)
      refine List.nodup_cons.mpr ⟨hnew, ih h.2.2 ?_⟩
      rintro b hb heq
      exact hnew (Link.next.inj heq ▸ hb)

/-- The list from the head has no cycle. -/
theorem Spells.head_nodup (h : k.Spells .head l) : l.Nodup :=
  h.nodup fun _ _ => nofun

variable [DecidableEq α]

theorem push_spells (h : k.Spells .head l) {a : α} (ha : a ∉ l) :
    (k.push a).Spells .head (a :: l) := by
  have hne : ∀ b ∈ l, b ≠ a := fun b hb heq => ha (heq ▸ hb)
  cases l with
  | nil =>
      have hhead : k.head = none := h
      simp only [Spells, read, push, hhead, Function.update_self, and_self]
  | cons b l =>
      have hhead : k.head = some b := h.1
      have hnodup := List.nodup_cons.mp h.head_nodup
      refine ⟨rfl, ?_, ?_, ?_, ?_⟩
      · simp only [push, hhead, Function.update_self]
      · simp only [read, push, hhead, Function.update_self]
      · simp only [push, hhead, Function.update_self,
          Function.update_of_ne (hne b List.mem_cons_self)]
      · apply h.2.2.congr
        · simp only [read, push, hhead, Function.update_self,
            Function.update_of_ne (hne b List.mem_cons_self)]
        · intro c hc
          simp only [push, hhead, Function.update_self,
            Function.update_of_ne (hne c (List.mem_cons_of_mem b hc))]
        · intro c hc
          have hcb : c ≠ b := fun heq => hnodup.1 (heq ▸ hc)
          simp only [push, hhead, Function.update_self, Function.update_of_ne hcb,
            Function.update_of_ne (hne c (List.mem_cons_of_mem b hc))]

theorem write_read (k : Links α) (at_ at' : Link α) (p : Option α) :
    (k.write at_ p).read at' = if at' = at_ then p else k.read at' := by
  cases at_ with
  | head => cases at' <;> simp [write, read]
  | next a =>
      cases at' with
      | head => simp [write, read]
      | next b =>
          by_cases hab : b = a
          · simp [write, read, hab]
          · simp [write, read, hab]

/-- Unlinking stores the successor in the link that points to the node. -/
theorem unlink_read (k : Links α) (a : α) (at' : Link α) :
    (k.unlink a).read at' = if at' = k.prev a then k.next a else k.read at' := by
  rw [← write_read k (k.prev a) at' (k.next a)]
  unfold unlink
  simp only
  split
  · rfl
  · cases at' <;> rfl

/-- Unlinking gives the successor the link that pointed to the node. -/
theorem unlink_prev (k : Links α) (a b : α) :
    (k.unlink a).prev b = if k.next a = some b then k.prev a else k.prev b := by
  have hprev : ∀ p, (k.write (k.prev a) p).prev = k.prev := by
    intro p
    cases k.prev a <;> rfl
  have hnext : (k.write (k.prev a) (k.next a)).next a = k.next a := by
    have hread := write_read k (k.prev a) (.next a) (k.next a)
    simp only [read, ite_self] at hread
    exact hread
  unfold unlink
  simp only [hnext]
  cases k.next a with
  | none => simp [hprev]
  | some c =>
      by_cases hcb : b = c
      · simp [hprev, hcb]
      · simp [hprev, hcb, Ne.symm hcb]

/-- Wherever the node is in the walk: its predecessor's link and its
successor's address of that link are the only ones that change. -/
theorem unlink_spells (h : k.Spells at_ l) (hnodup : l.Nodup) (hat : ∀ x ∈ l, at_ ≠ .next x)
    {a : α} (ha : a ∈ l) : (k.unlink a).Spells at_ (l.erase a) := by
  induction l generalizing at_ with
  | nil => cases ha
  | cons b l ih =>
      have hrest := List.nodup_cons.mp hnodup
      rcases List.mem_cons.mp ha with rfl | ha
      · have hback : k.prev a = at_ := h.2.1
        rw [List.erase_cons_head]
        have hread : (k.unlink a).read at_ = k.read (.next a) := by
          rw [unlink_read, if_pos hback.symm]
          rfl
        cases l with
        | nil => exact hread.trans h.2.2
        | cons c l =>
            have hnext : k.next a = some c := h.2.2.1
            have hc := List.nodup_cons.mp hrest.2
            refine ⟨hread.trans hnext, ?_, ?_⟩
            · rw [unlink_prev, if_pos hnext, hback]
            · have hfield : ∀ x ∈ c :: l, (k.unlink a).read (.next x) = k.read (.next x) := by
                intro x hx
                rw [unlink_read, if_neg]
                rw [hback]
                exact (hat x (List.mem_cons_of_mem a hx)).symm
              apply h.2.2.2.2.congr (hfield c List.mem_cons_self)
              · exact fun x hx => hfield x (List.mem_cons_of_mem c hx)
              · intro x hx
                rw [unlink_prev, if_neg]
                rw [hnext, Option.some.injEq]
                rintro rfl
                exact hc.1 hx
      · have hab : b ≠ a := by
          rintro rfl
          exact hrest.1 ha
        rw [List.erase_cons_tail (by simpa using hab)]
        refine ⟨?_, ?_, ?_⟩
        · rw [unlink_read, if_neg]
          · exact h.1
          · rcases h.2.2.prev_mem ha with hback | ⟨c, hc, hback⟩
            · rw [hback]
              exact hat b List.mem_cons_self
            · rw [hback]
              exact hat c (List.mem_cons_of_mem b hc)
        · rw [unlink_prev, if_neg]
          · exact h.2.1
          · intro hnext
            exact hrest.1 (h.next_mem (List.mem_cons_of_mem b ha) hnext)
        · apply ih h.2.2 hrest.2 ?_ ha
          rintro x hx heq
          exact hrest.1 (Link.next.inj heq ▸ hx)

/-- The list from the head after unlinking. -/
theorem unlink_head_spells (h : k.Spells .head l) {a : α} (ha : a ∈ l) :
    (k.unlink a).Spells .head (l.erase a) :=
  unlink_spells h h.head_nodup (fun _ _ => nofun) ha

end

end Links

end SqliteFs.Lib
