import SqliteFs.Lib.Segment

/-!
Several linked lists in one heap. No two of them share a node, so a program that
works on some of them leaves the others as they are: it is handed the blocks of
the lists it works on, and what it links in besides was not live before.
-/

namespace SqliteFs.Lib

open ListNode

section

variable {κ δ ι : Type} [ListNode κ δ]

/-- The heap holds for each `i` the list `nodes i`, which starts at `heads i`. -/
structure HoldLists (h : Heap κ) (heads : ι → Ptr) (nodes : ι → List (Nat × δ)) : Prop where
  isList : ∀ i, IsList h (heads i) (nodes i)
  disjoint : ∀ i j, i ≠ j → (addrs (nodes i)).Disjoint (addrs (nodes j))

variable {h h' : Heap κ} {heads heads' : ι → Ptr} {nodes nodes' : ι → List (Nat × δ)}
  {S S' : List Nat}

namespace HoldLists

theorem empty (h : Heap κ) : HoldLists h (fun _ : ι => none) fun _ => ([] : List (Nat × δ)) :=
  ⟨fun _ => IsList.nil h, fun _ _ _ => List.disjoint_nil_left _⟩

/-- A program that was handed the blocks `S` has changed some of the lists. -/
theorem exchange (changed : ι → Prop) (hold : HoldLists h heads nodes)
    (hex : Exchanges h S h' S')
    (hkept : ∀ i, ¬changed i → heads' i = heads i ∧ nodes' i = nodes i ∧
      (addrs (nodes i)).Disjoint S)
    (hnew : ∀ i, changed i → IsList h' (heads' i) (nodes' i) ∧ ∀ a ∈ addrs (nodes' i), a ∈ S')
    (hdisj : ∀ i j, changed i → changed j → i ≠ j →
      (addrs (nodes' i)).Disjoint (addrs (nodes' j))) :
    HoldLists h' heads' nodes' := by
  -- what is linked into a list that has changed is in no other
  have hapart : ∀ i j, changed i → ¬changed j → (addrs (nodes' i)).Disjoint (addrs (nodes' j)) := by
    intro i j hi hj a ha ha'
    obtain ⟨_, hsame, hapart⟩ := hkept j hj
    rw [hsame] at ha'
    have hdead := hex.fresh a ((hnew i hi).2 a ha) (hapart ha')
    exact Finmap.lookup_eq_none.mp hdead ((hold.isList j).live ha')
  constructor
  case isList =>
    intro i
    by_cases hi : changed i
    · exact (hnew i hi).1
    · obtain ⟨hhead, hsame, hapart⟩ := hkept i hi
      rw [hhead, hsame]
      exact (hold.isList i).exchange hex hapart
  case disjoint =>
    intro i j hij
    by_cases hi : changed i
    · by_cases hj : changed j
      · exact hdisj i j hi hj hij
      · exact hapart i j hi hj
    · by_cases hj : changed j
      · exact (hapart j i hj hi).symm
      · rw [(hkept i hi).2.1, (hkept j hj).2.1]
        exact hold.disjoint i j hij

variable [DecidableEq ι]

/-- One list has changed. -/
theorem update {i : ι} {list : Ptr} {l : List (Nat × δ)} (hold : HoldLists h heads nodes)
    (hex : Exchanges h S h' (addrs l)) (hl : IsList h' list l)
    (hapart : ∀ j, j ≠ i → (addrs (nodes j)).Disjoint S) :
    HoldLists h' (Function.update heads i list) (Function.update nodes i l) := by
  apply hold.exchange (fun j => j = i) hex
  · intro j hj
    exact ⟨Function.update_of_ne hj _ _, Function.update_of_ne hj _ _, hapart j hj⟩
  · rintro j rfl
    rw [Function.update_self, Function.update_self]
    exact ⟨hl, fun a ha => ha⟩
  · rintro j k rfl rfl hjk
    exact absurd rfl hjk

/-- Two lists have changed. -/
theorem update₂ {i j : ι} {list list' : Ptr} {l l' : List (Nat × δ)} (hij : i ≠ j)
    (hold : HoldLists h heads nodes) (hex : Exchanges h S h' S') (hl : IsList h' list l)
    (hl' : IsList h' list' l') (hS' : ∀ a, a ∈ addrs l ∨ a ∈ addrs l' → a ∈ S')
    (hdisj : (addrs l).Disjoint (addrs l'))
    (hapart : ∀ k, k ≠ i → k ≠ j → (addrs (nodes k)).Disjoint S) :
    HoldLists h' (Function.update (Function.update heads i list) j list')
      (Function.update (Function.update nodes i l) j l') := by
  apply hold.exchange (fun k => k = i ∨ k = j) hex
  · intro k hk
    obtain ⟨hki, hkj⟩ := not_or.mp hk
    rw [Function.update_of_ne hkj, Function.update_of_ne hki, Function.update_of_ne hkj,
      Function.update_of_ne hki]
    exact ⟨rfl, rfl, hapart k hki hkj⟩
  · rintro k (rfl | rfl)
    · rw [Function.update_of_ne hij, Function.update_self, Function.update_of_ne hij,
        Function.update_self]
      exact ⟨hl, fun a ha => hS' a (Or.inl ha)⟩
    · rw [Function.update_self, Function.update_self]
      exact ⟨hl', fun a ha => hS' a (Or.inr ha)⟩
  · rintro k m (rfl | rfl) (rfl | rfl) hkm
    · exact absurd rfl hkm
    · rw [Function.update_of_ne hkm, Function.update_self, Function.update_self]
      exact hdisj
    · rw [Function.update_of_ne hkm.symm, Function.update_self, Function.update_self]
      exact hdisj.symm
    · exact absurd rfl hkm

end HoldLists

end

end SqliteFs.Lib
