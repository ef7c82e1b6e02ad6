import SqliteFs.DList

/-!
What the functions of the doubly-linked list do to the nodes of a list. Each is
run on a heap that holds its lists, and `Yields` says which nodes the returned
list has; the pointers back, and everything outside of the lists, come with it.
-/

namespace SqliteFs

open Lib Lib.Mem Lib.ListNode

section

variable {δ : Type} {al : Allocator (NDlist δ)} {h : Heap (NDlist δ)} {head : Ptr}
  {l m pre post : List (Nat × δ)} {a : Nat} {d x : δ}

/-- Nothing points out of the list at its ends, and `next` and `prev` are inverse
to each other. -/
structure Linked (h : Heap (NDlist δ)) (l : List (Nat × δ)) : Prop where
  first : ∀ a c, firstPtr l none = some a → h.lookup a = some c → c.prev = none
  last : ∀ a c, lastPtr none l = some a → h.lookup a = some c → c.next = none
  inverse : ∀ a ∈ addrs l, ∀ b ∈ addrs l, ∀ c e, h.lookup a = some c → h.lookup b = some e →
    (c.next = some b ↔ e.prev = some a)

theorem IsList.linked (hl : IsList h head l) : Linked h l := by
  have hsplit : ∀ a ∈ addrs l, ∃ pre d post, l = pre ++ (a, d) :: post ∧
      h.lookup a = some ⟨d, firstPtr post none, lastPtr none pre⟩ := by
    intro a ha
    obtain ⟨⟨a, d⟩, hmem, rfl⟩ := List.mem_map.mp ha
    obtain ⟨pre, post, rfl⟩ := List.append_of_mem hmem
    exact ⟨pre, d, post, rfl, (seg_append.mp hl.seg).2.1⟩
  constructor
  case first =>
    intro a c hfirst hc
    rcases l with _ | ⟨⟨b, d⟩, l⟩
    · cases hfirst
    · obtain rfl := Option.some.inj hfirst
      rw [hl.seg.1, Option.some.injEq] at hc
      rw [← hc]
      rfl
  case last =>
    intro a c hlast hc
    rcases List.eq_nil_or_concat l with rfl | ⟨l, ⟨b, d⟩, rfl⟩
    · cases hlast
    · rw [List.concat_eq_append] at hl hlast
      rw [lastPtr_append, lastPtr_cons, lastPtr_nil, Option.some.injEq] at hlast
      rw [← hlast, (seg_append.mp hl.seg).2.1, Option.some.injEq] at hc
      rw [← hc]
      rfl
  case inverse =>
    intro a ha b hb c e hc he
    obtain ⟨pre, d, post, hla, hca⟩ := hsplit a ha
    obtain ⟨pre', d', post', hlb, hcb⟩ := hsplit b hb
    obtain rfl := Option.some.inj (hc.symm.trans hca)
    obtain rfl := Option.some.inj (he.symm.trans hcb)
    constructor
    · intro hnext
      rcases post with _ | ⟨⟨t, f⟩, post⟩
      · cases hnext
      · obtain rfl := Option.some.inj hnext
        rw [hla] at hl
        have hcell := (seg_append.mp hl.seg).2.2.1
        rw [hcb, Option.some.injEq] at hcell
        exact congrArg NDlist.prev hcell
    · intro hprev
      rcases List.eq_nil_or_concat pre' with rfl | ⟨pre', ⟨t, f⟩, rfl⟩
      · cases hprev
      · simp only [List.concat_eq_append, lastPtr_append, lastPtr_cons, lastPtr_nil,
          Option.some.injEq] at hprev
        subst hprev
        rw [hlb, List.concat_eq_append] at hl
        have hcell := (seg_append.mp (seg_append.mp hl.seg).1).2.1
        rw [hca, Option.some.injEq] at hcell
        exact congrArg NDlist.next hcell

theorem nDlistAppend_yields (hl : IsList h head l) (x : δ) :
    Yields (nDlistAppend al head x) h (addrs l) (l ++ [(al.place h, x)]) := by
  have hdead := al.lookup_place h
  have hrun : (nDlistAppend al head x).run h = some (firstPtr l (some (al.place h)),
      linkedIn (al.place h) x (lastPtr none l) none h) := by
    obtain rfl := hl.head_eq
    rcases List.eq_nil_or_concat l with rfl | ⟨l, ⟨b, d⟩, rfl⟩
    · simp [nDlistAppend, linkedIn, relink]
    · rw [List.concat_eq_append] at *
      have hb := (seg_append.mp hl.seg).2.1
      have hne := ne_of_dead hdead hb
      have hlast := listLast_run (hl.seg.insert (hl.seg.not_mem_of_dead hdead)
        ⟨x, none, (al.junk h).prev⟩) hl.nodup
      rw [firstPtr_append, lastPtr_append, firstPtr_cons, lastPtr_cons, lastPtr_nil] at hlast
      simp [nDlistAppend, nDlistLast, hlast, hb, hne, hne.symm, linkedIn, relink, alter,
        Finmap.lookup_insert_of_ne, Finmap.insert_insert_of_ne _ hne]
  have hl' : IsList h head (l ++ []) := by rwa [List.append_nil]
  have hyields := Yields.of_linkedIn hl' hdead hrun
  rwa [List.append_nil] at hyields

theorem nDlistPrepend_yields (hl : IsList h head l) (x : δ) :
    Yields (nDlistPrepend al head x) h (addrs l) ((al.place h, x) :: l) := by
  have hdead := al.lookup_place h
  have hrun : (nDlistPrepend al head x).run h = some (some (al.place h),
      linkedIn (al.place h) x none (firstPtr l none) h) := by
    obtain rfl := hl.head_eq
    cases l with
    | nil => simp [nDlistPrepend, linkedIn, relink]
    | cons y l =>
        obtain ⟨b, d⟩ := y
        have hb := hl.seg.1
        have hne := ne_of_dead hdead hb
        simp [nDlistPrepend, hne, hb, linkedIn, relink, alter, Finmap.lookup_insert_of_ne]
  exact @Yields.of_linkedIn _ _ _ _ [] _ _ _ _ _ hl hdead hrun

theorem nDlistInsert_yields (hl : IsList h head l) (x : δ) (position : Int32) :
    Yields (nDlistInsert al head x position) h (addrs l)
      (insertAt position (al.place h, x) l) := by
  unfold insertAt insertPlace
  by_cases hneg : position < 0
  · rw [if_pos hneg, List.take_length, List.drop_length, nDlistInsert, if_pos hneg]
    exact nDlistAppend_yields hl x
  rw [if_neg hneg]
  by_cases hzero : position = 0
  · subst hzero
    exact nDlistPrepend_yields hl x
  have hpos := toNatClampNeg_ne_zero hneg hzero
  obtain rfl := hl.head_eq
  have hnth := listNth_run hl.seg position.toNatClampNeg
  rw [← Int32.toNat_toUInt32_of_le (Int32.not_lt.mp hneg)] at hpos hnth ⊢
  rw [Yields, nDlistInsert, if_neg hneg, if_neg hzero, nDlistNth, run_bind hnth]
  have hsplit := List.take_append_drop position.toUInt32.toNat l
  cases hdrop : l.drop position.toUInt32.toNat with
  | nil =>
      rw [hdrop, List.append_nil] at hsplit
      rw [hsplit, firstPtr_nil, if_pos rfl]
      exact nDlistAppend_yields hl x
  | cons y post =>
      obtain ⟨t, e⟩ := y
      rcases List.eq_nil_or_concat (l.take position.toUInt32.toNat) with hnil |
        ⟨pre, ⟨b, d⟩, hfront⟩
      · obtain hnil := (List.take_eq_nil_iff.mp hnil).resolve_left hpos
        subst hnil
        cases hdrop.symm.trans List.drop_nil
      · rw [List.concat_eq_append] at hfront
        rw [hdrop, hfront] at hsplit
        subst hsplit
        have hdead := al.lookup_place h
        have hseg := seg_append.mp hl.seg
        have hb := (seg_append.mp hseg.1).2.1
        have ht := hseg.2.1
        have hbne := ne_of_dead hdead hb
        have htne := ne_of_dead hdead ht
        have hbt : b ≠ t := hl.ne_of_split rfl (by simp) (by simp)
        rw [hfront, firstPtr_cons, if_neg (Option.some_ne_none t)]
        apply Yields.of_linkedIn hl hdead
        simp [ht, hb, hbne, htne, hbne.symm, hbt.symm, linkedIn, relink, alter,
          Finmap.lookup_insert_of_ne, Finmap.insert_insert_of_ne _ hbne]

theorem nDlistInsertBefore_yields [Zero δ] (hl : IsList h head (pre ++ post)) (x : δ) :
    Yields (nDlistInsertBefore al head (firstPtr post none) x) h (addrs (pre ++ post))
      (pre ++ (al.place h, x) :: post) := by
  have hdead := al.lookup_place h
  apply Yields.of_linkedIn hl hdead
  obtain rfl := hl.head_eq
  have hseg := seg_append.mp hl.seg
  rcases List.eq_nil_or_concat pre with rfl | ⟨pre, ⟨b, d⟩, rfl⟩
  · cases post with
    | nil => simp [nDlistInsertBefore, nDlistAlloc0, linkedIn, relink]
    | cons y post =>
        obtain ⟨t, e⟩ := y
        have ht := hseg.2.1
        have htne := ne_of_dead hdead ht
        simp [nDlistInsertBefore, ht, htne, linkedIn, relink, alter, Finmap.lookup_insert_of_ne]
  · rw [List.concat_eq_append] at *
    have hb := (seg_append.mp hseg.1).2.1
    have hbne := ne_of_dead hdead hb
    cases post with
    | nil =>
        rw [List.append_nil] at hl
        have hlast := lastLoop_blocks_run hl.seg hl.nodup
        simp [nDlistInsertBefore, hlast, hb, hbne, hbne.symm, linkedIn, relink, alter,
          Finmap.lookup_insert_of_ne, Finmap.insert_insert_of_ne _ hbne]
    | cons y post =>
        obtain ⟨t, e⟩ := y
        have ht := hseg.2.1
        have htne := ne_of_dead hdead ht
        have hbt : b ≠ t := hl.ne_of_split rfl (by simp) (by simp)
        simp [nDlistInsertBefore, ht, hb, hbne, htne, hbt, hbt.symm, linkedIn, relink, alter,
          Finmap.lookup_insert_of_ne, Finmap.insert_insert_of_ne _ hbt]

/-- A node that is unlinked keeps its data and stands alone. -/
theorem nDlistUnlink_run (hl : IsList h head (pre ++ (a, d) :: post)) :
    (nDlistUnlink head (some a)).run h = some (firstPtr pre (firstPtr post none),
      (takenOut (lastPtr none pre) (firstPtr post none) h).insert a ⟨d, none, none⟩) := by
  obtain rfl := hl.head_eq
  have hseg := seg_append.mp hl.seg
  have ha := hseg.2.1
  rcases List.eq_nil_or_concat pre with rfl | ⟨pre, ⟨b, c⟩, rfl⟩
  · cases post with
    | nil => simp [nDlistUnlink, ha, takenOut, relink]
    | cons y post =>
        obtain ⟨t, e⟩ := y
        have ht := hseg.2.2.1
        have hat : a ≠ t := hl.ne_of_split (List.append_cons ..) (by simp) (by simp)
        simp [nDlistUnlink, ha, ht, hat, takenOut, relink, alter, Finmap.lookup_insert_of_ne]
  · rw [List.concat_eq_append] at *
    have hb := (seg_append.mp hseg.1).2.1
    have hba : b ≠ a := hl.ne_of_split rfl (by simp) (by simp)
    have hhead : some a ≠ firstPtr pre (some b) := (firstPtr_ne hl).symm
    cases post with
    | nil =>
        simp [nDlistUnlink, ha, hb, hba.symm, hhead, takenOut, relink, alter,
          Finmap.lookup_insert_of_ne]
    | cons y post =>
        obtain ⟨t, e⟩ := y
        have ht := hseg.2.2.1
        have hat : a ≠ t := hl.ne_of_split (List.append_cons ..) (by simp) (by simp)
        have hbt : b ≠ t := hl.ne_of_split rfl (by simp) (by simp)
        simp [nDlistUnlink, ha, ht, hat, hb, hba.symm, hbt.symm, hhead, takenOut, relink, alter,
          Finmap.lookup_insert_of_ne]

/-- Unlinking leaves the rest of the list, and the node alone. -/
theorem nDlistUnlink_spec (hl : IsList h head (pre ++ (a, d) :: post)) :
    ∃ h₁, (nDlistUnlink head (some a)).run h = some (firstPtr (pre ++ post) none, h₁) ∧
      IsList h₁ (firstPtr (pre ++ post) none) (pre ++ post) ∧
      h₁.lookup a = some ⟨d, none, none⟩ ∧
      Exchanges h (addrs (pre ++ (a, d) :: post)) h₁ (a :: addrs (pre ++ post)) := by
  obtain ⟨hlist, hex, _⟩ := hl.takenOut
  rw [firstPtr_append]
  refine ⟨_, nDlistUnlink_run hl, hlist.insert hl.not_mem_of_middle _, Finmap.lookup_insert _, ?_⟩
  exact hex.trans (Exchanges.insert List.mem_cons_self _)

theorem nDlistDeleteLink_yields (hl : IsList h head (pre ++ (a, d) :: post)) :
    Yields (nDlistDeleteLink head (some a)) h (addrs (pre ++ (a, d) :: post)) (pre ++ post) := by
  obtain ⟨h₁, hrun, hlist, ha, hex⟩ := nDlistUnlink_spec hl
  have hnot := hl.not_mem_of_middle
  refine ⟨h₁.erase a, ?_, hlist.erase hnot, hex.trans (Exchanges.erase hnot)⟩
  rw [nDlistDeleteLink, run_bind hrun, run_bind (free_run (Finmap.mem_of_lookup_eq_some ha))]
  rfl

/-- Deleting the null pointer changes nothing. -/
theorem nDlistDeleteLink_none (hl : IsList h head l) :
    Yields (nDlistDeleteLink head none) h (addrs l) l := by
  obtain rfl := hl.head_eq
  exact ⟨h, rfl, hl, Exchanges.refl h _⟩

section

variable [DecidableEq δ] {p n : Ptr}

theorem nDlistRemoveLoop_skip (hseg : Seg h p pre n) (hx : ∀ y ∈ pre, y.2 ≠ x) (list : Ptr)
    (fuel : Nat) :
    (nDlistRemoveLoop list x (pre.length + fuel) (firstPtr pre n)).run h =
      (nDlistRemoveLoop list x fuel n).run h := by
  induction pre generalizing p with
  | nil => rw [List.length_nil, Nat.zero_add, firstPtr_nil]
  | cons y pre ih =>
      obtain ⟨b, d⟩ := y
      have hd : d ≠ x := hx (b, d) List.mem_cons_self
      rw [List.length_cons, Nat.add_right_comm, nDlistRemoveLoop, firstPtr_cons,
        if_neg (Option.some_ne_none b), run_bind (load_run hseg.1)]
      simp only [dlist_node, if_pos hd]
      exact ih hseg.2 (fun y hy => hx y (List.mem_cons_of_mem _ hy))

theorem nDlistRemove_yields (hl : IsList h head l) (x : δ) :
    Yields (nDlistRemove head x) h (addrs l) (l.eraseP fun y => y.2 = x) := by
  have hhead := hl.head_eq
  rw [Yields, nDlistRemove, run_bind (blocks_run h)]
  by_cases hx : ∃ y ∈ l, y.2 = x
  · obtain ⟨y, hy, hyx⟩ := hx
    obtain ⟨⟨a, d⟩, pre, post, hpre, ha, rfl, herase⟩ :=
      List.exists_of_eraseP (p := fun y : Nat × δ => y.2 = x) hy (by simpa using hyx)
    obtain rfl : d = x := by simpa using ha
    obtain ⟨h₁, hrun, hlist, hnode, hex⟩ := nDlistUnlink_spec hl
    have hnot := hl.not_mem_of_middle
    have hseg := seg_append.mp hl.seg
    obtain ⟨fuel, hfuel⟩ := hl.exists_fuel_front
    have hskip := nDlistRemoveLoop_skip hseg.1 (by simpa using hpre) head (fuel + 1)
    rw [← firstPtr_append, ← hhead, ← hfuel] at hskip
    rw [herase]
    refine ⟨h₁.erase a, ?_, hlist.erase hnot, hex.trans (Exchanges.erase hnot)⟩
    rw [hskip, nDlistRemoveLoop, firstPtr_cons, if_neg (Option.some_ne_none a),
      run_bind (load_run hseg.2.1)]
    simp only [dlist_node, ne_eq, not_true_eq_false, if_false]
    rw [run_bind hrun, run_bind (free_run (Finmap.mem_of_lookup_eq_some hnode))]
    rfl
  · have hx' : ∀ y ∈ l, y.2 ≠ x := fun y hy hyx => hx ⟨y, hy, hyx⟩
    obtain ⟨fuel, hfuel⟩ := hl.exists_fuel
    have hskip := nDlistRemoveLoop_skip hl.seg hx' head (fuel + 1)
    rw [← hhead, ← hfuel] at hskip
    rw [List.eraseP_of_forall_not (by simpa using hx')]
    refine ⟨h, ?_, hhead ▸ hl, Exchanges.refl h _⟩
    rw [hskip, nDlistRemoveLoop, if_pos rfl, ← hhead]
    rfl

/-- One removal of the loop: the node is taken out and freed. -/
theorem nDlistRemoveAllLoop_found (hl : IsList h head (pre ++ (a, x) :: post)) (fuel : Nat) :
    (nDlistRemoveAllLoop x (fuel + 1) head (some a)).run h =
      (nDlistRemoveAllLoop x fuel (firstPtr (pre ++ post) none) (firstPtr post none)).run
        ((takenOut (lastPtr none pre) (firstPtr post none) h).erase a) := by
  have hseg := seg_append.mp hl.seg
  have ha := hseg.2.1
  have hlive := hl.takenOut.2.2.trans ha
  obtain rfl := hl.head_eq
  rw [nDlistRemoveAllLoop, if_neg (Option.some_ne_none a), run_bind (load_run ha)]
  rcases List.eq_nil_or_concat pre with rfl | ⟨pre, ⟨b, c⟩, rfl⟩
  · cases post with
    | nil => simp [takenOut, relink, Finmap.mem_of_lookup_eq_some ha]
    | cons y post =>
        obtain ⟨t, e⟩ := y
        have ht := hseg.2.2.1
        simp [ha, ht, takenOut, relink, alter, Finmap.mem_of_lookup_eq_some ha]
  · rw [List.concat_eq_append] at *
    have hb := (seg_append.mp hseg.1).2.1
    have hba : b ≠ a := hl.ne_of_split rfl (by simp) (by simp)
    cases post with
    | nil =>
        simp [hb, takenOut, relink, alter, Finmap.mem_of_lookup_eq_some ha]
    | cons y post =>
        obtain ⟨t, e⟩ := y
        have ht := hseg.2.2.1
        have hbt : b ≠ t := hl.ne_of_split rfl (by simp) (by simp)
        simp [ha, ht, hb, hba.symm, hbt.symm, takenOut, relink, alter,
          Finmap.mem_of_lookup_eq_some ha, Finmap.lookup_insert_of_ne]

/-- The nodes in front of `tmp` have been looked at and kept. -/
theorem nDlistRemoveAllLoop_yields {fuel : Nat} (hl : IsList h head (pre ++ post))
    (hpre : ∀ y ∈ pre, y.2 ≠ x) (hfuel : post.length < fuel) :
    Yields (nDlistRemoveAllLoop x fuel head (firstPtr post none)) h (addrs (pre ++ post))
      ((pre ++ post).filter fun y => y.2 ≠ x) := by
  induction post generalizing h head pre fuel with
  | nil =>
      obtain ⟨fuel, rfl⟩ := Nat.exists_eq_succ_of_ne_zero hfuel.ne'
      rw [List.append_nil] at *
      rw [List.filter_eq_self.mpr (by simpa using hpre)]
      obtain rfl := hl.head_eq
      exact ⟨h, rfl, hl, Exchanges.refl h _⟩
  | cons y post ih =>
      obtain ⟨a, d⟩ := y
      obtain ⟨fuel, rfl⟩ := Nat.exists_eq_succ_of_ne_zero (Nat.ne_zero_of_lt hfuel)
      have hrest : post.length < fuel := Nat.lt_of_succ_lt_succ hfuel
      by_cases hd : d = x
      · subst hd
        obtain ⟨hlist, hex⟩ := hl.deleted
        have hfilter : ((pre ++ (a, d) :: post).filter fun y => y.2 ≠ d) =
            (pre ++ post).filter fun y => y.2 ≠ d := by
          simp
        rw [hfilter]
        exact (ih hlist hpre hrest).after hex (nDlistRemoveAllLoop_found hl fuel)
      · have hnode := (seg_append.mp hl.seg).2.1
        rw [List.append_cons] at hl ⊢
        have hpre' : ∀ y ∈ pre ++ [(a, d)], y.2 ≠ x :=
          List.forall_mem_append.mpr ⟨hpre, List.forall_mem_singleton.mpr hd⟩
        apply (ih hl hpre' hrest).after (Exchanges.refl h _)
        rw [nDlistRemoveAllLoop, firstPtr_cons, if_neg (Option.some_ne_none a),
          run_bind (load_run hnode)]
        simp only [dlist_node, ne_eq, hd, not_false_eq_true, if_true]

theorem nDlistRemoveAll_yields (hl : IsList h head l) (x : δ) :
    Yields (nDlistRemoveAll head x) h (addrs l) (l.filter fun y => y.2 ≠ x) := by
  have hloop := @nDlistRemoveAllLoop_yields _ h head [] l x _ (h.keys.card + 1) hl
    (fun y hy => absurd hy List.not_mem_nil) (Nat.lt_succ_of_le hl.length_le)
  rw [← hl.head_eq] at hloop
  exact hloop.after (Exchanges.refl h _) (run_bind (blocks_run h) _)

end

theorem nDlistConcat_yields {head1 head2 : Ptr} (hl : IsList h head1 l) (hm : IsList h head2 m)
    (hdisj : (addrs l).Disjoint (addrs m)) :
    Yields (nDlistConcat head1 head2) h (addrs l ++ addrs m) (l ++ m) := by
  obtain ⟨hlist, hex⟩ := hl.joined hm hdisj
  have hlast := listLast_run hl.seg hl.nodup
  obtain rfl := hl.head_eq
  obtain rfl := hm.head_eq
  cases m with
  | nil =>
      rw [addrs_nil, List.append_nil, List.append_nil]
      exact ⟨h, rfl, hl, Exchanges.refl h _⟩
  | cons y m =>
      obtain ⟨t, e⟩ := y
      have ht := hm.seg.1
      refine ⟨_, ?_, hlist, hex⟩
      rcases List.eq_nil_or_concat l with rfl | ⟨l, ⟨b, d⟩, rfl⟩
      · rw [firstPtr_nil, lastPtr_nil] at hlast
        simp [nDlistConcat, nDlistLast, hlast, ht, joined, relink, alter]
      · rw [List.concat_eq_append] at *
        have hb := (seg_append.mp hl.seg).2.1
        have hbt : b ≠ t := fun heq => hdisj (a := b) (by simp) (by simp [heq])
        rw [firstPtr_append, firstPtr_cons, lastPtr_append, lastPtr_cons, lastPtr_nil] at hlast
        simp [nDlistConcat, nDlistLast, hlast, ht, hb, hbt.symm, joined, relink, alter,
          Finmap.lookup_insert_of_ne]

/-- What is reversed already is entered from what is still to be reversed, and
the other way round. -/
theorem nDlistReverseLoop_run {fuel : Nat} (hdone : Seg h (firstPtr post none) pre none)
    (hrest : Seg h (firstPtr pre none) post none) (hnodup : (addrs (pre ++ post)).Nodup)
    (hfuel : post.length < fuel) :
    Yields (nDlistReverseLoop fuel (firstPtr pre none) (firstPtr post none)) h (addrs (pre ++ post))
      (post.reverse ++ pre) := by
  induction post generalizing h pre fuel with
  | nil =>
      obtain ⟨fuel, rfl⟩ := Nat.exists_eq_succ_of_ne_zero hfuel.ne'
      rw [List.append_nil] at *
      exact ⟨h, rfl, ⟨rfl, hdone, hnodup⟩, Exchanges.refl h _⟩
  | cons y post ih =>
      obtain ⟨a, d⟩ := y
      obtain ⟨fuel, rfl⟩ := Nat.exists_eq_succ_of_ne_zero (Nat.ne_zero_of_lt hfuel)
      obtain ⟨hnodup', hpre, hpost⟩ := nodup_movedFront hnodup
      have ha := hrest.1
      let h' := h.insert a ⟨d, firstPtr pre none, firstPtr post none⟩
      have hdone' : Seg h' (firstPtr post none) ((a, d) :: pre) none :=
        ⟨Finmap.lookup_insert h, hdone.insert hpre _⟩
      have hrest' : Seg h' (firstPtr ((a, d) :: pre) none) post none := hrest.2.insert hpost _
      have hex : Exchanges h (addrs (pre ++ (a, d) :: post)) h' (addrs ((a, d) :: pre ++ post)) :=
        exchanges_movedFront _
      have hnext := ih hdone' hrest' hnodup' (Nat.lt_of_succ_lt_succ hfuel)
      rw [List.reverse_cons, List.append_assoc, List.singleton_append]
      apply hnext.after hex
      rw [nDlistReverseLoop, firstPtr_cons, if_neg (Option.some_ne_none a), run_bind (load_run ha),
        run_bind (store_run ha _), run_bind (store_run (Finmap.lookup_insert h) _),
        Finmap.insert_insert]
      rfl

theorem nDlistReverse_yields (hl : IsList h head l) :
    Yields (nDlistReverse head) h (addrs l) l.reverse := by
  have hloop := @nDlistReverseLoop_run _ h [] l (h.keys.card + 1) trivial hl.seg hl.nodup
    (Nat.lt_succ_of_le hl.length_le)
  rw [← hl.head_eq, List.append_nil] at hloop
  exact hloop.after (Exchanges.refl h _) (run_bind (blocks_run h) _)

/-- The loop copies the nodes `l` behind the node `a`. -/
theorem nDlistCopyLoop_run {func : Option (δ → δ → δ)} {userData : δ} {fuel : Nat} {p q n : Ptr}
    (hl : Seg h p l none) (ha : h.lookup a = some ⟨d, n, q⟩) (hnot : a ∉ addrs l)
    (hfuel : l.length < fuel) :
    ∃ m h',
      (nDlistCopyLoop al func userData fuel (some a) (firstPtr l none)).run h = some ((), h') ∧
      m.map Prod.snd = copies func userData l ∧ Seg h' q ((a, d) :: m) none ∧
      (addrs ((a, d) :: m)).Nodup ∧ Exchanges h [a] h' (addrs ((a, d) :: m)) := by
  induction l generalizing h p a d q n fuel with
  | nil =>
      obtain ⟨fuel, rfl⟩ := Nat.exists_eq_succ_of_ne_zero hfuel.ne'
      refine ⟨[], h.insert a ⟨d, none, q⟩, store_run ha _, rfl, ?_, List.nodup_singleton a, ?_⟩
      · exact ⟨Finmap.lookup_insert h, trivial⟩
      · exact Exchanges.insert List.mem_cons_self _
  | cons y l ih =>
      obtain ⟨b, e⟩ := y
      obtain ⟨fuel, rfl⟩ := Nat.exists_eq_succ_of_ne_zero (Nat.ne_zero_of_lt hfuel)
      have hb := hl.1
      have hdead := al.lookup_place h
      have hac := ne_of_dead hdead ha
      have hbc := ne_of_dead hdead hb
      rw [addrs_cons, List.mem_cons, not_or] at hnot
      generalize hc : al.place h = c at *
      let new : NDlist δ := ⟨copied func userData e, (al.junk h).next, some a⟩
      let h₁ := (h.insert c new).insert a ⟨d, some c, q⟩
      have hnew : h₁.lookup c = some new := by
        rw [Finmap.lookup_insert_of_ne _ hac.symm, Finmap.lookup_insert]
      have hfirst : h₁.lookup a = some ⟨d, some c, q⟩ := Finmap.lookup_insert _
      have hcl : c ∉ addrs l := hl.2.not_mem_of_dead hdead
      have hl' : Seg h₁ (some b) l none := (hl.2.insert hcl _).insert hnot.2 _
      obtain ⟨m, h', hrun, hdata, hseg, hnodup, hex⟩ :=
        ih hl' hnew hcl (Nat.lt_of_succ_lt_succ hfuel)
      have hac' : a ∉ [c] := mt List.mem_singleton.mp hac
      have ham : a ∉ addrs ((c, new.data) :: m) := hex.not_mem hac' hfirst
      refine ⟨(c, new.data) :: m, h', ?_, ?_, ?_, ?_, ?_⟩
      · rw [← hrun, nDlistCopyLoop]
        simp [hc, ha, hb, hac, hac.symm, hbc, Ne.symm hnot.1, h₁, new, Finmap.lookup_insert_of_ne,
          Finmap.insert_insert_of_ne _ hac]
      · rw [List.map_cons, hdata]
        rfl
      · exact ⟨hex.lookup_eq hac' hfirst, hseg⟩
      · exact List.nodup_cons.mpr ⟨ham, hnodup⟩
      · exact Exchanges.allocBehind hdead new _ hex

theorem nDlistCopyDeep_yields [Zero δ] (hl : IsList h head l) (func : Option (δ → δ → δ))
    (userData : δ) :
    ∃ m, m.map Prod.snd = copies func userData l ∧
      Yields (nDlistCopyDeep al head func userData) h [] m := by
  obtain rfl := hl.head_eq
  cases l with
  | nil => exact ⟨[], rfl, h, rfl, IsList.nil h, Exchanges.refl h _⟩
  | cons y l =>
      obtain ⟨b, e⟩ := y
      have hb := hl.seg.1
      have hdead := al.lookup_place h
      have hbc := ne_of_dead hdead hb
      have hcl := hl.seg.2.not_mem_of_dead hdead
      let new : NDlist δ := ⟨copied func userData e, (al.junk h).next, none⟩
      have hlength := hl.length_le
      obtain ⟨m, h', hrun, hdata, hseg, hnodup, hex⟩ :=
        @nDlistCopyLoop_run _ al (h.insert (al.place h) new) l _ _ func userData
          (h.keys.card + 1) _ _ _ (hl.seg.2.insert hcl _) (Finmap.lookup_insert h) hcl
          (Nat.lt_succ_of_lt hlength)
      refine ⟨(al.place h, new.data) :: m, ?_, h', ?_, ⟨rfl, hseg, hnodup⟩, ?_⟩
      · rw [List.map_cons, hdata]
        rfl
      · simp only [new] at hrun
        simp [nDlistCopyDeep, hb, hbc, hrun, Finmap.lookup_insert_of_ne]
      · exact (Exchanges.alloc hdead new).trans hex

end

end SqliteFs
