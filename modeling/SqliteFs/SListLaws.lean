import SqliteFs.SList

/-!
What the functions of the singly-linked list do to the nodes of a list: the same
as those of the doubly-linked list, shown in the same order and in the same words.
-/

namespace SqliteFs

open Lib Lib.Mem Lib.ListNode

section

variable {δ : Type} {al : Allocator (NSlist δ)} {h : Heap (NSlist δ)} {head : Ptr}
  {l m pre post : List (Nat × δ)} {a : Nat} {d x : δ} {p n : Ptr}

theorem nSlistAppend_yields (hl : IsList h head l) (x : δ) :
    Yields (nSlistAppend al head x) h (addrs l) (l ++ [(al.place h, x)]) := by
  have hdead := al.lookup_place h
  have hrun : (nSlistAppend al head x).run h = some (firstPtr l (some (al.place h)),
      linkedIn (al.place h) x (lastPtr none l) none h) := by
    obtain rfl := hl.head_eq
    rcases List.eq_nil_or_concat l with rfl | ⟨l, ⟨b, d⟩, rfl⟩
    · simp [nSlistAppend, linkedIn]
    · rw [List.concat_eq_append] at *
      have hb := (seg_append.mp hl.seg).2.1
      have hne := ne_of_dead hdead hb
      have hlast := listLast_run (hl.seg.insert (hl.seg.not_mem_of_dead hdead) ⟨x, none⟩) hl.nodup
      rw [firstPtr_append, lastPtr_append, firstPtr_cons, lastPtr_cons, lastPtr_nil] at hlast
      simp [nSlistAppend, nSlistLast, hlast, hb, hne, linkedIn, alter, Finmap.lookup_insert_of_ne]
  have hl' : IsList h head (l ++ []) := by rwa [List.append_nil]
  have hyields := Yields.of_linkedIn hl' hdead hrun
  rwa [List.append_nil] at hyields

theorem nSlistPrepend_yields (hl : IsList h head l) (x : δ) :
    Yields (nSlistPrepend al head x) h (addrs l) ((al.place h, x) :: l) := by
  have hdead := al.lookup_place h
  have hrun : (nSlistPrepend al head x).run h = some (some (al.place h),
      linkedIn (al.place h) x none (firstPtr l none) h) := by
    obtain rfl := hl.head_eq
    simp [nSlistPrepend, linkedIn]
  exact @Yields.of_linkedIn _ _ _ _ [] _ _ _ _ _ hl hdead hrun

theorem nSlistInsertLoop_run (hseg : Seg h p l none) (position : Nat) :
    (nSlistInsertLoop position p (firstPtr l none)).run h =
      some (lastPtr p (l.take position), h) := by
  induction position generalizing p l with
  | zero => rfl
  | succ position ih =>
      cases l with
      | nil => rfl
      | cons y l =>
          obtain ⟨a, d⟩ := y
          rw [nSlistInsertLoop, firstPtr_cons, if_neg (Option.some_ne_none a),
            run_bind (load_run hseg.1), List.take_succ_cons, lastPtr_cons]
          exact ih hseg.2

theorem nSlistInsert_yields (hl : IsList h head l) (x : δ) (position : Int32) :
    Yields (nSlistInsert al head x position) h (addrs l)
      (insertAt position (al.place h, x) l) := by
  unfold insertAt insertPlace
  by_cases hneg : position < 0
  · rw [if_pos hneg, List.take_length, List.drop_length, nSlistInsert, if_pos hneg]
    exact nSlistAppend_yields hl x
  rw [if_neg hneg]
  by_cases hzero : position = 0
  · subst hzero
    exact nSlistPrepend_yields hl x
  have hpos := toNatClampNeg_ne_zero hneg hzero
  have hdead := al.lookup_place h
  have hwalk := nSlistInsertLoop_run (hl.seg.insert (hl.seg.not_mem_of_dead hdead)
    ⟨x, (al.junk h).next⟩) position.toNatClampNeg
  rw [Yields, nSlistInsert, if_neg hneg, if_neg hzero]
  generalize position.toNatClampNeg = k at hpos hwalk ⊢
  have hsplit := List.take_append_drop k l
  rcases List.eq_nil_or_concat (l.take k) with hnil | ⟨pre, ⟨b, d⟩, hfront⟩
  · obtain rfl := (List.take_eq_nil_iff.mp hnil).resolve_left hpos
    obtain rfl := hl.head_eq
    rw [List.take_nil, List.drop_nil]
    apply Yields.of_linkedIn (IsList.nil h) hdead
    simp [linkedIn]
  · rw [List.concat_eq_append] at hfront
    rw [hfront] at hwalk hsplit ⊢
    generalize l.drop k = post at hsplit ⊢
    subst hsplit
    have hb := (seg_append.mp (seg_append.mp hl.seg).1).2.1
    have hbne := ne_of_dead hdead hb
    simp only [firstPtr_append, firstPtr_cons, lastPtr_append, lastPtr_cons, lastPtr_nil] at hwalk
    apply Yields.of_linkedIn hl hdead
    simp [hwalk, hb, hbne, hl.head_eq, linkedIn, alter, Finmap.lookup_insert_of_ne]

theorem nSlistBeforeLoop_skip {sibling : Ptr} (hseg : Seg h p pre n)
    (hpre : ∀ b ∈ addrs pre, some b ≠ sibling) (fuel : Nat) :
    (nSlistBeforeLoop sibling (pre.length + fuel) p (firstPtr pre n)).run h =
      (nSlistBeforeLoop sibling fuel (lastPtr p pre) n).run h := by
  induction pre generalizing p with
  | nil => rw [List.length_nil, Nat.zero_add, firstPtr_nil, lastPtr_nil]
  | cons y pre ih =>
      obtain ⟨b, d⟩ := y
      rw [List.length_cons, Nat.add_right_comm, nSlistBeforeLoop, firstPtr_cons,
        if_neg (Option.some_ne_none b), if_neg (hpre b List.mem_cons_self),
        run_bind (load_run hseg.1)]
      exact ih hseg.2 (fun c hc => hpre c (List.mem_cons_of_mem b hc))

/-- The walk finds the node in front of the sibling, which is the last one if
there is no sibling. -/
theorem nSlistBeforeLoop_run (hl : IsList h head (pre ++ post)) :
    (nSlistBeforeLoop (firstPtr post none) (h.keys.card + 1) none head).run h =
      some (lastPtr none pre, h) := by
  obtain ⟨fuel, hfuel⟩ := hl.exists_fuel_front
  have hpre : ∀ b ∈ addrs pre, some b ≠ firstPtr post none :=
    fun b hb heq => hl.ne_of_split rfl hb (firstPtr_mem heq.symm) rfl
  have hskip := nSlistBeforeLoop_skip (seg_append.mp hl.seg).1 hpre (fuel + 1)
  rw [← firstPtr_append, ← hl.head_eq, ← hfuel] at hskip
  rw [hskip, nSlistBeforeLoop]
  by_cases hnone : firstPtr post none = none
  · rw [if_pos hnone]
    rfl
  · rw [if_neg hnone, if_pos rfl]
    rfl

theorem nSlistInsertBefore_yields (hl : IsList h head (pre ++ post)) (x : δ) :
    Yields (nSlistInsertBefore al head (firstPtr post none) x) h (addrs (pre ++ post))
      (pre ++ (al.place h, x) :: post) := by
  have hdead := al.lookup_place h
  have hwalk := nSlistBeforeLoop_run hl
  apply Yields.of_linkedIn hl hdead
  obtain rfl := hl.head_eq
  rcases List.eq_nil_or_concat pre with rfl | ⟨pre, ⟨b, d⟩, rfl⟩
  · cases post with
    | nil => simp [nSlistInsertBefore, linkedIn]
    | cons y post =>
        obtain ⟨t, e⟩ := y
        rw [List.nil_append, firstPtr_cons, lastPtr_nil] at hwalk
        simp [nSlistInsertBefore, hwalk, linkedIn]
  · rw [List.concat_eq_append] at *
    have hb := (seg_append.mp (seg_append.mp hl.seg).1).2.1
    have hbne := ne_of_dead hdead hb
    simp only [firstPtr_append, firstPtr_cons, lastPtr_append, lastPtr_cons, lastPtr_nil]
      at hwalk
    simp [nSlistInsertBefore, hwalk, hb, hbne, linkedIn, alter, Finmap.lookup_insert_of_ne]

theorem nSlistConcat_yields {head1 head2 : Ptr} (hl : IsList h head1 l) (hm : IsList h head2 m)
    (hdisj : (addrs l).Disjoint (addrs m)) :
    Yields (nSlistConcat head1 head2) h (addrs l ++ addrs m) (l ++ m) := by
  obtain ⟨hlist, hex⟩ := hl.joined hm hdisj
  have hlast := listLast_run hl.seg hl.nodup
  obtain rfl := hl.head_eq
  obtain rfl := hm.head_eq
  cases m with
  | nil =>
      rw [addrs_nil, List.append_nil, List.append_nil]
      exact ⟨h, rfl, hl, Exchanges.refl h _⟩
  | cons y m =>
      obtain ⟨t, e⟩ := y
      refine ⟨_, ?_, hlist, hex⟩
      rcases List.eq_nil_or_concat l with rfl | ⟨l, ⟨b, d⟩, rfl⟩
      · simp [nSlistConcat, joined]
      · rw [List.concat_eq_append] at *
        have hb := (seg_append.mp hl.seg).2.1
        rw [firstPtr_append, firstPtr_cons, lastPtr_append, lastPtr_cons, lastPtr_nil] at hlast
        simp [nSlistConcat, nSlistLast, hlast, hb, joined, alter]

theorem nSlistUnlinkLoop_skip (list link : Ptr) (hseg : Seg h p pre n)
    (hpre : ∀ b ∈ addrs pre, some b ≠ link) (fuel : Nat) :
    (nSlistUnlinkLoop list link (pre.length + fuel) p (firstPtr pre n)).run h =
      (nSlistUnlinkLoop list link fuel (lastPtr p pre) n).run h := by
  induction pre generalizing p with
  | nil => rw [List.length_nil, Nat.zero_add, firstPtr_nil, lastPtr_nil]
  | cons y pre ih =>
      obtain ⟨b, d⟩ := y
      rw [List.length_cons, Nat.add_right_comm, nSlistUnlinkLoop, firstPtr_cons,
        if_neg (Option.some_ne_none b), if_neg (hpre b List.mem_cons_self),
        run_bind (load_run hseg.1)]
      exact ih hseg.2 (fun c hc => hpre c (List.mem_cons_of_mem b hc))

theorem nSlistUnlink_run (hl : IsList h head (pre ++ (a, d) :: post)) :
    (nSlistUnlink head (some a)).run h = some (firstPtr pre (firstPtr post none),
      (takenOut (lastPtr none pre) (firstPtr post none) h).insert a ⟨d, none⟩) := by
  have hseg := seg_append.mp hl.seg
  have ha := hseg.2.1
  obtain ⟨fuel, hfuel⟩ := hl.exists_fuel_front
  have hpre : ∀ b ∈ addrs pre, some b ≠ some a := by
    intro b hb heq
    exact hl.ne_of_split rfl hb List.mem_cons_self (Option.some.inj heq)
  have hskip := nSlistUnlinkLoop_skip head (some a) hseg.1 hpre (fuel + 1)
  rw [← firstPtr_append, ← hl.head_eq, ← hfuel] at hskip
  rw [nSlistUnlink, run_bind (blocks_run h), hskip, nSlistUnlinkLoop, firstPtr_cons,
    if_neg (Option.some_ne_none a), if_pos rfl, run_bind (load_run ha)]
  obtain rfl := hl.head_eq
  rcases List.eq_nil_or_concat pre with rfl | ⟨pre, ⟨b, c⟩, rfl⟩
  · simp [ha, takenOut]
  · rw [List.concat_eq_append] at *
    have hb := (seg_append.mp hseg.1).2.1
    have hba : b ≠ a := hl.ne_of_split rfl (by simp) (by simp)
    have hhead := firstPtr_ne hl
    simp [ha, hb, hba.symm, hhead, takenOut, alter, Finmap.lookup_insert_of_ne]

/-- Unlinking leaves the rest of the list, and the node alone. -/
theorem nSlistUnlink_spec (hl : IsList h head (pre ++ (a, d) :: post)) :
    ∃ h₁, (nSlistUnlink head (some a)).run h = some (firstPtr (pre ++ post) none, h₁) ∧
      IsList h₁ (firstPtr (pre ++ post) none) (pre ++ post) ∧
      h₁.lookup a = some ⟨d, none⟩ ∧
      Exchanges h (addrs (pre ++ (a, d) :: post)) h₁ (a :: addrs (pre ++ post)) := by
  obtain ⟨hlist, hex, _⟩ := hl.takenOut
  rw [firstPtr_append]
  refine ⟨_, nSlistUnlink_run hl, hlist.insert hl.not_mem_of_middle _, Finmap.lookup_insert _, ?_⟩
  exact hex.trans (Exchanges.insert List.mem_cons_self _)

theorem nSlistDeleteLink_yields (hl : IsList h head (pre ++ (a, d) :: post)) :
    Yields (nSlistDeleteLink head (some a)) h (addrs (pre ++ (a, d) :: post)) (pre ++ post) := by
  obtain ⟨h₁, hrun, hlist, ha, hex⟩ := nSlistUnlink_spec hl
  have hnot := hl.not_mem_of_middle
  refine ⟨h₁.erase a, ?_, hlist.erase hnot, hex.trans (Exchanges.erase hnot)⟩
  rw [nSlistDeleteLink, run_bind hrun, run_bind (free_run (Finmap.mem_of_lookup_eq_some ha))]
  rfl

/-- The null pointer is found nowhere. -/
theorem nSlistUnlink_none (hl : IsList h head l) :
    (nSlistUnlink head none).run h = some (head, h) := by
  obtain ⟨fuel, hfuel⟩ := hl.exists_fuel
  have hskip := nSlistUnlinkLoop_skip head none hl.seg (fun b _ => Option.some_ne_none b) (fuel + 1)
  rw [← hl.head_eq, ← hfuel] at hskip
  rw [nSlistUnlink, run_bind (blocks_run h), hskip, nSlistUnlinkLoop, if_pos rfl]
  rfl

/-- Deleting the null pointer changes nothing. -/
theorem nSlistDeleteLink_none (hl : IsList h head l) :
    Yields (nSlistDeleteLink head none) h (addrs l) l := by
  have hrun := nSlistUnlink_none hl
  obtain rfl := hl.head_eq
  refine ⟨h, ?_, hl, Exchanges.refl h _⟩
  rw [nSlistDeleteLink, run_bind hrun]
  rfl

section

variable [DecidableEq δ]

theorem nSlistRemoveLoop_skip (list : Ptr) (hseg : Seg h p pre n) (hx : ∀ y ∈ pre, y.2 ≠ x)
    (fuel : Nat) :
    (nSlistRemoveLoop list x (pre.length + fuel) p (firstPtr pre n)).run h =
      (nSlistRemoveLoop list x fuel (lastPtr p pre) n).run h := by
  induction pre generalizing p with
  | nil => rw [List.length_nil, Nat.zero_add, firstPtr_nil, lastPtr_nil]
  | cons y pre ih =>
      obtain ⟨b, d⟩ := y
      have hd : d ≠ x := hx (b, d) List.mem_cons_self
      rw [List.length_cons, Nat.add_right_comm, nSlistRemoveLoop, firstPtr_cons,
        if_neg (Option.some_ne_none b), run_bind (load_run hseg.1)]
      simp only [slist_node, if_neg hd]
      exact ih hseg.2 (fun y hy => hx y (List.mem_cons_of_mem _ hy))

theorem nSlistRemove_yields (hl : IsList h head l) (x : δ) :
    Yields (nSlistRemove head x) h (addrs l) (l.eraseP fun y => y.2 = x) := by
  have hhead := hl.head_eq
  by_cases hx : ∃ y ∈ l, y.2 = x
  · obtain ⟨y, hy, hyx⟩ := hx
    obtain ⟨⟨a, d⟩, pre, post, hpre, ha, rfl, herase⟩ :=
      List.exists_of_eraseP (p := fun y : Nat × δ => y.2 = x) hy (by simpa using hyx)
    obtain rfl : d = x := by simpa using ha
    have hseg := seg_append.mp hl.seg
    have hnode := hseg.2.1
    rw [firstPtr_append] at hhead
    obtain ⟨fuel, hfuel⟩ := hl.exists_fuel_front
    have hskip := nSlistRemoveLoop_skip head hseg.1 (by simpa using hpre) (fuel + 1)
    rw [← hhead, ← hfuel] at hskip
    rw [herase]
    refine ⟨_, ?_, hl.deleted⟩
    rw [nSlistRemove, run_bind (blocks_run h), hskip, nSlistRemoveLoop, firstPtr_cons,
      if_neg (Option.some_ne_none a), run_bind (load_run hnode)]
    rcases List.eq_nil_or_concat pre with rfl | ⟨pre, ⟨b, c⟩, rfl⟩
    · simp [takenOut, Finmap.mem_of_lookup_eq_some hnode]
    · rw [List.concat_eq_append] at *
      have hb := (seg_append.mp hseg.1).2.1
      simp [hhead, hb, takenOut, alter, Finmap.mem_of_lookup_eq_some hnode]
  · have hx' : ∀ y ∈ l, y.2 ≠ x := fun y hy hyx => hx ⟨y, hy, hyx⟩
    obtain ⟨fuel, hfuel⟩ := hl.exists_fuel
    have hskip := nSlistRemoveLoop_skip head hl.seg hx' (fuel + 1)
    rw [← hhead, ← hfuel] at hskip
    rw [List.eraseP_of_forall_not (by simpa using hx')]
    refine ⟨h, ?_, hhead ▸ hl, Exchanges.refl h _⟩
    rw [nSlistRemove, run_bind (blocks_run h), hskip, nSlistRemoveLoop, if_pos rfl, ← hhead]
    rfl

/-- One removal of the loop: the node is taken out and freed. -/
theorem nSlistRemoveAllLoop_found (hl : IsList h head (pre ++ (a, x) :: post)) (fuel : Nat) :
    (nSlistRemoveAllLoop x (fuel + 1) head (lastPtr none pre) (some a)).run h =
      (nSlistRemoveAllLoop x fuel (firstPtr (pre ++ post) none) (lastPtr none pre)
        (firstPtr post none)).run
        ((takenOut (lastPtr none pre) (firstPtr post none) h).erase a) := by
  have hseg := seg_append.mp hl.seg
  have ha := hseg.2.1
  obtain rfl := hl.head_eq
  rw [nSlistRemoveAllLoop, if_neg (Option.some_ne_none a), run_bind (load_run ha)]
  rcases List.eq_nil_or_concat pre with rfl | ⟨pre, ⟨b, c⟩, rfl⟩
  · simp [takenOut, Finmap.mem_of_lookup_eq_some ha]
  · rw [List.concat_eq_append] at *
    have hb := (seg_append.mp hseg.1).2.1
    simp [hb, takenOut, alter, Finmap.mem_of_lookup_eq_some ha]

/-- The nodes in front of `tmp` have been looked at and kept. -/
theorem nSlistRemoveAllLoop_yields {fuel : Nat} (hl : IsList h head (pre ++ post))
    (hpre : ∀ y ∈ pre, y.2 ≠ x) (hfuel : post.length < fuel) :
    Yields (nSlistRemoveAllLoop x fuel head (lastPtr none pre) (firstPtr post none)) h
      (addrs (pre ++ post)) ((pre ++ post).filter fun y => y.2 ≠ x) := by
  induction post generalizing h head pre fuel with
  | nil =>
      obtain ⟨fuel, rfl⟩ := Nat.exists_eq_succ_of_ne_zero hfuel.ne'
      rw [List.append_nil] at *
      rw [List.filter_eq_self.mpr (by simpa using hpre)]
      obtain rfl := hl.head_eq
      exact ⟨h, rfl, hl, Exchanges.refl h _⟩
  | cons y post ih =>
      obtain ⟨a, d⟩ := y
      obtain ⟨fuel, rfl⟩ := Nat.exists_eq_succ_of_ne_zero (Nat.ne_zero_of_lt hfuel)
      have hrest : post.length < fuel := Nat.lt_of_succ_lt_succ hfuel
      by_cases hd : d = x
      · subst hd
        obtain ⟨hlist, hex⟩ := hl.deleted
        have hfilter : ((pre ++ (a, d) :: post).filter fun y => y.2 ≠ d) =
            (pre ++ post).filter fun y => y.2 ≠ d := by
          simp
        rw [hfilter]
        exact (ih hlist hpre hrest).after hex (nSlistRemoveAllLoop_found hl fuel)
      · have hnode := (seg_append.mp hl.seg).2.1
        rw [List.append_cons] at hl ⊢
        have hpre' : ∀ y ∈ pre ++ [(a, d)], y.2 ≠ x :=
          List.forall_mem_append.mpr ⟨hpre, List.forall_mem_singleton.mpr hd⟩
        apply (ih hl hpre' hrest).after (Exchanges.refl h _)
        rw [nSlistRemoveAllLoop, firstPtr_cons, if_neg (Option.some_ne_none a),
          run_bind (load_run hnode), lastPtr_append]
        simp only [slist_node, if_neg hd, lastPtr_cons, lastPtr_nil]

theorem nSlistRemoveAll_yields (hl : IsList h head l) (x : δ) :
    Yields (nSlistRemoveAll head x) h (addrs l) (l.filter fun y => y.2 ≠ x) := by
  have hloop := @nSlistRemoveAllLoop_yields _ h head [] l x _ (h.keys.card + 1) hl
    (fun y hy => absurd hy List.not_mem_nil) (Nat.lt_succ_of_le hl.length_le)
  rw [← hl.head_eq] at hloop
  exact hloop.after (Exchanges.refl h _) (run_bind (blocks_run h) _)

end

/-- What is reversed already and what is still to be reversed end both in the
null pointer. -/
theorem nSlistReverseLoop_run {fuel : Nat} {q : Ptr} (hdone : Seg h p pre none)
    (hrest : Seg h q post none) (hnodup : (addrs (pre ++ post)).Nodup)
    (hfuel : post.length < fuel) :
    Yields (nSlistReverseLoop fuel (firstPtr pre none) (firstPtr post none)) h
      (addrs (pre ++ post)) (post.reverse ++ pre) := by
  induction post generalizing h pre fuel p q with
  | nil =>
      obtain ⟨fuel, rfl⟩ := Nat.exists_eq_succ_of_ne_zero hfuel.ne'
      rw [List.append_nil] at *
      exact ⟨h, rfl, ⟨rfl, slist_seg_prev hdone none, hnodup⟩, Exchanges.refl h _⟩
  | cons y post ih =>
      obtain ⟨a, d⟩ := y
      obtain ⟨fuel, rfl⟩ := Nat.exists_eq_succ_of_ne_zero (Nat.ne_zero_of_lt hfuel)
      obtain ⟨hnodup', hpre, hpost⟩ := nodup_movedFront hnodup
      have ha := hrest.1
      let h' := h.insert a ⟨d, firstPtr pre none⟩
      have hdone' : Seg h' none ((a, d) :: pre) none :=
        ⟨Finmap.lookup_insert h, slist_seg_prev (hdone.insert hpre _) (some a)⟩
      have hrest' : Seg h' (some a) post none := hrest.2.insert hpost _
      have hex : Exchanges h (addrs (pre ++ (a, d) :: post)) h' (addrs ((a, d) :: pre ++ post)) :=
        exchanges_movedFront _
      have hnext := ih hdone' hrest' hnodup' (Nat.lt_of_succ_lt_succ hfuel)
      rw [List.reverse_cons, List.append_assoc, List.singleton_append]
      apply hnext.after hex
      rw [nSlistReverseLoop, firstPtr_cons, if_neg (Option.some_ne_none a),
        run_bind (load_run ha), run_bind (store_run ha _)]
      rfl

theorem nSlistReverse_yields (hl : IsList h head l) :
    Yields (nSlistReverse head) h (addrs l) l.reverse := by
  have hloop := @nSlistReverseLoop_run _ h [] l none (h.keys.card + 1) none trivial hl.seg
    hl.nodup (Nat.lt_succ_of_le hl.length_le)
  rw [← hl.head_eq, List.append_nil] at hloop
  exact hloop.after (Exchanges.refl h _) (run_bind (blocks_run h) _)

/-- The loop copies the nodes `l` behind the node `a`. -/
theorem nSlistCopyLoop_run {func : Option (δ → δ → δ)} {userData : δ} {fuel : Nat}
    (hl : Seg h p l none) (ha : h.lookup a = some ⟨d, n⟩) (hnot : a ∉ addrs l)
    (hfuel : l.length < fuel) :
    ∃ m h', (nSlistCopyLoop al func userData fuel (some a) (firstPtr l none)).run h =
        some ((), h') ∧
      m.map Prod.snd = copies func userData l ∧ Seg h' none ((a, d) :: m) none ∧
      (addrs ((a, d) :: m)).Nodup ∧ Exchanges h [a] h' (addrs ((a, d) :: m)) := by
  induction l generalizing h p a d n fuel with
  | nil =>
      obtain ⟨fuel, rfl⟩ := Nat.exists_eq_succ_of_ne_zero hfuel.ne'
      refine ⟨[], h.insert a ⟨d, none⟩, store_run ha _, rfl, ?_, List.nodup_singleton a, ?_⟩
      · exact ⟨Finmap.lookup_insert h, trivial⟩
      · exact Exchanges.insert List.mem_cons_self _
  | cons y l ih =>
      obtain ⟨b, e⟩ := y
      obtain ⟨fuel, rfl⟩ := Nat.exists_eq_succ_of_ne_zero (Nat.ne_zero_of_lt hfuel)
      have hb := hl.1
      have hdead := al.lookup_place h
      have hac := ne_of_dead hdead ha
      have hbc := ne_of_dead hdead hb
      rw [addrs_cons, List.mem_cons, not_or] at hnot
      generalize hc : al.place h = c at *
      let new : NSlist δ := ⟨copied func userData e, (al.junk h).next⟩
      let h₁ := (h.insert c new).insert a ⟨d, some c⟩
      have hnew : h₁.lookup c = some new := by
        rw [Finmap.lookup_insert_of_ne _ hac.symm, Finmap.lookup_insert]
      have hfirst : h₁.lookup a = some ⟨d, some c⟩ := Finmap.lookup_insert _
      have hcl : c ∉ addrs l := hl.2.not_mem_of_dead hdead
      have hl' : Seg h₁ (some b) l none := (hl.2.insert hcl _).insert hnot.2 _
      obtain ⟨m, h', hrun, hdata, hseg, hnodup, hex⟩ :=
        ih hl' hnew hcl (Nat.lt_of_succ_lt_succ hfuel)
      have hac' : a ∉ [c] := mt List.mem_singleton.mp hac
      have ham : a ∉ addrs ((c, new.data) :: m) := hex.not_mem hac' hfirst
      refine ⟨(c, new.data) :: m, h', ?_, ?_, ?_, ?_, ?_⟩
      · rw [← hrun, nSlistCopyLoop]
        simp [hc, ha, hb, hac, hac.symm, hbc, Ne.symm hnot.1, h₁, new, Finmap.lookup_insert_of_ne,
          Finmap.insert_insert_of_ne _ hac]
      · rw [List.map_cons, hdata]
        rfl
      · exact ⟨hex.lookup_eq hac' hfirst, slist_seg_prev hseg (some a)⟩
      · exact List.nodup_cons.mpr ⟨ham, hnodup⟩
      · exact Exchanges.allocBehind hdead new _ hex

theorem nSlistCopyDeep_yields [Zero δ] (hl : IsList h head l) (func : Option (δ → δ → δ))
    (userData : δ) :
    ∃ m, m.map Prod.snd = copies func userData l ∧
      Yields (nSlistCopyDeep al head func userData) h [] m := by
  obtain rfl := hl.head_eq
  cases l with
  | nil => exact ⟨[], rfl, h, rfl, IsList.nil h, Exchanges.refl h _⟩
  | cons y l =>
      obtain ⟨b, e⟩ := y
      have hb := hl.seg.1
      have hdead := al.lookup_place h
      have hbc := ne_of_dead hdead hb
      have hcl := hl.seg.2.not_mem_of_dead hdead
      let new : NSlist δ := ⟨copied func userData e, (al.junk h).next⟩
      obtain ⟨m, h', hrun, hdata, hseg, hnodup, hex⟩ :=
        @nSlistCopyLoop_run _ al (h.insert (al.place h) new) l _ _ _ _ func userData
          (h.keys.card + 1) (hl.seg.2.insert hcl _) (Finmap.lookup_insert h) hcl
          (Nat.lt_succ_of_lt hl.length_le)
      refine ⟨(al.place h, new.data) :: m, ?_, h', ?_, ⟨rfl, hseg, hnodup⟩, ?_⟩
      · rw [List.map_cons, hdata]
        rfl
      · simp only [new] at hrun
        simp [nSlistCopyDeep, hb, hbc, hrun, Finmap.lookup_insert_of_ne]
      · exact (Exchanges.alloc hdead new).trans hex

end

end SqliteFs
