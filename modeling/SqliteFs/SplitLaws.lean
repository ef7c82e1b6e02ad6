import SqliteFs.StrSplit

/-!
What the two splitters return. `n_strsplit` keeps its documentation for all but
the longest strings, `n_strsplit_set` agrees with it but for one string and two
limits, and the loop of `n_strsplit` ends early only if the length of the
delimiter, as the loop sees it, is not zero.
-/

namespace SqliteFs

open Lib

/-- What the documentation says of the tokens; a limit of 0 stands for none. -/
structure Splitting (string delimiter : CString) (maxTokens : Nat) (tokens : List CString) :
    Prop where
  empty_iff : tokens = [] ↔ string = []
  join : delimiter.intercalate tokens = string
  leftmost : Leftmost delimiter tokens
  not_infix : ∀ token ∈ tokens.dropLast, ¬delimiter <:+: token
  limit : 1 ≤ maxTokens → tokens.length ≤ maxTokens
  last : ∀ token ∈ tokens.getLast?, delimiter <:+: token →
    maxTokens ≠ 0 ∧ tokens.length = maxTokens

section

variable {string delimiter : CString} {maxTokens : Nat}

/-- The pieces are right unless what stands for no limit is one. -/
theorem splitting_pieces_iff (hstring : string ≠ []) (hd : delimiter ≠ []) :
    let tokens := pieces delimiter (tokenLimit maxTokens - 1) string
    Splitting string delimiter maxTokens tokens ↔
      ¬(maxTokens = 0 ∧ delimiter <:+: tokens.getLast (pieces_ne_nil _ _ _)) := by
  intro tokens
  have hlimit := tokenLimit_eq maxTokens
  have hleftmost : Leftmost delimiter tokens := leftmost_pieces _ _ _
  have hgetLast : tokens.getLast? = some (tokens.getLast (pieces_ne_nil _ _ _)) :=
    List.getLast?_eq_getLast_of_ne_nil _
  constructor
  · intro hsplitting hlast
    exact (hsplitting.last _ hgetLast hlast.2).1 hlast.1
  · intro hlast
    refine ⟨iff_of_false (pieces_ne_nil _ _ _) hstring, intercalate_pieces _ _ _, hleftmost,
      hleftmost.not_infix hd, ?_, ?_⟩
    · intro hpos
      have hle : tokens.length ≤ tokenLimit maxTokens - 1 + 1 := length_pieces_le _ _ _
      have hsame : tokenLimit maxTokens = maxTokens := if_neg (by omega)
      omega
    · intro token htoken hinside
      obtain rfl := Option.some.inj (hgetLast.symm.trans htoken)
      have hnonzero : maxTokens ≠ 0 := fun hzero => hlast ⟨hzero, hinside⟩
      have hlength : tokens.length = tokenLimit maxTokens - 1 + 1 := length_pieces_of_last hinside
      have hsame : tokenLimit maxTokens = maxTokens := if_neg (by omega)
      exact ⟨hnonzero, by omega⟩

/-- Without a limit the last piece contains the delimiter only if the string is
as long as can be and consists of delimiters. -/
theorem last_contains_iff (hd : delimiter ≠ []) (hlength : string.length ≤ 2147483647) :
    delimiter <:+: (pieces delimiter 2147483646 string).getLast (pieces_ne_nil _ _ _) ↔
      string.length = 2147483647 ∧ ∃ c, delimiter = [c] ∧ ∀ b ∈ string, b = c := by
  constructor
  · intro hinside
    have hnumber := length_pieces_of_last hinside
    have hall := length_pieces_eq delimiter 2147483646 string
    have hlast := List.getLast_mem (pieces_ne_nil delimiter 2147483646 string)
    have hsub := List.sublist_flatten_of_mem hlast
    have hpos := List.length_pos_iff.mpr hd
    have hle := hinside.length_le.trans hsub.length_le
    rw [hnumber, Nat.add_sub_cancel] at hall
    have hone : delimiter.length = 1 := by nlinarith
    rw [hone] at hall hle
    obtain ⟨c, rfl⟩ := List.length_eq_one_iff.mp hone
    obtain ⟨y, hy⟩ : ∃ y, (pieces [c] 2147483646 string).flatten = [y] :=
      List.length_eq_one_iff.mp (by omega)
    have hc : c = y := by
      have hmem := hsub.subset (hinside.subset (List.mem_singleton_self c))
      rwa [hy, List.mem_singleton] at hmem
    refine ⟨by omega, c, rfl, ?_⟩
    intro b hb
    rcases mem_or_mem_flatten_pieces [c] 2147483646 hb with hmem | hmem
    · exact List.mem_singleton.mp hmem
    · rw [hy, ← hc] at hmem
      exact List.mem_singleton.mp hmem
  · rintro ⟨hmax, c, rfl, hsame⟩
    obtain rfl := List.eq_replicate_iff.mpr ⟨hmax, hsame⟩
    have hpieces := pieces_replicate c 2147483646 1
    simp only [Nat.reduceAdd] at hpieces
    simp only [hpieces, List.getLast_concat, List.replicate_one, List.infix_rfl]

/-- The empty string has no pieces. -/
theorem nStrsplit_nil (hd : delimiter ≠ []) (maxTokens : Nat) :
    nStrsplit [] delimiter maxTokens = some [] := by
  have hnone : strstr [] delimiter = none := by
    rw [strstr, search_eq_none_iff, List.infix_nil]
    exact hd
  simp only [nStrsplit, Splitter.start, hnone, Option.isSome_none, Bool.false_eq_true, if_false,
    ne_eq, not_true_eq_false]
  rfl

theorem splitting_nil (delimiter : CString) (maxTokens : Nat) :
    Splitting [] delimiter maxTokens [] where
  empty_iff := ⟨fun _ => rfl, fun _ => rfl⟩
  join := rfl
  leftmost := trivial
  not_infix := by
    intro token htoken
    cases htoken
  limit := fun _ => Nat.zero_le _
  last := by
    intro token htoken
    cases htoken

/-- The copy of a string of `INT_MAX` bytes has no room for the NUL. -/
theorem nStrdup_eq_none {str : CString} (h : str.length = 2147483647) : nStrdup str = none := by
  unfold nStrdup
  rw [h]
  exact if_neg (by decide)

/-- The last piece can be copied unless it is a whole string of `INT_MAX` bytes. -/
theorem nStrdup_last_iff (hd : delimiter ≠ []) (hlength : string.length ≤ 2147483647)
    (maxTokens : Nat) :
    (nStrdup ((pieces delimiter (tokenLimit maxTokens - 1) string).getLast
        (pieces_ne_nil _ _ _))).isSome ↔
      string.length < 2147483647 ∨ delimiter <:+: string ∧ maxTokens ≠ 1 := by
  have hcuts : tokenLimit maxTokens - 1 = 0 ↔ maxTokens = 1 := by
    unfold tokenLimit
    constructor
    · intro hzero
      split_ifs at hzero with hnone
      omega
    · rintro rfl
      rfl
  have hmem := List.getLast_mem (pieces_ne_nil delimiter (tokenLimit maxTokens - 1) string)
  have hle := length_le_of_mem_pieces hmem
  rcases pieces_eq_singleton_or_shorter hd (tokenLimit maxTokens - 1) string with
    ⟨hone, hwhy⟩ | ⟨hmore, hfound, hshorter⟩
  · simp only [hone, List.getLast_singleton]
    have hnot : ¬(delimiter <:+: string ∧ maxTokens ≠ 1) := by
      rw [hcuts, search_eq_none_iff] at hwhy
      tauto
    by_cases hshort : string.length < 2147483647
    · have hint : (string.length : Int) < 2147483647 := by omega
      rw [nStrdup_eq hint]
      exact iff_of_true rfl (Or.inl hshort)
    · rw [nStrdup_eq_none (by omega)]
      exact iff_of_false (by simp) (not_or.mpr ⟨hshort, hnot⟩)
  · have hcopy : ∀ token : CString, token.length < string.length → nStrdup token = some token :=
      fun token htoken => nStrdup_eq (by omega)
    rw [ne_eq, hcuts] at hmore
    rw [ne_eq, search_eq_none_iff, not_not] at hfound
    rw [hcopy _ (hshorter _ hmem)]
    exact iff_of_true rfl (Or.inr ⟨hfound, hmore⟩)

/-- `n_strsplit` splits as documented exactly if the string is shorter than
`INT_MAX` bytes, or is cut and is not made of delimiters to be split without limit. -/
theorem split_law_iff (hlength : string.length < 2147483648) (hd : delimiter ≠ [])
    (maxTokens : Nat) :
    (∃ tokens, nStrsplit string delimiter maxTokens = some tokens ∧
        Splitting string delimiter maxTokens tokens) ↔
      string.length < 2147483647 ∨ delimiter <:+: string ∧ maxTokens ≠ 1 ∧
        ¬(maxTokens = 0 ∧ ∃ c, delimiter = [c] ∧ ∀ b ∈ string, b = c) := by
  by_cases hstring : string = []
  · subst hstring
    refine iff_of_true ⟨[], nStrsplit_nil hd maxTokens, splitting_nil delimiter maxTokens⟩ ?_
    exact Or.inl (Nat.zero_lt_succ _)
  · have hsplit := nStrsplit_eq hstring hd (by omega) maxTokens
    have hcopy := nStrdup_last_iff hd (Nat.le_of_lt_succ hlength) maxTokens
    have hright := @splitting_pieces_iff string delimiter maxTokens hstring hd
    have hlast := last_contains_iff hd (Nat.le_of_lt_succ hlength)
    have hunlimited : maxTokens = 0 → tokenLimit maxTokens - 1 = 2147483646 := by
      intro hzero
      rw [hzero]
      rfl
    simp only at hsplit hright
    generalize tokenLimit maxTokens - 1 = cuts at hsplit hcopy hright hunlimited
    rw [hsplit]
    constructor
    · rintro ⟨tokens, hmap, hsplitting⟩
      obtain ⟨copy, hdup, rfl⟩ := Option.map_eq_some_iff.mp hmap
      rw [hdup] at hcopy
      rcases hcopy.mp rfl with hshort | ⟨hinside, hlimit⟩
      · exact Or.inl hshort
      · by_cases hshort : string.length < 2147483647
        · exact Or.inl hshort
        · refine Or.inr ⟨hinside, hlimit, ?_⟩
          rintro ⟨hzero, hsame⟩
          obtain rfl := hunlimited hzero
          have hcontains := hlast.mpr ⟨by omega, hsame⟩
          exact hright.mp hsplitting ⟨hzero, hcontains⟩
    · intro hcond
      have hcan := hcopy.mpr (hcond.imp_right fun h => ⟨h.1, h.2.1⟩)
      obtain ⟨copy, hdup⟩ := Option.isSome_iff_exists.mp hcan
      refine ⟨_, by rw [hdup, Option.map_some], hright.mpr ?_⟩
      rintro ⟨hzero, hcontains⟩
      obtain rfl := hunlimited hzero
      obtain ⟨hlong, hsame⟩ := hlast.mp hcontains
      rcases hcond with hshort | ⟨_, _, hnot⟩
      · omega
      · exact hnot ⟨hzero, hsame⟩

end

theorem split_law_iff_colons :
    ∃ tokens, nStrsplit [58, 97, 58, 58, 98] [58] 3 = some tokens ∧
      Splitting [58, 97, 58, 58, 98] [58] 3 tokens :=
  (split_law_iff (by decide) (by decide) 3).mpr (Or.inl (by decide))

example : nStrsplit [58, 97, 58, 58, 98] [58] 3 = some [[], [97], [58, 98]] := by decide +kernel

theorem replicate_ne_nil (n : Nat) (c : UInt8) : List.replicate (n + 1) c ≠ [] :=
  List.cons_ne_nil c _

/-- `INT_MAX` delimiters split without limit leave one of them, and `INT_MAX`
bytes without a delimiter are not copied. -/
theorem longest_strings :
    nStrsplit (List.replicate 2147483647 97) [97] 0 =
        some (List.replicate 2147483646 [] ++ [[97]]) ∧
      (¬∃ tokens, nStrsplit (List.replicate 2147483647 97) [97] 0 = some tokens ∧
        Splitting (List.replicate 2147483647 97) [97] 0 tokens) ∧
      nStrsplit (List.replicate 2147483647 98) [97] 0 = none := by
  have hlength : ∀ c : UInt8, ((List.replicate 2147483647 c).length : Int) < 2147483648 := by
    intro c
    rw [List.length_replicate]
    decide
  have hpieces := pieces_replicate (97 : UInt8) 2147483646 1
  simp only [Nat.reduceAdd] at hpieces
  have hlimit : tokenLimit 0 - 1 = 2147483646 := rfl
  have hall : nStrsplit (List.replicate 2147483647 97) [97] 0 =
      some (List.replicate 2147483646 [] ++ [[97]]) := by
    have hsplit := nStrsplit_eq (replicate_ne_nil 2147483646 97) (List.cons_ne_nil 97 [])
      (hlength 97) 0
    simp only [Nat.reduceAdd, hlimit, hpieces, List.getLast_concat, List.replicate_one] at hsplit
    rw [hsplit, nStrdup_eq (by decide), Option.map_some]
  refine ⟨hall, ?_, ?_⟩
  · rintro ⟨tokens, hsome, hsplitting⟩
    obtain rfl := Option.some.inj (hall.symm.trans hsome)
    have hlast := hsplitting.last [97] (List.getLast?_concat ..) List.infix_rfl
    exact hlast.1 rfl
  · have hsplit := nStrsplit_eq (replicate_ne_nil 2147483646 98) (List.cons_ne_nil 97 [])
      (hlength 98) 0
    have hnone : search [97] (List.replicate 2147483647 (98 : UInt8)) = none := by
      apply search_singleton_none
      intro hmem
      exact absurd (List.eq_of_mem_replicate hmem) (by decide)
    simp only [Nat.reduceAdd, pieces_of_none hnone, List.getLast_singleton] at hsplit
    rw [hsplit, nStrdup_eq_none List.length_replicate, Option.map_none]

/-! ## One delimiter in both splitters -/

/-- As many pieces as `INT_MAX` come from delimiters alone, without a limit below. -/
theorem length_pieces_singleton_iff {string : CString} (hlength : string.length < 2147483647)
    (c : UInt8) {maxTokens : Nat} (hmax : maxTokens ≤ 2147483647) :
    (pieces [c] (tokenLimit maxTokens - 1) string).length < 2147483647 ↔
      ¬(string.length = 2147483646 ∧ (∀ b ∈ string, b = c) ∧
        (maxTokens = 0 ∨ maxTokens = 2147483647)) := by
  have hall := length_pieces_eq [c] (tokenLimit maxTokens - 1) string
  rw [List.length_singleton, mul_one] at hall
  constructor
  · rintro hfew ⟨hlong, hsame, hlimit⟩
    obtain rfl := List.eq_replicate_iff.mpr ⟨hlong, hsame⟩
    have hcuts : tokenLimit maxTokens - 1 = 2147483646 := by
      rcases hlimit with rfl | rfl
      · rfl
      · rfl
    have hpieces := pieces_replicate c 2147483646 0
    rw [Nat.add_zero] at hpieces
    rw [hcuts, hpieces, List.length_append, List.length_replicate, List.length_singleton] at hfew
    omega
  · intro hnot
    by_contra hmany
    have hle := length_pieces_le [c] (tokenLimit maxTokens - 1) string
    have hcuts := tokenLimit_eq maxTokens
    have hnone : (pieces [c] (tokenLimit maxTokens - 1) string).flatten = [] :=
      List.eq_nil_of_length_eq_zero (by omega)
    refine hnot ⟨by omega, ?_, ?_⟩
    · intro b hb
      rcases mem_or_mem_flatten_pieces [c] (tokenLimit maxTokens - 1) hb with hmem | hmem
      · exact List.mem_singleton.mp hmem
      · rw [hnone] at hmem
        cases hmem
    · have hlimit : maxTokens = 0 ∨ tokenLimit maxTokens = maxTokens := by
        by_cases hzero : maxTokens = 0
        · exact Or.inl hzero
        · exact Or.inr (if_neg (by omega))
      omega

/-- Both splitters return the same tokens unless there are `INT_MAX` of them. -/
theorem splitters_agree_iff {string : CString} (hlength : string.length < 2147483647) (c : UInt8)
    {maxTokens : Nat} (hmax : maxTokens ≤ 2147483647) :
    (∃ tokens, nStrsplit string [c] maxTokens = some tokens ∧
        nStrsplitSet string [c] maxTokens = some tokens) ↔
      ¬(string.length = 2147483646 ∧ (∀ b ∈ string, b = c) ∧
        (maxTokens = 0 ∨ maxTokens = 2147483647)) := by
  have hd : [c] ≠ [] := List.cons_ne_nil c []
  by_cases hstring : string = []
  · subst hstring
    apply iff_of_true
    · refine ⟨[], nStrsplit_nil hd maxTokens, ?_⟩
      simp only [nStrsplitSet, if_true]
    · intro hlong
      exact absurd hlong.1 (by simp)
  · have hsplit := nStrsplit_eq hstring hd (by omega) maxTokens
    have hcopy := (nStrdup_last_iff hd hlength.le maxTokens).mpr (Or.inl hlength)
    obtain ⟨copy, hdup⟩ := Option.isSome_iff_exists.mp hcopy
    have hset := nStrsplitSet_eq hstring (by omega) c hmax
    simp only [hdup, Option.map_some] at hsplit hset
    rw [← length_pieces_singleton_iff hlength c hmax, hsplit, hset]
    constructor
    · rintro ⟨tokens, _, hsame⟩
      by_contra hmany
      rw [if_neg hmany] at hsame
      cases hsame
    · intro hfew
      exact ⟨_, rfl, if_pos hfew⟩

theorem splitters_agree_iff_colons :
    ∃ tokens, nStrsplit [58, 97, 58, 58, 98] [58] 3 = some tokens ∧
      nStrsplitSet [58, 97, 58, 58, 98] [58] (3 : Nat) = some tokens :=
  (splitters_agree_iff (by decide) 58 (by decide)).mpr (by simp)

/-- Two bytes less than 2^31, all of them delimiters: `INT_MAX` tokens, whose
vector `n_strsplit_set` cannot allocate. -/
theorem splitters_disagree :
    nStrsplit (List.replicate 2147483646 97) [97] 0 = some (List.replicate 2147483647 []) ∧
      nStrsplitSet (List.replicate 2147483646 97) [97] (0 : Nat) = none := by
  have hlength : ((List.replicate 2147483646 (97 : UInt8)).length : Int) < 2147483647 := by
    rw [List.length_replicate]
    decide
  have hstring := replicate_ne_nil 2147483645 97
  have hpieces := pieces_replicate (97 : UInt8) 2147483646 0
  have hlimit : tokenLimit 0 - 1 = 2147483646 := rfl
  simp only [Nat.reduceAdd] at hstring hpieces
  constructor
  · have hsplit := nStrsplit_eq hstring (List.cons_ne_nil 97 []) (by omega) 0
    simp only [hlimit, hpieces, List.getLast_concat, List.replicate_zero] at hsplit
    have hempty : nStrdup [] = some [] := nStrdup_eq (by decide)
    have hcount : List.replicate 2147483646 ([] : CString) ++ [[]] =
        List.replicate 2147483647 [] := by
      have hsucc := List.replicate_succ' (n := 2147483646) (a := ([] : CString))
      simp only [Nat.reduceAdd] at hsucc
      exact hsucc.symm
    rw [hsplit, hempty, Option.map_some, hcount]
  · have hset := nStrsplitSet_eq hstring hlength 97 (Nat.zero_le 2147483647)
    have hmany : ¬(pieces [97] (tokenLimit 0 - 1)
        (List.replicate 2147483646 (97 : UInt8))).length < 2147483647 := by
      rw [hlimit, hpieces, List.length_append, List.length_replicate, List.length_singleton]
      decide
    simp only [if_neg hmany] at hset
    exact hset

/-! ## The work of the loop -/

/-- The values of `max_tokens` and of the other variables that the loop comes to. -/
def Reaches (string delimiter : CString) (maxTokens : Nat) (l : Nat × Splitter) : Prop :=
  ∃ rounds : List Unit, Run (fun l _ => Splitter.round delimiter l) (fun _ _ => True)
    (tokenLimit maxTokens, Splitter.start string delimiter) rounds l

/-- Every match that the loop handles takes at least one byte from the string,
and there is no more than one token a byte and one. -/
structure WorkBounded (string delimiter : CString) (maxTokens : Nat) : Prop where
  progress : ∀ l l' s, Reaches string delimiter maxTokens l →
    Splitter.round delimiter l = some l' → l.2.s = some s → l'.2.remainder.length < s.length
  tokens : ∀ tokens, nStrsplit string delimiter maxTokens = some tokens →
    tokens.length ≤ string.length + 1

theorem length_tokensOf_le (vector : List (Option CString)) :
    (tokensOf vector).length ≤ vector.countP Option.isSome := by
  induction vector with
  | nil => exact le_refl 0
  | cons token vector ih =>
      cases token with
      | none => exact Nat.zero_le _
      | some token =>
          rw [tokensOf, List.length_cons, List.countP_cons_of_pos rfl]
          exact Nat.succ_le_succ ih

/-- Each store adds at most one string. -/
theorem countP_fillBack_le {wrap : Int → Int} {list : List CString} {n : Int}
    {array vector : List (Option CString)} (h : fillBack wrap array n list = some vector) :
    vector.countP Option.isSome ≤ array.countP Option.isSome + list.length := by
  induction list generalizing array n with
  | nil =>
      obtain rfl := Option.some.inj h
      exact le_refl _
  | cons data list ih =>
      rw [fillBack] at h
      split_ifs at h with hin
      have hrest := ih h
      have hset := List.countP_set (p := Option.isSome) (a := some data) (l := array)
        (i := n.toNat) (by omega)
      rw [hset] at hrest
      rw [List.length_cons]
      split_ifs at hrest
      all_goals omega

theorem length_newVector_le {wrap : Int → Int} {n : Int} {list tokens : List CString}
    (h : newVector wrap n list = some tokens) : tokens.length ≤ list.length := by
  unfold newVector at h
  split_ifs at h
  obtain ⟨vector, hfill, rfl⟩ := Option.map_eq_some_iff.mp h
  have hcount := countP_fillBack_le hfill
  rw [List.countP_replicate, if_neg (by simp), Nat.zero_add] at hcount
  exact (length_tokensOf_le vector).trans hcount

theorem length_mapM_id {list : List (Option CString)} {tokens : List CString}
    (h : list.mapM id = some tokens) : tokens.length = list.length := by
  induction list generalizing tokens with
  | nil =>
      obtain rfl := Option.some.inj h
      rfl
  | cons token list ih =>
      rw [List.mapM_cons] at h
      obtain ⟨first, _, hrest⟩ := Option.bind_eq_some_iff.mp h
      obtain ⟨rest, hmap, htokens⟩ := Option.bind_eq_some_iff.mp hrest
      obtain rfl := Option.some.inj htokens
      rw [List.length_cons, List.length_cons, ih hmap]

section

variable {string delimiter : CString} {maxTokens : Nat}

/-- What every cut keeps, the loop keeps. -/
theorem Splitter.loop_invariant (inv : Splitter → Prop)
    (hkeep : ∀ st s, inv st → st.s = some s → inv (st.cut delimiter s)) (limit : Nat)
    {st : Splitter} (h : inv st) : inv (st.loop delimiter limit) := by
  induction limit generalizing st with
  | zero => exact h
  | succ limit ih =>
      rw [loop]
      cases hs : st.s with
      | none =>
          rw [round_none hs]
          exact h
      | some s =>
          cases limit with
          | zero => exact h
          | succ limit =>
              rw [round_some hs]
              exact ih (hkeep st s h hs)

/-- The vector has no more strings than the loop has listed, and the last one. -/
theorem length_nStrsplit_le {tokens : List CString}
    (h : nStrsplit string delimiter maxTokens = some tokens) {bound : Nat}
    (hstart : (Splitter.start string delimiter).stringList.length ≤ bound)
    (hloop : ((Splitter.start string delimiter).loop delimiter
      (tokenLimit maxTokens)).stringList.length ≤ bound) : tokens.length ≤ bound + 1 := by
  simp only [nStrsplit] at h
  generalize hst : (if (Splitter.start string delimiter).s.isSome then
    (Splitter.start string delimiter).loop delimiter (tokenLimit maxTokens)
    else Splitter.start string delimiter) = st at h
  have hlist : st.stringList.length ≤ bound := by
    rw [← hst]
    split_ifs
    · exact hloop
    · exact hstart
  obtain ⟨list, hmap, hvector⟩ := Option.bind_eq_some_iff.mp h
  apply ((length_newVector_le hvector).trans_eq (length_mapM_id hmap)).trans
  split_ifs
  · rw [List.length_cons]
    omega
  · omega

/-- A round that cuts takes at least one byte if the loop sees a delimiter that is not empty. -/
theorem cut_remainder_lt {st : Splitter} {s : CString} (hd : uint32 delimiter.length ≠ 0)
    (hs : strstr st.remainder delimiter = some s) :
    (st.cut delimiter s).remainder.length < s.length ∧ s.length ≤ st.remainder.length := by
  obtain ⟨front, hremainder, hprefix, _⟩ := search_some hs
  have hle := hprefix.length_le
  have hnat : 0 < delimiter.length := by
    apply Nat.pos_of_ne_zero
    intro hzero
    rw [hzero] at hd
    exact hd rfl
  unfold uint32 at hd
  simp only [Splitter.cut, List.length_drop, uint32, hremainder, List.length_append]
  omega

/-- Every string of the list was paid for by a byte. -/
def Splitter.PaidFor (string delimiter : CString) (st : Splitter) : Prop :=
  st.s = strstr st.remainder delimiter ∧
    st.stringList.length + st.remainder.length ≤ string.length

theorem Splitter.PaidFor.cut (hd : uint32 delimiter.length ≠ 0) {st : Splitter} {s : CString}
    (h : st.PaidFor string delimiter) (hs : st.s = some s) :
    (st.cut delimiter s).PaidFor string delimiter := by
  have hless := cut_remainder_lt hd (h.1.symm.trans hs)
  have hsum := h.2
  refine ⟨rfl, ?_⟩
  simp only [Splitter.cut, List.length_cons] at hless ⊢
  omega

theorem workBounded_of_cuts (hd : uint32 delimiter.length ≠ 0) :
    WorkBounded string delimiter maxTokens where
  progress := by
    intro l l' s hreach hround hs
    obtain ⟨rounds, hrun⟩ := hreach
    have hfound : l.2.s = strstr l.2.remainder delimiter := by
      refine hrun.invariant (fun l => l.2.s = strstr l.2.remainder delimiter) ?_ rfl
      intro l _ l' _ _ hround
      unfold Splitter.round at hround
      split_ifs at hround
      obtain ⟨s, _, rfl⟩ := Option.map_eq_some_iff.mp hround
      rfl
    unfold Splitter.round at hround
    split_ifs at hround
    rw [hs] at hround
    obtain rfl := Option.some.inj hround
    exact (cut_remainder_lt hd (hfound.symm.trans hs)).1
  tokens := by
    intro tokens htokens
    have hstart : (Splitter.start string delimiter).PaidFor string delimiter :=
      ⟨rfl, (Nat.zero_add _).le⟩
    have hloop := Splitter.loop_invariant (Splitter.PaidFor string delimiter)
      (fun st s h hs => h.cut hd hs) (tokenLimit maxTokens) hstart
    exact length_nStrsplit_le htokens (Nat.zero_le _) ((Nat.le_add_right _ _).trans hloop.2)

/-- A loop that makes no round at all. -/
theorem workBounded_of_round_none
    (hround : Splitter.round delimiter
      (tokenLimit maxTokens, Splitter.start string delimiter) = none) :
    WorkBounded string delimiter maxTokens where
  progress := by
    intro l l' s hreach hround' hs
    obtain ⟨rounds, hrun⟩ := hreach
    cases hrun with
    | nil =>
        rw [hround] at hround'
        cases hround'
    | cons _ hstep _ =>
        rw [hround] at hstep
        cases hstep
  tokens := by
    intro tokens htokens
    apply length_nStrsplit_le htokens (Nat.zero_le _)
    rw [tokenLimit_eq, Splitter.loop, ← tokenLimit_eq, hround]
    exact Nat.zero_le _

/-- The loop makes progress exactly if it sees a delimiter that is not empty,
or if it does nothing. -/
theorem work_bounded_iff (string delimiter : CString) (maxTokens : Nat) :
    WorkBounded string delimiter maxTokens ↔
      uint32 delimiter.length ≠ 0 ∨ ¬delimiter <:+: string ∨ maxTokens = 1 := by
  constructor
  · intro hwork
    by_contra hnot
    obtain ⟨hd, hinside, hlimit⟩ : uint32 delimiter.length = 0 ∧ delimiter <:+: string ∧
        maxTokens ≠ 1 := by tauto
    obtain ⟨s, hs⟩ : ∃ s, strstr string delimiter = some s := by
      rw [← Option.ne_none_iff_exists', ne_eq, strstr, search_eq_none_iff, not_not]
      exact hinside
    obtain ⟨cuts, hcuts⟩ : ∃ cuts, tokenLimit maxTokens = cuts + 1 + 1 := by
      unfold tokenLimit
      split_ifs
      · exact ⟨2147483645, rfl⟩
      · exact ⟨maxTokens - 2, by omega⟩
    have hround : Splitter.round delimiter (tokenLimit maxTokens, .start string delimiter) =
        some (cuts + 1, (Splitter.start string delimiter).cut delimiter s) := by
      rw [hcuts]
      exact Splitter.round_some hs cuts
    have hless := hwork.progress _ _ s ⟨[], .nil _⟩ hround hs
    simp only [Splitter.cut, hd, Int.toNat_zero, List.drop_zero, lt_irrefl] at hless
  · rintro (hd | hinside | hlimit)
    · exact workBounded_of_cuts hd
    · apply workBounded_of_round_none
      exact Splitter.round_none (search_eq_none_iff.mpr hinside) _
    · apply workBounded_of_round_none
      rw [hlimit]
      rfl

/-- The empty delimiter is found at once, again and again: two tokens from the
empty string, and three from one byte. -/
theorem empty_delimiter_repeats :
    nStrsplit [] [] 3 = some [[], []] ∧ nStrsplit [97] [] 3 = some [[], [], [97]] ∧
      ¬WorkBounded [] [] 3 := by
  have hempty : nStrsplit [] [] 3 = some [[], []] := by decide +kernel
  refine ⟨hempty, by decide +kernel, ?_⟩
  intro hwork
  exact absurd (hwork.tokens _ hempty) (by decide)

end

end SqliteFs
